import GrammarSampler.Proofs.Ebnf.Language

/-!
The syntax of JSON texts. What stands within a value, numbers and strings, are regular languages;
values hold members and elements with commas between them, and blanks may stand around both and
around the whole text.
-/
namespace GrammarSampler.JsonText
open Computability

/-- The texts of one character for which a test holds. -/
def single (test : Char → Bool) : Language Char := {w | ∃ c, test c = true ∧ w = [c]}

def blanks : Language Char := (single fun c => c == ' ' || c == '\t' || c == '\n' || c == '\r')∗

def digit : Language Char := single Char.isDigit

def natural : Language Char := {['0']} + single (fun c => c.isDigit && c != '0') * digit∗

def fraction : Language Char := {['.']} * (digit * digit∗)

def exponent : Language Char :=
  ({['e']} + {['E']}) * ((1 + ({['+']} + {['-']})) * (digit * digit∗))

def number : Language Char := (1 + {['-']}) * (natural * ((1 + fraction) * (1 + exponent)))

def hexadecimal : Language Char :=
  single fun c => c.isDigit || decide ('a' ≤ c ∧ c ≤ 'f') || decide ('A' ≤ c ∧ c ≤ 'F')

def escape : Language Char :=
  {['\\']} * (single (fun c => "\"\\/bfnrt".toList.contains c) + {['u']} * hexadecimal ^ 4)

/-- A character that is no control, no quote and no backslash stands for itself. -/
def character : Language Char :=
  single (fun c => decide (' ' ≤ c) && c != '"' && c != '\\') + escape

def string : Language Char := {['"']} * (character∗ * {['"']})

inductive Separated (piece : List Char → Prop) : List Char → Prop where
  | one {w : List Char} (is : piece w) : Separated piece w
  | more {w last : List Char} (before : Separated piece w) (is : piece last) :
      Separated piece (w ++ ',' :: last)

inductive Padded (inner : List Char → Prop) : List Char → Prop where
  | intro {before w after : List Char} (left : before ∈ blanks) (is : inner w)
      (right : after ∈ blanks) : Padded inner (before ++ (w ++ after))

mutual
inductive IsValue : List Char → Prop where
  | named {word : String} (known : word ∈ ["false", "null", "true"]) : IsValue word.toList
  | number {w : List Char} (is : w ∈ number) : IsValue w
  | string {w : List Char} (is : w ∈ string) : IsValue w
  | object {w : List Char} (is : IsObject w) : IsValue w
  | array {w : List Char} (is : IsArray w) : IsValue w

inductive IsObject : List Char → Prop where
  | empty {w : List Char} (blank : w ∈ blanks) : IsObject ('\x7b' :: (w ++ ['\x7d']))
  | members {w : List Char} (are : Separated IsMember w) : IsObject ('\x7b' :: (w ++ ['\x7d']))

inductive IsMember : List Char → Prop where
  | intro {name value : List Char} (named : Padded (· ∈ string) name) (is : Padded IsValue value) :
      IsMember (name ++ ':' :: value)

inductive IsArray : List Char → Prop where
  | empty {w : List Char} (blank : w ∈ blanks) : IsArray ('[' :: (w ++ [']']))
  | elements {w : List Char} (are : Separated (Padded IsValue) w) : IsArray ('[' :: (w ++ [']']))
end

def IsText : List Char → Prop := Padded IsValue

def all (kind : List Char → Prop) : Language Char := {w | kind w}

section Blanks
variable {piece : List Char → Prop} {blank w v : List Char}

theorem nil_mem_blanks : [] ∈ blanks := Language.nil_mem_kstar _

theorem space_mem_blanks : [' '] ∈ blanks := (le_kstar : single _ ≤ blanks) ⟨' ', rfl, rfl⟩

theorem append_mem_blanks (first : w ∈ blanks) (second : v ∈ blanks) : w ++ v ∈ blanks := by
  have both : blanks * blanks = blanks := kstar_mul_kstar _
  rw [← both]
  exact Language.append_mem_mul first second

theorem Padded.of_bare (is : piece w) : Padded piece w := by
  have padded := Padded.intro nil_mem_blanks is nil_mem_blanks
  rwa [List.nil_append, List.append_nil] at padded

theorem Padded.behind (left : blank ∈ blanks) (padded : Padded piece w) :
    Padded piece (blank ++ w) := by
  cases padded with
  | intro more is right =>
    rw [← List.append_assoc]
    exact .intro (append_mem_blanks left more) is right

theorem IsMember.behind (left : blank ∈ blanks) (is : IsMember w) : IsMember (blank ++ w) := by
  cases is with
  | intro named is =>
    rw [← List.append_assoc]
    exact .intro (named.behind left) is

end Blanks

namespace Separated
variable {piece : List Char → Prop} {pieces : Language Char} {blank w v : List Char}

theorem append (first : Separated piece w) (second : Separated piece v) :
    Separated piece (w ++ ',' :: v) := by
  induction second with
  | one is => exact .more first is
  | more before is ih =>
    rw [← List.cons_append, ← List.append_assoc]
    exact .more ih is

theorem behind (each : ∀ v, piece v → piece (blank ++ v)) (are : Separated piece w) :
    Separated piece (blank ++ w) := by
  induction are with
  | one is => exact .one (each _ is)
  | more before is ih =>
    rw [← List.append_assoc]
    exact .more ih is

theorem append_kstar (each : ∀ u ∈ pieces, ∃ last, piece last ∧ u = ',' :: last)
    (are : Separated piece w) (more : v ∈ pieces∗) : Separated piece (w ++ v) := by
  obtain ⟨parts, rfl, all⟩ := Language.mem_kstar.mp more
  clear more
  induction parts generalizing w with
  | nil => simpa using are
  | cons part parts ih =>
    obtain ⟨here, later⟩ := List.forall_mem_cons.mp all
    obtain ⟨last, is, rfl⟩ := each part here
    rw [List.flatten_cons, ← List.append_assoc]
    exact ih (are.more is) later

theorem kstar_append (each : ∀ u ∈ pieces, ∃ first, piece first ∧ u = first ++ ',' :: blank)
    (behind : ∀ v, piece v → piece (blank ++ v)) (more : v ∈ pieces∗) (are : Separated piece w) :
    Separated piece (v ++ w) := by
  obtain ⟨parts, rfl, all⟩ := Language.mem_kstar.mp more
  clear more
  induction parts with
  | nil => exact are
  | cons part parts ih =>
    obtain ⟨here, later⟩ := List.forall_mem_cons.mp all
    obtain ⟨first, is, rfl⟩ := each part here
    have both := (Separated.one is).append ((ih later).behind behind)
    simpa using both

end Separated
end GrammarSampler.JsonText
