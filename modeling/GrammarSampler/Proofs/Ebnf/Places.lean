import GrammarSampler.Proofs.Ebnf.Syntax

/-!
Places in a body. Reading a body from its front, every character stands between the elements, in a
name or in quotes, and so does the end of every line that the body was put together from.
-/
namespace GrammarSampler.Ebnf

inductive Place where
  | between
  | name
  | quoted (quote : Char)
  | escaped (quote : Char)
deriving DecidableEq, Repr

namespace Place

def after (place : Place) (c : Char) : Place :=
  match place with
  | between => if isQuote c then quoted c else if c = '<' then name else between
  | name => if c = '>' then between else name
  | quoted quote => if c = '\\' then escaped quote else if c = quote then between else quoted quote
  | escaped quote => quoted quote

def behind (place : Place) (cs : List Char) : Place := cs.foldl after place

def isQuoted : Place → Bool
  | between | name => false
  | quoted _ | escaped _ => true

def Clear (place : Place) : List Char → Prop
  | [] => True
  | c :: cs => ¬ (place = between ∧ c = '#') ∧ (place.after c).Clear cs

def Bare (place : Place) : List Char → Prop
  | [] => True
  | c :: cs => ¬ (place = name ∧ isQuote c = true) ∧ (place.after c).Bare cs

variable {place : Place} {c : Char} {cs more : List Char}

@[simp] theorem behind_nil : place.behind [] = place := rfl

@[simp] theorem behind_cons : place.behind (c :: cs) = (place.after c).behind cs := rfl

@[simp] theorem behind_append : place.behind (cs ++ more) = (place.behind cs).behind more :=
  List.foldl_append

theorem clear_append : place.Clear (cs ++ more) ↔ place.Clear cs ∧ (place.behind cs).Clear more := by
  induction cs generalizing place with
  | nil => simp [Clear]
  | cons c cs ih => rw [List.cons_append, Clear, ih, Clear, behind_cons, and_assoc]

theorem after_blank (blank : isBlank c = true) (unquoted : place.isQuoted = false) :
    place.after c = place := by
  have other : isQuote c = false ∧ c ≠ '<' ∧ c ≠ '>' := by
    refine ⟨eq_false_of_ne_true fun quote => ?_, ?_, ?_⟩
    · rcases (by simpa [isQuote] using quote : c = '"' ∨ c = '\'') with rfl | rfl <;>
        exact absurd blank (by decide)
    · rintro rfl
      exact absurd blank (by decide)
    · rintro rfl
      exact absurd blank (by decide)
  cases place with
  | between => simp [after, other]
  | name => simp [after, other]
  | quoted quote => cases unquoted
  | escaped quote => cases unquoted

theorem behind_blanks (blank : ∀ c ∈ cs, isBlank c = true) (unquoted : place.isQuoted = false) :
    place.behind cs = place := by
  induction cs with
  | nil => rfl
  | cons c cs ih =>
    obtain ⟨here, later⟩ := List.forall_mem_cons.mp blank
    rw [behind_cons, after_blank here unquoted]
    exact ih later

/-- A text leads from one place to another without a number sign between elements. -/
structure Leads (place : Place) (cs : List Char) (next : Place) : Prop where
  behind : place.behind cs = next
  clear : place.Clear cs

theorem Leads.nil : Leads place [] place := ⟨rfl, trivial⟩

theorem Leads.cons {next last : Place} (here : place.after c = next)
    (other : ¬ (place = between ∧ c = '#')) (tail : Leads next cs last) :
    Leads place (c :: cs) last := by
  subst here
  exact ⟨tail.behind, other, tail.clear⟩

theorem Leads.append {next last : Place} (head : Leads place cs next) (tail : Leads next more last) :
    Leads place (cs ++ more) last := by
  obtain ⟨rfl, clear⟩ := head
  exact ⟨behind_append.trans tail.behind, clear_append.mpr ⟨clear, tail.clear⟩⟩

end Place

open Place (Leads after after_blank)

theorem leads_quoted {quote : Char} {text cs : List Char} (inside : Quoted quote text cs) :
    Leads (.quoted quote) text (.quoted quote) := by
  induction inside with
  | nil => exact .nil
  | escaped c tail ih =>
    have slash : (Place.quoted quote).after '\\' = .escaped quote := by simp [after]
    have next : (Place.escaped quote).after c = .quoted quote := rfl
    exact .cons slash nofun (.cons next nofun ih)
  | plain unescaped open_ tail ih =>
    exact .cons (by simp [after, unescaped, open_]) nofun ih

theorem leads_name {text : List Char} (single : '>' ∉ text) : Leads .name text .name := by
  induction text with
  | nil => exact .nil
  | cons c text ih =>
    rw [List.mem_cons, not_or] at single
    exact .cons (if_neg (Ne.symm single.1)) nofun (ih single.2)

theorem leads_mark {c : Char} (mark : c ∈ ['?', '*', '+', '|', '[', ']', '\x7b', '\x7d', '(', ')']) :
    Leads .between [c] .between := by
  have plain : isQuote c = false ∧ c ≠ '<' ∧ c ≠ '#' := by
    simp only [List.mem_cons, List.not_mem_nil, or_false] at mark
    rcases mark with rfl | rfl | rfl | rfl | rfl | rfl | rfl | rfl | rfl | rfl <;> decide
  exact .cons (by simp [after, plain]) (fun both => plain.2.2 both.2) .nil

theorem leads_enclosed {opening closer : Char} {text : List Char}
    (opens : opening ∈ ['[', '\x7b', '(']) (closes : closer ∈ [']', '\x7d', ')'])
    (inner : Leads .between text .between) :
    Leads .between (opening :: text ++ [closer]) .between := by
  have front : Leads .between [opening] .between := by
    apply leads_mark
    simp only [List.mem_cons, List.not_mem_nil, or_false] at opens
    rcases opens with rfl | rfl | rfl <;> decide
  have back : Leads .between [closer] .between := by
    apply leads_mark
    simp only [List.mem_cons, List.not_mem_nil, or_false] at closes
    rcases closes with rfl | rfl | rfl <;> decide
  exact (front.append inner).append back

mutual
theorem SpellsElement.leads : ∀ {text : List Char} {item : Item}, SpellsElement text item →
    Leads .between text .between
  | _, _, .literal either inside => by
    refine .append (.cons ?_ ?_ (leads_quoted inside)) (.cons ?_ nofun .nil)
    · rcases either with rfl | rfl <;> rfl
    · rintro ⟨-, rfl⟩
      rcases either with same | same <;> exact absurd same (by decide)
    · rcases either with rfl | rfl <;> rfl
  | _, _, .reference single _ =>
    .append (.cons rfl (by decide) (leads_name single)) (.cons rfl nofun .nil)
  | _, _, .optional inner => leads_enclosed (by decide) (by decide) inner.leads
  | _, _, .repetition inner => leads_enclosed (by decide) (by decide) inner.leads
  | _, _, .group inner => leads_enclosed (by decide) (by decide) inner.leads

theorem SpellsItem.leads : ∀ {text : List Char} {item : Item}, SpellsItem text item →
    Leads .between text .between
  | _, _, .plain element => element.leads
  | _, _, .optional element => element.leads.append (leads_mark (by decide))
  | _, _, .star element => element.leads.append (leads_mark (by decide))
  | _, _, .plus element => element.leads.append (leads_mark (by decide))

theorem SpellsSequence.leads : ∀ {text : List Char} {items : List Item}, SpellsSequence text items →
    Leads .between text .between
  | _, _, .nil => .nil
  | _, _, .blank blank tail =>
    .cons (after_blank blank rfl) (by rintro ⟨-, rfl⟩; exact absurd blank (by decide)) tail.leads
  | _, _, .item head tail => head.leads.append tail.leads

theorem SpellsBody.leads : ∀ {text : List Char} {body : Body}, SpellsBody text body →
    Leads .between text .between
  | _, _, .last head => head.leads
  | _, _, .bar head tail => head.leads.append ((leads_mark (by decide)).append tail.leads)
end

end GrammarSampler.Ebnf
