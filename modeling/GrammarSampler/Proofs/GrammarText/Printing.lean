import GrammarSampler.GrammarText.Lines
import GrammarSampler.Grammar.Rules
import GrammarSampler.Proofs.Ebnf.Syntax
import Mathlib.Data.List.Infix
import Mathlib.Data.List.TakeWhile

/-!
How rules are printed: every symbol spells itself as an element of a body, and the pieces of a
printed rule come through the reading of its line unchanged.
-/
namespace GrammarSampler

namespace Quoted

def shorthands : List (List Char) :=
  [['\\', '\\'], ['\\', '\''], ['\\', 'n'], ['\\', 'r'], ['\\', 't']]

/-- Every character is shown as itself or by a shorthand. -/
def Readable (cs : List Char) : Prop :=
  ∀ c ∈ cs, escape (quoteFor cs) c = [c] ∨ escape (quoteFor cs) c ∈ shorthands

instance (cs : List Char) : Decidable (Readable cs) := List.decidableBAll _ cs

theorem quoteFor_cases (cs : List Char) : quoteFor cs = '"' ∨ quoteFor cs = '\'' := by
  unfold quoteFor
  split
  · exact .inl rfl
  · exact .inr rfl

theorem isBlank_quoteFor (cs : List Char) : isBlank (quoteFor cs) = false := by
  rcases quoteFor_cases cs with same | same
  · rw [same]; decide
  · rw [same]; decide

/-- What is shown is the character, if it needs no backslash, or a backslash with what stands
for it. -/
theorem escape_cases {quote c : Char} (either : quote = '"' ∨ quote = '\'')
    (readable : escape quote c = [c] ∨ escape quote c ∈ shorthands) :
    (escape quote c = [c] ∧ c ≠ '\\' ∧ c ≠ quote ∧ c ≠ '\n') ∨
      ∃ d, escape quote c = ['\\', d] ∧ Ebnf.unescape d = c ∧ d ≠ '\n' := by
  unfold escape at readable ⊢
  split_ifs at readable ⊢ with protected_ feed carriage tab printable short medium
  · right
    rcases protected_ with rfl | rfl
    · rcases either with rfl | rfl
      · exact ⟨'"', rfl, rfl, by decide⟩
      · exact ⟨'\'', rfl, rfl, by decide⟩
    · exact ⟨'\\', rfl, rfl, by decide⟩
  · exact .inr ⟨'n', rfl, feed.symm, by decide⟩
  · exact .inr ⟨'r', rfl, carriage.symm, by decide⟩
  · exact .inr ⟨'t', rfl, tab.symm, by decide⟩
  · exact .inl ⟨rfl, fun same => protected_ (.inr same), fun same => protected_ (.inl same), feed⟩
  · simp [shorthands] at readable
  · simp [shorthands] at readable
  · simp [shorthands] at readable

theorem quoted_escape {quote : Char} (either : quote = '"' ∨ quote = '\'') {cs : List Char}
    (readable : ∀ c ∈ cs, escape quote c = [c] ∨ escape quote c ∈ shorthands) :
    Ebnf.Quoted quote (cs.flatMap (escape quote)) cs := by
  induction cs with
  | nil => exact .nil
  | cons c cs ih =>
    obtain ⟨here, later⟩ := List.forall_mem_cons.mp readable
    rw [List.flatMap_cons]
    rcases escape_cases either here with ⟨shown, unescaped, open_, -⟩ | ⟨d, shown, rfl, -⟩
    · rw [shown]
      exact .plain unescaped open_ (ih later)
    · rw [shown]
      exact .escaped d (ih later)

theorem feed_notMem_encode {cs : List Char} (readable : Readable cs) : '\n' ∉ encode cs := by
  have inner : '\n' ∉ cs.flatMap (escape (quoteFor cs)) := by
    rw [List.mem_flatMap]
    rintro ⟨c, inside, feed⟩
    rcases escape_cases (quoteFor_cases cs) (readable c inside) with
      ⟨shown, -, -, other⟩ | ⟨d, shown, -, other⟩
    · rw [shown, List.mem_singleton] at feed
      exact other feed.symm
    · rw [shown, List.mem_cons, List.mem_singleton] at feed
      rcases feed with slash | same
      · exact absurd slash (by decide)
      · exact other same.symm
  have outer : '\n' ≠ quoteFor cs := by
    intro same
    have kept := isBlank_quoteFor cs
    rw [← same] at kept
    exact absurd kept (by decide)
  simp [encode, inner, outer]

end Quoted

namespace GrammarText
open Ebnf

section Strip
variable {drop : Char → Bool} {before text after : List Char}

theorem stripWhere_between (left : ∀ c ∈ before, drop c = true) (right : ∀ c ∈ after, drop c = true)
    (first : ∃ c rest, text = c :: rest ∧ drop c = false)
    (last : ∃ front c, text = front ++ [c] ∧ drop c = false) :
    stripWhere drop (before ++ text ++ after) = text := by
  have front : (before ++ text ++ after).dropWhile drop = text ++ after := by
    obtain ⟨c, rest, rfl, kept⟩ := first
    rw [List.append_assoc, List.dropWhile_append_of_pos left, List.cons_append,
      List.dropWhile_cons_of_neg (by simp [kept])]
  have back : (text ++ after).reverse.dropWhile drop = text.reverse := by
    obtain ⟨front, c, rfl, kept⟩ := last
    rw [List.reverse_append, List.dropWhile_append_of_pos (by simpa using right),
      List.reverse_concat, List.dropWhile_cons_of_neg (by simp [kept])]
  rw [stripWhere, front, back, List.reverse_reverse]

end Strip

theorem stripCommentFrom_quoted {quote : Char} (unescaped : quote ≠ '\\') {text cs : List Char}
    (quoted : Quoted quote text cs) (rest : List Char) :
    stripCommentFrom (.inside quote) (text ++ quote :: rest) =
      text ++ quote :: stripCommentFrom .outside rest := by
  induction quoted with
  | nil => simp [stripCommentFrom, Quotation.after, unescaped]
  | escaped c tail ih => simp [stripCommentFrom, Quotation.after, ih]
  | plain slash open_ tail ih => simp [stripCommentFrom, Quotation.after, slash, open_, ih]

theorem clear_of_quoted {quote : Char} (either : quote = '"' ∨ quote = '\'') {text cs : List Char}
    (quoted : Quoted quote text cs) (rest : List Char) :
    stripCommentFrom .outside (quote :: (text ++ quote :: rest)) =
      quote :: (text ++ quote :: stripCommentFrom .outside rest) := by
  rcases either with rfl | rfl
  · rw [← stripCommentFrom_quoted (by decide) quoted]
    simp [stripCommentFrom, Quotation.after]
  · rw [← stripCommentFrom_quoted (by decide) quoted]
    simp [stripCommentFrom, Quotation.after]

/-- A text that begins and ends without blanks, stays on its line, closes its quotes and holds no
comment: reading a line gives it back as it stands. -/
structure Verbatim (text : List Char) : Prop where
  first : ∃ c rest, text = c :: rest ∧ isBlank c = false
  last : ∃ front c, text = front ++ [c] ∧ isBlank c = false
  line : '\n' ∉ text
  clear : ∀ rest, stripCommentFrom .outside (text ++ rest) =
    text ++ stripCommentFrom .outside rest

theorem clear_of_plain {text : List Char} (plain : ∀ c ∈ text, c ∉ ['#', '"', '\''])
    (rest : List Char) :
    stripCommentFrom .outside (text ++ rest) = text ++ stripCommentFrom .outside rest := by
  induction text with
  | nil => rfl
  | cons c text ih =>
    obtain ⟨here, later⟩ := List.forall_mem_cons.mp plain
    simp only [List.mem_cons, List.not_mem_nil, or_false, not_or] at here
    simp [stripCommentFrom, Quotation.after, here, ih later]

namespace Verbatim
variable {text other separator : List Char}

theorem join (plain : ∀ c ∈ separator, c ∉ ['\n', '#', '"', '\'']) (h : Verbatim text)
    (h' : Verbatim other) : Verbatim (text ++ separator ++ other) where
  first := by
    obtain ⟨c, rest, rfl, kept⟩ := h.first
    exact ⟨c, rest ++ separator ++ other, rfl, kept⟩
  last := by
    obtain ⟨front, c, rfl, kept⟩ := h'.last
    exact ⟨text ++ separator ++ front, c, by simp, kept⟩
  line := by
    simp only [List.mem_append, not_or]
    exact ⟨⟨h.line, fun inside => plain _ inside (by decide)⟩, h'.line⟩
  clear rest := by
    have passes := clear_of_plain fun c inside hash => plain c inside (List.mem_cons_of_mem _ hash)
    simp only [List.append_assoc]
    rw [h.clear, passes, h'.clear]

theorem intercalate (plain : ∀ c ∈ separator, c ∉ ['\n', '#', '"', '\'']) :
    ∀ {pieces : List (List Char)}, pieces ≠ [] → (∀ piece ∈ pieces, Verbatim piece) →
      Verbatim (separator.intercalate pieces) := by
  intro pieces some each
  induction pieces with
  | nil => exact absurd rfl some
  | cons piece pieces ih =>
    obtain ⟨here, later⟩ := List.forall_mem_cons.mp each
    cases pieces with
    | nil => rwa [List.intercalate_singleton]
    | cons next pieces =>
      rw [List.intercalate_cons_cons]
      exact here.join plain (ih (List.cons_ne_nil _ _) later)

theorem strip_blank (h : Verbatim text) {before after : List Char}
    (left : ∀ c ∈ before, isBlank c = true) (right : ∀ c ∈ after, isBlank c = true) :
    strip (before ++ text ++ after) = text := stripWhere_between left right h.first h.last

theorem strip_comment (h : Verbatim text) : strip (stripComment text) = text := by
  have clear := h.clear []
  have bare := @strip_blank _ h [] [] (by simp) (by simp)
  rw [List.append_nil] at clear bare
  rw [stripComment, clear]
  simpa [stripCommentFrom] using bare

end Verbatim

theorem verbatim_encode {cs : List Char} (readable : Quoted.Readable cs) :
    Verbatim (Quoted.encode cs) where
  first := ⟨_, _, rfl, Quoted.isBlank_quoteFor cs⟩
  last := ⟨_ :: _, _, (List.cons_append ..).symm, Quoted.isBlank_quoteFor cs⟩
  line := Quoted.feed_notMem_encode readable
  clear rest := by
    have either := Quoted.quoteFor_cases cs
    have passes := clear_of_quoted either (Quoted.quoted_escape either readable) rest
    simpa [Quoted.encode] using passes

structure PlainName (name : String) : Prop where
  nonempty : name ≠ ""
  plain : ∀ c ∈ name.toList, c ∉ ['<', '>', '#', '"', '\'', '\n']
  undivided : ¬ [':', ':', '='] <:+: name.toList
  trimmed : strip name.toList = name.toList

theorem plainName_iff {name : String} : PlainName name ↔
    name ≠ "" ∧ (∀ c ∈ name.toList, c ∉ ['<', '>', '#', '"', '\'', '\n']) ∧
      ¬ [':', ':', '='] <:+: name.toList ∧ strip name.toList = name.toList :=
  ⟨fun h => ⟨h.1, h.2, h.3, h.4⟩, fun h => ⟨h.1, h.2.1, h.2.2.1, h.2.2.2⟩⟩

instance (name : String) : Decidable (PlainName name) :=
  have : Decidable (∀ c ∈ name.toList, c ∉ ['<', '>', '#', '"', '\'', '\n']) :=
    List.decidableBAll _ name.toList
  decidable_of_iff _ plainName_iff.symm

namespace PlainName
variable {name : String} (h : PlainName name)
include h

theorem toList_ne_nil : name.toList ≠ [] := by
  intro empty
  exact h.nonempty (String.toList_eq_nil_iff.mp empty)

theorem apart {c : Char} (special : c ∈ ['<', '>', '#', '"', '\'', '\n']) : c ∉ name.toList :=
  fun inside => h.plain c inside special

theorem verbatim : Verbatim ('<' :: name.toList ++ ['>']) where
  first := ⟨'<', _, rfl, by decide⟩
  last := ⟨_, '>', rfl, by decide⟩
  line := by simp [h.apart]
  clear := by
    refine clear_of_plain ?_
    intro c inside
    rw [List.mem_append, List.mem_cons, List.mem_singleton] at inside
    rcases inside with (rfl | inner) | rfl
    · decide
    · have among : ['#', '"', '\''] ⊆ ['<', '>', '#', '"', '\'', '\n'] := by simp
      exact fun special => h.plain c inner (among special)
    · decide

theorem ruleName_eq : ruleName ('<' :: name.toList ++ ['>'] ++ [' ']) = name.toList := by
  have outer := @Verbatim.strip_blank _ h.verbatim [] [' '] (by simp) (by simp [isBlank])
  have inner : stripWhere (fun c => c == '<' || c == '>') (['<'] ++ name.toList ++ ['>']) =
      name.toList := by
    have kept : ∀ c ∈ name.toList, (c == '<' || c == '>') = false := by
      intro c inside
      rw [Bool.or_eq_false_iff, beq_eq_false_iff_ne, beq_eq_false_iff_ne]
      constructor
      · rintro rfl
        exact h.apart (by simp) inside
      · rintro rfl
        exact h.apart (by simp) inside
    refine stripWhere_between (by simp) (by simp) ?_ ?_
    · obtain ⟨c, rest, same⟩ := List.exists_cons_of_ne_nil h.toList_ne_nil
      exact ⟨c, rest, same, kept c (same ▸ List.mem_cons_self)⟩
    · obtain ⟨front, c, same⟩ := List.eq_nil_or_concat' name.toList |>.resolve_left h.toList_ne_nil
      exact ⟨front, c, same, kept c (same ▸ by simp)⟩
  rw [List.nil_append] at outer
  rw [ruleName, outer]
  exact (congrArg strip inner).trans h.trimmed

end PlainName
end GrammarText

namespace Symbol
open GrammarText Ebnf

/-- A terminal without characters that only codes can show, or a plain name. -/
def Readable : Symbol → Prop
  | terminal text => Quoted.Readable text.toList
  | nonterminal name => PlainName name

instance : ∀ s : Symbol, Decidable s.Readable
  | terminal text => inferInstanceAs (Decidable (Quoted.Readable text.toList))
  | nonterminal name => inferInstanceAs (Decidable (PlainName name))

def item : Symbol → Item
  | terminal text => .literal text
  | nonterminal name => .reference name

theorem toList_bracketed (name : String) :
    (bracketed name).toList = '<' :: name.toList ++ ['>'] := by
  simp [bracketed]

variable {s : Symbol} (readable : s.Readable)
include readable

theorem Readable.verbatim : Verbatim s.display.toList := by
  cases s with
  | terminal text => simpa [display, Quoted.text] using verbatim_encode readable
  | nonterminal name =>
    rw [display, toList_bracketed]
    exact PlainName.verbatim readable

theorem Readable.spells : SpellsElement s.display.toList s.item := by
  cases s with
  | terminal text =>
    have quoted := Quoted.quoted_escape (Quoted.quoteFor_cases text.toList) readable
    have spells := SpellsElement.literal (Quoted.quoteFor_cases text.toList) quoted
    rw [String.ofList_toList] at spells
    simpa [display, Quoted.text, Quoted.encode, item] using spells
  | nonterminal name =>
    have plain : PlainName name := readable
    have named : strip name.toList ≠ [] := by
      rw [plain.trimmed]
      exact plain.toList_ne_nil
    have spells := SpellsElement.reference (plain.apart (by decide)) named
    rw [plain.trimmed, String.ofList_toList] at spells
    rw [display, toList_bracketed]
    exact spells

end Symbol

namespace Expansion
open GrammarText Ebnf

/-- An alternative as it is read back: without symbols it has become the empty text, and its weight
is not printed. -/
def printed (e : Expansion) : Expansion :=
  .unweighted (if e.symbols.isEmpty then [.terminal ""] else e.symbols)

def items (e : Expansion) : List Item := e.printed.symbols.map Symbol.item

theorem references_printed (e : Expansion) : e.printed.references = e.references := by
  unfold printed references
  split
  · rename_i empty
    rw [List.isEmpty_iff.mp empty]
    rfl
  · rfl

theorem spells_symbols {symbols : List Symbol} (readable : ∀ s ∈ symbols, s.Readable)
    {rest : List Char} {later : List Item} (tail : SpellsSequence rest later) :
    SpellsSequence ([' '].intercalate (symbols.map fun s => s.display.toList) ++ rest)
      (symbols.map Symbol.item ++ later) := by
  induction symbols with
  | nil => exact tail
  | cons s symbols ih =>
    obtain ⟨here, others⟩ := List.forall_mem_cons.mp readable
    cases symbols with
    | nil => simpa using SpellsSequence.item (.plain here.spells) tail
    | cons next symbols =>
      rw [List.map_cons, List.map_cons, List.intercalate_cons_cons]
      simpa using SpellsSequence.item (.plain here.spells)
        (.blank (show isBlank ' ' = true by decide) (ih others))

theorem display_empty {e : Expansion} (empty : e.symbols = []) : e.display.toList = ['"', '"'] := by
  simp [display, empty]

theorem display_symbols {e : Expansion} (some : e.symbols ≠ []) :
    e.display.toList = [' '].intercalate (e.symbols.map fun s => s.display.toList) := by
  simp [display, some, Function.comp_def]

section
variable {e : Expansion} (readable : ∀ s ∈ e.symbols, s.Readable)
include readable

theorem verbatim_display : Verbatim e.display.toList := by
  by_cases empty : e.symbols = []
  · rw [display_empty empty]
    exact ⟨⟨'"', _, rfl, by decide⟩, ⟨['"'], '"', rfl, by decide⟩, by decide,
      fun rest => by simp [stripCommentFrom, Quotation.after]⟩
  · rw [display_symbols empty]
    refine Verbatim.intercalate (by simp) (by simpa using empty) ?_
    intro piece inside
    obtain ⟨s, among, rfl⟩ := List.mem_map.mp inside
    exact (readable s among).verbatim

theorem spells_display {rest : List Char} {later : List Item} (tail : SpellsSequence rest later) :
    SpellsSequence (e.display.toList ++ rest) (e.items ++ later) := by
  by_cases empty : e.symbols = []
  · have literal := SpellsElement.literal (.inl rfl) (@Quoted.nil '"')
    rw [display_empty empty]
    simpa [items, printed, unweighted, empty, Symbol.item] using
      SpellsSequence.item (.plain literal) tail
  · rw [display_symbols empty]
    simpa [items, printed, unweighted, empty] using spells_symbols readable tail

end

theorem toList_displayAll (alternatives : List Expansion) : (displayAll alternatives).toList =
    [' ', '|', ' '].intercalate (alternatives.map fun e => e.display.toList) := by
  simp [displayAll, Function.comp_def]

section
variable {alternatives : List Expansion} (some : alternatives ≠ [])
  (readable : ∀ e ∈ alternatives, ∀ s ∈ e.symbols, s.Readable)
include some readable

theorem verbatim_displayAll : Verbatim (displayAll alternatives).toList := by
  rw [toList_displayAll]
  refine Verbatim.intercalate (by simp) (by simpa using some) ?_
  intro piece inside
  obtain ⟨e, among, rfl⟩ := List.mem_map.mp inside
  exact verbatim_display (readable e among)

theorem spells_displayAll :
    SpellsBody (displayAll alternatives).toList (alternatives.map items) := by
  rw [toList_displayAll]
  induction alternatives with
  | nil => exact absurd rfl some
  | cons e alternatives ih =>
    obtain ⟨here, others⟩ := List.forall_mem_cons.mp readable
    cases alternatives with
    | nil => simpa using SpellsBody.last (spells_display here .nil)
    | cons next alternatives =>
      have blank : isBlank ' ' = true := by decide
      have bar := SpellsBody.bar (spells_display here (.blank blank .nil))
        ((ih (List.cons_ne_nil _ _) others).blank blank)
      rw [List.map_cons, List.map_cons, List.intercalate_cons_cons]
      simpa using bar

end
end Expansion
end GrammarSampler
