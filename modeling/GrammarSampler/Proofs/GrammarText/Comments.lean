import GrammarSampler.Proofs.Ebnf.Places
import GrammarSampler.Proofs.GrammarText.Acceptance
import GrammarSampler.Proofs.GrammarText.RoundTrip
import Mathlib.Data.List.DropRight

/-!
Comments at the ends of lines. Whether a number sign is text is decided line by line, before the body
is put together, by counting every quote as one that opens or closes a quoted text. The body is read
later, and there a quote in a name is part of the name and a quoted text may go on over several
lines. Where the two disagree a comment is read as part of the body.
-/
namespace GrammarSampler.GrammarText
open Ebnf (Place SpellsBody isQuote)

section Strip
variable {drop : Char → Bool} {cs rest : List Char}

theorem dropWhile_append_kept {c : Char} (kept : drop c = false) :
    (cs ++ c :: rest).dropWhile drop = cs.dropWhile drop ++ c :: rest := by
  induction cs with
  | nil => rw [List.nil_append, List.dropWhile_cons_of_neg (by simp [kept]), List.dropWhile_nil,
      List.nil_append]
  | cons d cs ih =>
    cases here : drop d with
    | true =>
      rw [List.cons_append, List.dropWhile_cons_of_pos here, ih, List.dropWhile_cons_of_pos here]
    | false =>
      rw [List.cons_append, List.dropWhile_cons_of_neg (by simp [here]),
        List.dropWhile_cons_of_neg (by simp [here]), List.cons_append]

theorem rdropWhile_append_kept {c : Char} (kept : drop c = false) :
    (cs ++ c :: rest).rdropWhile drop = cs ++ c :: rest.rdropWhile drop := by
  have shape : (cs ++ c :: rest).reverse = rest.reverse ++ c :: cs.reverse := by simp
  simp [List.rdropWhile, shape, dropWhile_append_kept kept]

theorem exists_rdropWhile (drop : Char → Bool) (cs : List Char) :
    ∃ trail, (∀ c ∈ trail, drop c = true) ∧ cs = cs.rdropWhile drop ++ trail :=
  ⟨cs.rtakeWhile drop, fun _ => List.mem_rtakeWhile_imp, List.rdropWhile_append_rtakeWhile.symm⟩

theorem exists_strip (cs : List Char) : ∃ lead trail, (∀ c ∈ lead, isBlank c = true) ∧
    (∀ c ∈ trail, isBlank c = true) ∧ cs = lead ++ (strip cs ++ trail) := by
  obtain ⟨trail, blank, back⟩ := exists_rdropWhile isBlank (cs.dropWhile isBlank)
  refine ⟨cs.takeWhile isBlank, trail, fun c => List.mem_takeWhile_imp, blank, ?_⟩
  have front := (@List.takeWhile_append_dropWhile _ isBlank cs).symm
  rwa [back] at front

theorem strip_sharp {blanks : List Char} (blank : ∀ c ∈ blanks, isBlank c = true) :
    ∃ blanks', (∀ c ∈ blanks', isBlank c = true) ∧ strip (cs ++ (blanks ++ '#' :: rest)) =
      strip cs ++ (blanks' ++ '#' :: rest.rdropWhile isBlank) := by
  have kept : isBlank '#' = false := by decide
  have front : (cs ++ (blanks ++ '#' :: rest)).dropWhile isBlank =
      (cs ++ blanks).dropWhile isBlank ++ '#' :: rest := by
    rw [← List.append_assoc, dropWhile_append_kept kept]
  have back : strip (cs ++ (blanks ++ '#' :: rest)) =
      (cs ++ blanks).dropWhile isBlank ++ '#' :: rest.rdropWhile isBlank := by
    change ((cs ++ (blanks ++ '#' :: rest)).dropWhile isBlank).rdropWhile isBlank = _
    rw [front, rdropWhile_append_kept kept]
  rw [back]
  cases begun : cs.dropWhile isBlank with
  | nil =>
    refine ⟨[], List.forall_mem_nil _, ?_⟩
    have all : (cs ++ blanks).dropWhile isBlank = [] := by
      refine List.dropWhile_eq_nil_iff.mpr fun c inside => ?_
      rcases List.mem_append.mp inside with early | late
      · exact List.dropWhile_eq_nil_iff.mp begun c early
      · exact blank c late
    have nothing : strip cs = [] := by
      change (cs.dropWhile isBlank).rdropWhile isBlank = []
      rw [begun]
      rfl
    rw [all, nothing]
    rfl
  | cons c more =>
    obtain ⟨trail, behind, whole⟩ := exists_rdropWhile isBlank (c :: more)
    refine ⟨trail ++ blanks, fun d inside => (List.mem_append.mp inside).elim (behind d) (blank d), ?_⟩
    have first : (cs ++ blanks).dropWhile isBlank = (c :: more) ++ blanks := by
      rw [List.dropWhile_append, begun]
      rfl
    have own : strip cs = (c :: more).rdropWhile isBlank := by
      change (cs.dropWhile isBlank).rdropWhile isBlank = _
      rw [begun]
    rw [first, own]
    conv_lhs => rw [whole]
    simp

theorem strip_blank_end (cs : List Char) : strip (cs ++ [' ']) = strip cs := by
  have blank : isBlank ' ' = true := by decide
  change ((cs ++ [' ']).dropWhile isBlank).rdropWhile isBlank =
    (cs.dropWhile isBlank).rdropWhile isBlank
  rw [List.dropWhile_append]
  split
  · rename_i nothing
    rw [List.isEmpty_iff.mp nothing]
    rfl
  · rw [List.rdropWhile_concat_pos _ _ _ blank]

end Strip

namespace Quotation
variable {q : Quotation} {cs more : List Char}

def behind (q : Quotation) (cs : List Char) : Quotation := cs.foldl after q

@[simp] theorem behind_nil : q.behind [] = q := rfl

@[simp] theorem behind_cons {c : Char} : q.behind (c :: cs) = (q.after c).behind cs := rfl

@[simp] theorem behind_append : q.behind (cs ++ more) = (q.behind cs).behind more :=
  List.foldl_append

theorem after_outside {c : Char} (plain : isQuote c = false) : outside.after c = outside := by
  have other : ¬ (c = '"' ∨ c = '\'') := by simpa [isQuote] using plain
  exact if_neg other

theorem behind_outside (plain : ∀ c ∈ cs, isQuote c = false) : outside.behind cs = outside := by
  induction cs with
  | nil => rfl
  | cons c cs ih =>
    obtain ⟨here, later⟩ := List.forall_mem_cons.mp plain
    rw [behind_cons, after_outside here]
    exact ih later

theorem behind_blanks (blank : ∀ c ∈ cs, isBlank c = true) : outside.behind cs = outside := by
  refine behind_outside fun c inside => eq_false_of_ne_true fun quote => ?_
  have blank := blank c inside
  rcases (by simpa [isQuote] using quote : c = '"' ∨ c = '\'') with rfl | rfl <;>
    exact absurd blank (by decide)

def Proper : Quotation → Prop
  | outside => True
  | inside quote | escaped quote => quote = '"' ∨ quote = '\''

theorem Proper.after (proper : q.Proper) (c : Char) : (q.after c).Proper := by
  cases q with
  | outside =>
    change (if c = '"' ∨ c = '\'' then inside c else outside).Proper
    split
    · assumption
    · trivial
  | inside quote =>
    change (if c = '\\' then escaped quote else if c = quote then outside else inside quote).Proper
    split
    · exact proper
    · split
      · trivial
      · exact proper
  | escaped quote => exact proper

theorem Proper.behind (proper : q.Proper) : (q.behind cs).Proper := by
  induction cs generalizing q with
  | nil => exact proper
  | cons c cs ih => exact ih (proper.after c)

end Quotation

/-- Either a comment is found in a text, and then nothing behind it is read, or all of the text is
kept and the scan goes on behind it. -/
theorem stripCommentFrom_cases (q : Quotation) (cs : List Char) :
    (q.behind (stripCommentFrom q cs) = .outside ∧
        ∀ more, stripCommentFrom q (cs ++ more) = stripCommentFrom q cs) ∨
      stripCommentFrom q cs = cs ∧
        ∀ more, stripCommentFrom q (cs ++ more) = cs ++ stripCommentFrom (q.behind cs) more := by
  induction cs generalizing q with
  | nil => exact .inr ⟨rfl, fun _ => rfl⟩
  | cons c cs ih =>
    by_cases sharp : q = .outside ∧ c = '#'
    · refine .inl ⟨?_, fun more => ?_⟩
      · rw [stripCommentFrom, if_pos sharp, sharp.1]
        rfl
      · rw [List.cons_append, stripCommentFrom, if_pos sharp, stripCommentFrom, if_pos sharp]
    · simp only [List.cons_append, stripCommentFrom, if_neg sharp]
      rcases ih (q.after c) with ⟨closed, same⟩ | ⟨whole, on⟩
      · exact .inl ⟨closed, fun more => congrArg (c :: ·) (same more)⟩
      · exact .inr ⟨congrArg (c :: ·) whole, fun more => congrArg (c :: ·) (on more)⟩

def scanned (raw : List Char) : Quotation := Quotation.outside.behind (stripComment raw)

def commented (raw comment : List Char) : List Char := raw ++ ' ' :: '#' :: comment

section Scan
variable {raw comment : List Char}

theorem strip_commented (closed : scanned raw = .outside) :
    strip (stripComment (commented raw comment)) = strip (stripComment raw) := by
  rcases stripCommentFrom_cases .outside raw with ⟨-, same⟩ | ⟨whole, on⟩
  · exact congrArg strip (same _)
  · have kept : stripComment (commented raw comment) = raw ++ [' '] := by
      have behind : Quotation.outside.behind raw = .outside := by
        have closed : Quotation.outside.behind (stripCommentFrom .outside raw) = .outside := closed
        rwa [whole] at closed
      refine (on _).trans ?_
      rw [behind]
      rfl
    rw [kept, strip_blank_end]
    exact congrArg strip whole.symm

theorem stripComment_commented (within : scanned raw ≠ .outside) :
    ∃ quote, (quote = '"' ∨ quote = '\'') ∧ stripComment raw = raw ∧
      ∀ comment, stripComment (commented raw comment) =
        raw ++ ([' '] ++ '#' :: stripCommentFrom (.inside quote) comment) := by
  rcases stripCommentFrom_cases .outside raw with ⟨closed, -⟩ | ⟨whole, on⟩
  · exact absurd closed within
  have within : Quotation.outside.behind raw ≠ .outside := by
    have within : Quotation.outside.behind (stripCommentFrom .outside raw) ≠ .outside := within
    rwa [whole] at within
  have proper : (Quotation.outside.behind raw).Proper := Quotation.Proper.behind trivial
  have goes : ∀ comment, stripComment (commented raw comment) =
    raw ++ stripCommentFrom (Quotation.outside.behind raw) (' ' :: '#' :: comment) := fun _ => on _
  cases reached : Quotation.outside.behind raw with
  | outside => exact absurd reached within
  | inside quote =>
    rw [reached] at proper goes
    refine ⟨quote, proper, whole, fun comment => ?_⟩
    rw [goes]
    rcases proper with rfl | rfl <;> simp [stripCommentFrom, Quotation.after]
  | escaped quote =>
    rw [reached] at proper goes
    refine ⟨quote, proper, whole, fun comment => ?_⟩
    rw [goes]
    rcases proper with rfl | rfl <;> simp [stripCommentFrom, Quotation.after]

end Scan

section Lines

/-- What a line does to the definitions before it, of which the last comes first: nothing, or it
continues the last one, or it begins another. -/
inductive Adds (number : Nat) (earlier : List Definition) : List Char → List Definition → Prop where
  | blank : Adds number earlier [] earlier
  | continued {last : Definition} {before : List Definition} {rest : List Char}
      (same : earlier = last :: before) : Adds number earlier ('|' :: rest)
        ({ last with body := last.body ++ ' ' :: '|' :: rest } :: before)
  | defined {line name body : List Char} (other : line.head? ≠ some '|')
      (parts : splitDefinition? line = some (name, body)) (named : ruleName name ≠ []) :
      Adds number earlier line (⟨String.ofList (ruleName name), strip body, number⟩ :: earlier)

variable {number : Nat} {raw : List Char} {earlier definitions : List Definition}

theorem adds_of_addLine (added : addLine number raw earlier = .ok definitions) :
    Adds number earlier (strip (stripComment raw)) definitions := by
  unfold addLine at added
  dsimp only at added
  generalize strip (stripComment raw) = line at added ⊢
  split at added
  · cases added
    exact .blank
  · cases earlier with
    | nil => cases added
    | cons last before =>
      cases added
      exact .continued rfl
  · rename_i some other
    split at added
    · cases added
    · rename_i name body parts
      split at added
      · cases added
      · rename_i named
        cases added
        refine .defined ?_ parts named
        intro bar
        obtain ⟨rest, same⟩ := List.head?_eq_some_iff.mp bar
        exact other rest same

theorem addLine_of_adds (adds : Adds number earlier (strip (stripComment raw)) definitions) :
    addLine number raw earlier = .ok definitions := by
  unfold addLine
  dsimp only
  generalize strip (stripComment raw) = line at adds ⊢
  cases adds with
  | blank => rfl
  | continued same =>
    subst same
    rfl
  | @defined line name body other parts named =>
    split
    · cases parts
    · exact absurd rfl other
    · rw [parts]
      dsimp only
      split
      · rename_i none
        exact absurd none named
      · rfl

theorem addLine_ok_iff : addLine number raw earlier = .ok definitions ↔
    Adds number earlier (strip (stripComment raw)) definitions :=
  ⟨adds_of_addLine, addLine_of_adds⟩

theorem addLines_append {before after : List (List Char)} :
    addLines number earlier (before ++ after) = (addLines number earlier before).bind
      fun found => addLines (number + before.length) found.reverse after := by
  induction before generalizing number earlier with
  | nil => simp [addLines, Except.bind]
  | cons raw before ih =>
    rw [List.cons_append, addLines, addLines]
    cases addLine number raw earlier with
    | error fault => rfl
    | ok next =>
      dsimp only
      rw [ih, List.length_cons, Nat.add_assoc, Nat.add_comm 1]

theorem prefix_of_addLines {raws : List (List Char)}
    (added : addLines number earlier raws = .ok definitions) {d : Definition} (inside : d ∈ earlier) :
    ∃ e ∈ definitions, d.body <+: e.body := by
  induction raws generalizing number earlier d with
  | nil =>
    cases added
    exact ⟨d, List.mem_reverse.mpr inside, List.prefix_refl _⟩
  | cons raw raws ih =>
    rw [addLines] at added
    split at added
    · cases added
    · rename_i next step
      have adds := addLine_ok_iff.mp step
      generalize strip (stripComment raw) = line at adds
      have kept : ∃ e ∈ next, d.body <+: e.body := by
        cases adds with
        | blank => exact ⟨d, inside, List.prefix_refl _⟩
        | @continued last before rest same =>
          subst same
          rcases List.mem_cons.mp inside with rfl | behind
          · exact ⟨_, List.mem_cons_self, List.prefix_append _ _⟩
          · exact ⟨d, List.mem_cons_of_mem _ behind, List.prefix_refl _⟩
        | defined => exact ⟨d, List.mem_cons_of_mem _ inside, List.prefix_refl _⟩
      obtain ⟨e, there, first⟩ := kept
      obtain ⟨last, among, later⟩ := ih added there
      exact ⟨last, among, first.trans later⟩

theorem splitDefinition?_eq_some {line name body : List Char}
    (parts : splitDefinition? line = some (name, body)) :
    line = name ++ ([':', ':', '='] ++ body) := by
  fun_induction splitDefinition? line generalizing name with
  | case1 rest =>
    cases parts
    rfl
  | case2 => cases parts
  | case3 c rest other ih =>
    obtain ⟨⟨first, last⟩, found, same⟩ := Option.map_eq_some_iff.mp parts
    obtain ⟨rfl, rfl⟩ := Prod.mk.inj same
    rw [ih found]
    rfl

theorem splitDefinition?_more {line name body : List Char}
    (parts : splitDefinition? line = some (name, body)) (more : List Char) :
    splitDefinition? (line ++ more) = some (name, body ++ more) := by
  fun_induction splitDefinition? line generalizing name with
  | case1 rest =>
    cases parts
    rfl
  | case2 => cases parts
  | case3 c rest other ih =>
    obtain ⟨⟨first, last⟩, found, same⟩ := Option.map_eq_some_iff.mp parts
    obtain ⟨rfl, rfl⟩ := Prod.mk.inj same
    rw [List.cons_append, splitDefinition?_cons, ih found]
    · rfl
    · rintro after rfl begins
      have whole := splitDefinition?_eq_some found
      rcases first with _ | ⟨d, _ | ⟨e, first⟩⟩
      · rw [whole] at begins
        cases begins
      · rw [whole] at begins
        cases begins
      · rw [whole] at begins
        obtain ⟨rfl, rfl, -⟩ : d = ':' ∧ e = '=' ∧ _ := by simpa using begins
        exact other _ rfl whole

theorem Adds.sharp {line blanks rest : List Char} (adds : Adds number earlier line definitions)
    (some : line ≠ []) (blank : ∀ c ∈ blanks, isBlank c = true)
    (trimmed : rest.rdropWhile isBlank = rest) :
    ∃ d before blanks', definitions = d :: before ∧ (∀ c ∈ blanks', isBlank c = true) ∧
      Adds number earlier (line ++ (blanks ++ '#' :: rest))
        ({ d with body := d.body ++ (blanks' ++ '#' :: rest) } :: before) := by
  cases adds with
  | blank => exact absurd rfl some
  | @continued last before more same =>
    refine ⟨_, before, blanks, rfl, blank, ?_⟩
    have longer := @Adds.continued number earlier last before (more ++ (blanks ++ '#' :: rest)) same
    simpa using longer
  | @defined line name body other parts named =>
    obtain ⟨blanks', blank', whole⟩ := @strip_sharp body rest blanks blank
    rw [trimmed] at whole
    refine ⟨_, earlier, blanks', rfl, blank', ?_⟩
    have first : (line ++ (blanks ++ '#' :: rest)).head? ≠ .some '|' := by
      rwa [List.head?_append_of_ne_nil _ some]
    have longer := @Adds.defined number earlier _ _ _ first (splitDefinition?_more parts _) named
    rwa [whole] at longer

end Lines

def lastPlace : List Definition → Place
  | [] => .between
  | d :: _ => Place.between.behind d.body

/-- Where the body that has been read stands at the end of some lines. -/
def endPlace (raws : List (List Char)) : Place :=
  match addLines 1 [] raws with
  | .ok definitions => lastPlace definitions.reverse
  | .error _ => .between

/-- No quote stands in the name of a rule or of a reference on a line, and the line does not go on
with a quoted text. -/
def NamesBare (start : Place) : List Char → Prop
  | '|' :: rest => start.isQuoted = false ∧ start.Bare ('|' :: rest)
  | line => ∀ name body, splitDefinition? line = some (name, body) →
      (∀ c ∈ name, isQuote c = false) ∧ Place.between.Bare body

def quotationOf : Place → Quotation
  | .between | .name => .outside
  | .quoted quote => .inside quote
  | .escaped quote => .escaped quote

section Places
variable {place : Place} {cs : List Char} {c : Char}

theorem quotationOf_after (bare : ¬ (place = .name ∧ isQuote c = true)) :
    quotationOf (place.after c) = (quotationOf place).after c := by
  have either : isQuote c = true ↔ c = '"' ∨ c = '\'' := by simp [isQuote]
  cases place with
  | between =>
    by_cases quote : isQuote c = true
    · simp [Place.after, quotationOf, Quotation.after, quote, either.mp quote]
    · have plain := eq_false_of_ne_true quote
      rw [show quotationOf .between = .outside from rfl, Quotation.after_outside plain]
      by_cases opens : c = '<'
      · subst opens
        rfl
      · simp [Place.after, quotationOf, plain, opens]
  | name =>
    have plain : isQuote c = false := eq_false_of_ne_true fun quote => bare ⟨rfl, quote⟩
    rw [show quotationOf .name = .outside from rfl, Quotation.after_outside plain]
    by_cases closes : c = '>' <;> simp [Place.after, quotationOf, closes]
  | quoted quote =>
    by_cases slash : c = '\\'
    · simp [Place.after, quotationOf, Quotation.after, slash]
    · by_cases closes : c = quote
      · subst closes
        simp [Place.after, quotationOf, Quotation.after, slash]
      · simp [Place.after, quotationOf, Quotation.after, slash, closes]
  | escaped quote => rfl

/-- Where no quote stands in a name, the scan of a line follows the reading of the body. -/
theorem quotationOf_behind (bare : place.Bare cs) :
    quotationOf (place.behind cs) = (quotationOf place).behind cs := by
  induction cs generalizing place with
  | nil => rfl
  | cons c cs ih =>
    obtain ⟨here, later⟩ := bare
    rw [Place.behind_cons, ih later, quotationOf_after here]
    rfl

theorem quotationOf_unquoted (unquoted : place.isQuoted = false) : quotationOf place = .outside := by
  cases place with
  | between => rfl
  | name => rfl
  | quoted quote => cases unquoted
  | escaped quote => cases unquoted

end Places

section Agreement
variable {number : Nat} {raw : List Char} {earlier definitions : List Definition}

theorem lastPlace_defined {name body : List Char} (unquoted : (lastPlace
    (⟨String.ofList (ruleName name), strip body, number⟩ :: earlier)).isQuoted = false) :
    lastPlace (⟨String.ofList (ruleName name), strip body, number⟩ :: earlier) =
      Place.between.behind body := by
  obtain ⟨lead, trail, front, back, whole⟩ := exists_strip body
  have unquoted : (Place.between.behind (strip body)).isQuoted = false := unquoted
  conv_rhs => rw [whole]
  rw [Place.behind_append, Place.behind_blanks front rfl, Place.behind_append,
    Place.behind_blanks back unquoted]
  rfl

/-- Where the end of a line is outside of quotes for the body, and all names on it are free of
quotes, the scan of the line ends outside of quotes. -/
theorem scanned_of_adds (adds : Adds number earlier (strip (stripComment raw)) definitions)
    (unquoted : (lastPlace definitions).isQuoted = false)
    (bare : NamesBare (lastPlace earlier) (strip (stripComment raw))) : scanned raw = .outside := by
  obtain ⟨lead, trail, front, back, whole⟩ := exists_strip (stripComment raw)
  suffices content : Quotation.outside.behind (strip (stripComment raw)) = .outside by
    rw [scanned, whole, Quotation.behind_append, Quotation.behind_blanks front,
      Quotation.behind_append, content, Quotation.behind_blanks back]
  generalize strip (stripComment raw) = line at adds bare
  cases adds with
  | blank => rfl
  | @continued last before rest same =>
    subst same
    have open_ : (Place.between.behind last.body).isQuoted = false := bare.1
    have bare : (Place.between.behind last.body).Bare ('|' :: rest) := bare.2
    have place : lastPlace ({ last with body := last.body ++ ' ' :: '|' :: rest } :: before) =
        (Place.between.behind last.body).behind ('|' :: rest) := by
      rw [lastPlace, Place.behind_append, Place.behind_cons, Place.after_blank (by decide) open_]
    rw [place] at unquoted
    have follows := quotationOf_behind bare
    rw [quotationOf_unquoted unquoted, quotationOf_unquoted open_] at follows
    exact follows.symm
  | @defined line name body other parts named =>
    have bare : (∀ c ∈ name, isQuote c = false) ∧ Place.between.Bare body := by
      unfold NamesBare at bare
      split at bare
      · exact absurd rfl other
      · exact bare name body parts
    rw [lastPlace_defined unquoted] at unquoted
    have follows := quotationOf_behind bare.2
    rw [quotationOf_unquoted unquoted] at follows
    rw [splitDefinition?_eq_some parts, Quotation.behind_append, Quotation.behind_outside bare.1,
      Quotation.behind_append]
    exact follows.symm

end Agreement

theorem notMem_of_lines {cs : List Char} : ∀ line ∈ lines cs, '\n' ∉ line := by
  induction cs with
  | nil => simp [lines]
  | cons c cs ih =>
    rw [lines]
    split
    · exact List.forall_mem_cons.mpr ⟨List.not_mem_nil, ih⟩
    · rename_i other
      split
      · exact List.forall_mem_singleton.mpr (by simpa using Ne.symm other)
      · rename_i first more found
        rw [found] at ih
        obtain ⟨here, later⟩ := List.forall_mem_cons.mp ih
        exact List.forall_mem_cons.mpr ⟨by simp [here, Ne.symm other], later⟩

theorem parse_congr {text other : String}
    (same : definitions? text.toList = definitions? other.toList) : parse text = parse other := by
  unfold parse
  rw [same]

/-- The lines of a text, of which one ends with a comment. -/
def withComment (before : List (List Char)) (raw comment : List Char) (after : List (List Char)) :
    String := String.ofList (['\n'].intercalate (before ++ commented raw comment :: after))

section Texts
variable {text : String} {before after : List (List Char)} {raw comment : List Char}

theorem definitions?_withComment (split : lines text.toList = before ++ raw :: after)
    (single : '\n' ∉ comment) : definitions? (withComment before raw comment after).toList =
      addLines 1 [] (before ++ commented raw comment :: after) := by
  have each := @notMem_of_lines text.toList
  rw [split] at each
  rw [definitions?, withComment, String.toList_ofList, lines_intercalate (by simp)]
  intro line inside
  rcases List.mem_append.mp inside with early | late
  · exact each line (List.mem_append_left _ early)
  · rcases List.mem_cons.mp late with rfl | later
    · have own := each raw (List.mem_append_right _ List.mem_cons_self)
      simp [commented, own, single]
    · exact each line (List.mem_append_right _ (List.mem_cons_of_mem _ later))

theorem exists_adds {definitions : List Definition} (split : lines text.toList = before ++ raw :: after)
    (found : definitions? text.toList = .ok definitions) :
    ∃ earlier next, addLines 1 [] before = .ok earlier ∧
      Adds (1 + before.length) earlier.reverse (strip (stripComment raw)) next ∧
      addLines (1 + before.length + 1) next after = .ok definitions ∧
      endPlace before = lastPlace earlier.reverse ∧ endPlace (before ++ [raw]) = lastPlace next := by
  rw [definitions?, split, addLines_append] at found
  cases read : addLines 1 [] before with
  | error fault =>
    rw [read] at found
    cases found
  | ok earlier =>
    rw [read] at found
    change addLines (1 + before.length) earlier.reverse (raw :: after) = .ok definitions at found
    rw [addLines] at found
    cases step : addLine (1 + before.length) raw earlier.reverse with
    | error fault =>
      rw [step] at found
      cases found
    | ok next =>
      rw [step] at found
      refine ⟨earlier, next, rfl, addLine_ok_iff.mp step, found, ?_, ?_⟩
      · rw [endPlace, read]
      · have whole : addLines 1 [] (before ++ [raw]) = .ok next.reverse := by
          rw [addLines_append, read]
          change addLines (1 + before.length) earlier.reverse [raw] = .ok next.reverse
          rw [addLines, step]
          rfl
        rw [endPlace, whole]
        exact congrArg lastPlace next.reverse_reverse

theorem parse_withComment (split : lines text.toList = before ++ raw :: after)
    (single : '\n' ∉ comment) (closed : scanned raw = .outside) :
    parse (withComment before raw comment after) = parse text := by
  refine parse_congr ?_
  have step : ∀ number earlier,
      addLine number (commented raw comment) earlier = addLine number raw earlier := by
    intro number earlier
    unfold addLine
    rw [strip_commented closed]
  rw [definitions?_withComment split single, definitions?, split, addLines_append, addLines_append]
  cases addLines 1 [] before with
  | error fault => rfl
  | ok earlier =>
    change addLines _ _ (commented raw comment :: after) = addLines _ _ (raw :: after)
    rw [addLines, addLines, step]

theorem strip_ne_nil_of_scanned (within : scanned raw ≠ .outside) (whole : stripComment raw = raw) :
    strip raw ≠ [] := by
  intro nothing
  obtain ⟨lead, trail, front, back, parts⟩ := exists_strip raw
  refine within ?_
  rw [scanned, whole, parts, nothing, Quotation.behind_append, Quotation.behind_blanks front]
  exact Quotation.behind_blanks back

/-- A comment that is read between two elements, or that first closes a name, is refused with the
body that it is read in. -/
theorem refused_withComment (split : lines text.toList = before ++ raw :: after)
    (accepted : (parse text).outcome = .ok ()) (single : '\n' ∉ comment)
    (within : scanned raw ≠ .outside)
    (standing : endPlace (before ++ [raw]) = .between ∨
      endPlace (before ++ [raw]) = .name ∧ comment = ['>', '#']) :
    (parse (withComment before raw comment after)).outcome ≠ .ok () := by
  intro again
  obtain ⟨definitions, found, -⟩ := parse_ok_iff_bodies.mp accepted
  obtain ⟨earlier, next, read, adds, -, -, place⟩ := exists_adds split found
  obtain ⟨quote, either, whole, kept⟩ := stripComment_commented within
  have some := strip_ne_nil_of_scanned within whole
  rw [whole] at adds
  obtain ⟨blanks, blank, content⟩ := @strip_sharp raw (stripCommentFrom (.inside quote) comment) [' ']
    (List.forall_mem_singleton.mpr (by decide))
  rw [← kept comment] at content
  obtain ⟨d, others, blanks', rfl, blank', longer⟩ :=
    adds.sharp some blank (List.rdropWhile_idempotent _ _)
  rw [← content] at longer
  have step := addLine_ok_iff.mpr longer
  obtain ⟨definitions', found', bodies⟩ := parse_ok_iff_bodies.mp again
  rw [definitions?_withComment split single, addLines_append, read] at found'
  change addLines (1 + before.length) earlier.reverse (commented raw comment :: after) = _ at found'
  rw [addLines, step] at found'
  obtain ⟨e, inside, rest, goes⟩ := prefix_of_addLines found' List.mem_cons_self
  obtain ⟨body, spells⟩ := bodies e inside
  have clear := spells.leads.clear
  rw [← goes, Place.clear_append, Place.clear_append, Place.clear_append] at clear
  obtain ⟨⟨-, -, sharp⟩, -⟩ := clear
  have here : Place.between.behind d.body = endPlace (before ++ [raw]) := place.symm
  rw [here] at sharp
  rcases standing with between | ⟨name, rfl⟩
  · rw [between, Place.behind_blanks blank' rfl] at sharp
    exact sharp.1 ⟨rfl, rfl⟩
  · have same : (stripCommentFrom (.inside quote) ['>', '#']).rdropWhile isBlank = ['>', '#'] := by
      rcases either with rfl | rfl <;> decide
    rw [name, Place.behind_blanks blank' rfl, same] at sharp
    exact sharp.2.2.1 ⟨rfl, rfl⟩

end Texts

/-- A comment can be put at the end of a line, where this is outside of quotes for the body, without
any change just where the scan of the line alone ends outside of quotes too. Elsewhere a text that was
accepted is refused with every comment if the line ends between two elements, and with some comment if
it ends in a name. The two agree on every line on which no quote stands in a name and which does not
begin inside of quotes. -/
theorem comments_transparent {text : String} {before after : List (List Char)} {raw : List Char}
    (split : lines text.toList = before ++ raw :: after)
    (accepted : (parse text).outcome = .ok ())
    (unquoted : (endPlace (before ++ [raw])).isQuoted = false) :
    ((∀ comment, '\n' ∉ comment → parse (withComment before raw comment after) = parse text) ↔
      scanned raw = .outside) ∧
    (scanned raw ≠ .outside → endPlace (before ++ [raw]) = .between → ∀ comment, '\n' ∉ comment →
      (parse (withComment before raw comment after)).outcome ≠ .ok ()) ∧
    (NamesBare (endPlace before) (strip (stripComment raw)) → ∀ comment, '\n' ∉ comment →
      parse (withComment before raw comment after) = parse text) := by
  refine ⟨⟨fun transparent => ?_, fun closed comment single => ?_⟩, fun within between => ?_,
    fun bare comment single => ?_⟩
  · by_contra within
    have altered : ∃ comment, '\n' ∉ comment ∧
        (parse (withComment before raw comment after)).outcome ≠ .ok () := by
      cases place : endPlace (before ++ [raw]) with
      | between => exact ⟨[], List.not_mem_nil,
          refused_withComment split accepted List.not_mem_nil within (.inl place)⟩
      | name => exact ⟨['>', '#'], by decide,
          refused_withComment split accepted (by decide) within (.inr ⟨place, rfl⟩)⟩
      | quoted quote =>
        rw [place] at unquoted
        cases unquoted
      | escaped quote =>
        rw [place] at unquoted
        cases unquoted
    obtain ⟨comment, single, refused⟩ := altered
    exact refused (by rw [transparent comment single, accepted])
  · exact parse_withComment split single closed
  · exact fun comment single => refused_withComment split accepted single within (.inl between)
  · obtain ⟨definitions, found, -⟩ := parse_ok_iff_bodies.mp accepted
    obtain ⟨earlier, next, -, adds, -, start, last⟩ := exists_adds split found
    rw [start] at bare
    rw [last] at unquoted
    exact parse_withComment split single (scanned_of_adds adds unquoted bare)

/-- A number sign and an escaped quote in quotes, and a comment that holds a quote. -/
def signText : String := "<a> ::= \"#\" # it's\n| 'it\\'s #' <b>\n<b> ::= ()"

theorem comments_transparent_sign : (parse signText).outcome = .ok () ∧
    ∀ comment, '\n' ∉ comment →
      parse (withComment ["<a> ::= \"#\" # it's".toList] "| 'it\\'s #' <b>".toList comment
        ["<b> ::= ()".toList]) = parse signText := by
  have accepted : (parse signText).outcome = .ok () := eq_ok_of_toOption (by decide +kernel)
  have split : lines signText.toList = ["<a> ::= \"#\" # it's".toList] ++
      "| 'it\\'s #' <b>".toList :: ["<b> ::= ()".toList] := by decide +kernel
  exact ⟨accepted, (comments_transparent split accepted (by decide +kernel)).1.mpr
    (by decide +kernel)⟩

/-- A quote in the name of a rule, and a quoted text that goes on over a line, hide a comment. -/
theorem comments_read :
    ((parse "<it's> ::= \"x\"").outcome = .ok () ∧ endPlace ["<it's> ::= \"x\"".toList] = .between ∧
      (parse (withComment [] "<it's> ::= \"x\"".toList "c".toList [])).outcome ≠ .ok ()) ∧
    ((parse "<a> ::= \"x\n| y\"").outcome = .ok () ∧
      endPlace ["<a> ::= \"x".toList, "| y\"".toList] = .between ∧
      (parse (withComment ["<a> ::= \"x".toList] "| y\"".toList "c".toList [])).outcome ≠ .ok ()) := by
  have refused : ∀ {text}, (parse text).outcome.toOption = none → (parse text).outcome ≠ .ok () := by
    intro text none same
    rw [same] at none
    cases none
  refine ⟨⟨eq_ok_of_toOption ?_, ?_, refused ?_⟩, ⟨eq_ok_of_toOption ?_, ?_, refused ?_⟩⟩ <;>
    decide +kernel

end GrammarSampler.GrammarText
