import GrammarSampler.Proofs.Ebnf.Faults
import GrammarSampler.Proofs.Ebnf.Standing
import GrammarSampler.Proofs.GrammarText.Language

/-!
Which grammar texts are accepted. A rule body is read just when it is written as the syntax says, and
then wholly; every other one is refused as not well formed, with its line and with what stands where
no body goes on. So a text is parsed or refused as not well formed, and nothing else happens.
-/
namespace GrammarSampler.GrammarText
open Ebnf

section Lines

theorem line_of_addLine {number : Nat} {raw : List Char} {earlier definitions : List Definition}
    (added : addLine number raw earlier = .ok definitions) {d : Definition} (inside : d ∈ definitions) :
    d.line = number ∨ ∃ e ∈ earlier, d.line = e.line := by
  unfold addLine at added
  simp only at added
  split at added
  · cases added
    exact .inr ⟨d, inside, rfl⟩
  · split at added
    · rename_i continued
      cases added
      cases earlier with
      | nil => cases continued
      | cons last earlier =>
        cases continued
        rcases List.mem_cons.mp inside with rfl | before
        · exact .inr ⟨last, List.mem_cons_self, rfl⟩
        · exact .inr ⟨d, List.mem_cons_of_mem _ before, rfl⟩
    · cases added
  · split at added
    · cases added
    · split at added
      · cases added
      · cases added
        rcases List.mem_cons.mp inside with rfl | before
        · exact .inl rfl
        · exact .inr ⟨d, before, rfl⟩

theorem line_of_addLines {number : Nat} {raws : List (List Char)}
    {earlier definitions : List Definition}
    (before : ∀ d ∈ earlier, 1 ≤ d.line ∧ d.line < number)
    (added : addLines number earlier raws = .ok definitions) (first : 1 ≤ number) :
    ∀ d ∈ definitions, 1 ≤ d.line ∧ d.line < number + raws.length := by
  induction raws generalizing number earlier with
  | nil =>
    cases added
    intro d inside
    exact before d (List.mem_reverse.mp inside)
  | cons raw raws ih =>
    rw [addLines] at added
    split at added
    · cases added
    · rename_i next step
      have within : ∀ d ∈ next, 1 ≤ d.line ∧ d.line < number + 1 := by
        intro d inside
        rcases line_of_addLine step inside with own | ⟨e, among, same⟩
        · omega
        · have bounds := before e among
          omega
      intro d inside
      have bounds := ih within added (by omega) d inside
      rw [List.length_cons]
      omega

theorem error_of_addLines {number : Nat} {raws : List (List Char)} {earlier : List Definition}
    {fault : FormFault} (failed : addLines number earlier raws = .error fault) :
    ∃ line why, fault = .line line why ∧ number ≤ line ∧ line < number + raws.length := by
  induction raws generalizing number earlier with
  | nil => cases failed
  | cons raw raws ih =>
    rw [addLines] at failed
    rw [List.length_cons]
    split at failed
    · rename_i why refused
      cases failed
      exact ⟨number, why, rfl, le_rfl, by omega⟩
    · obtain ⟨line, why, same, low, high⟩ := ih failed
      exact ⟨line, why, same, by omega, by omega⟩

end Lines

section Bodies
variable {d : Definition} {l : Lowering} {fault : FormFault}

theorem tells_of_define (refused : (define d l).1 = .error fault) :
    ∃ why, fault = .line d.line why ∧ why.Tells d.body := by
  cases read : Ebnf.read d.body with
  | failed why complete =>
    rw [define_of_failed read] at refused
    cases refused
    exact ⟨why, rfl, tells_read read⟩
  | done body rest =>
    rw [(define_of_done read).2] at refused
    cases refused

theorem define_ok_iff : (define d l).1 = .ok () ↔ ∃ body, SpellsBody d.body body := by
  constructor
  · intro accepted
    obtain ⟨body, spells, -⟩ := exists_of_define (Prod.ext accepted rfl)
    exact ⟨body, spells⟩
  · rintro ⟨body, spells⟩
    rw [define_of_spells spells]

theorem define_stands {body : Body} (spells : SpellsBody d.body body) :
    ∃ (made : Lowering) (lowered : List (List Symbol)),
      BodyStands made.rules l.taken body lowered ∧ define d l =
        (.ok (), { made with rules := made.rules.extend d.name (lowered.map .unweighted) }) :=
  ⟨_, _, stands_lowerBody d.name l body (List.Subset.refl _) (fun _ _ _ => rfl),
    define_of_spells spells⟩

theorem tells_of_defineAll {definitions : List Definition} {notices : List Notice}
    (refused : (defineAll l notices definitions).1 = .error fault) :
    ∃ d ∈ definitions, ∃ why, fault = .line d.line why ∧ why.Tells d.body := by
  induction definitions generalizing l notices with
  | nil => cases refused
  | cons d rest ih =>
    rw [defineAll] at refused
    split at refused
    · rename_i why l' failed
      cases refused
      exact ⟨d, List.mem_cons_self, tells_of_define (congrArg Prod.fst failed)⟩
    · obtain ⟨other, inside, tells⟩ := ih refused
      exact ⟨other, List.mem_cons_of_mem d inside, tells⟩

end Bodies

theorem position_of_readElement {text before cs rest : List Char} {c : Char} {fuel : Nat}
    {item : Item} (parts : text = before ++ c :: cs)
    (read : readElement text.length fuel c cs = .done item rest) :
    before.length < text.length - rest.length ∧ text.length - rest.length ≤ text.length ∧
      text.drop (text.length - rest.length) = rest := by
  obtain ⟨here, whole, spells⟩ := spellsElement_of_readElement text.length fuel c cs item rest read
  have total : text.length = before.length + here.length + rest.length := by
    rw [parts, whole, List.length_append, List.length_append, Nat.add_assoc]
  obtain ⟨first, more, rfl, -⟩ := spells.exists_cons
  rw [List.length_cons] at total
  refine ⟨by omega, by omega, ?_⟩
  have position : text.length - rest.length = (before ++ first :: more).length := by
    rw [List.length_append, List.length_cons]
    omega
  rw [position, parts, whole, ← List.append_assoc]
  simp

section Texts
variable {text : String}

theorem parse_ok_iff_bodies : (parse text).outcome = .ok () ↔
    ∃ definitions, definitions? text.toList = .ok definitions ∧
      ∀ d ∈ definitions, ∃ body, SpellsBody d.body body := by
  cases found : definitions? text.toList with
  | ok definitions => simp [parse_ok_iff found]
  | error fault =>
    unfold parse
    rw [found]
    constructor
    · intro accepted
      cases accepted
    · rintro ⟨_, none, -⟩
      cases none

theorem line_of_parse {fault : FormFault} (refused : (parse text).outcome = .error fault) :
    ∃ line why, fault = .line line why ∧ 1 ≤ line ∧ line ≤ (lines text.toList).length := by
  cases found : definitions? text.toList with
  | error other =>
    unfold parse at refused
    rw [found] at refused
    cases refused
    obtain ⟨line, why, same, low, high⟩ := error_of_addLines found
    exact ⟨line, why, same, low, by omega⟩
  | ok definitions =>
    rw [(parse_eq found).1] at refused
    obtain ⟨d, inside, why, same, -⟩ := tells_of_defineAll refused
    have bounds := line_of_addLines (by simp) found le_rfl d inside
    exact ⟨d.line, why, same, by omega, by omega⟩

theorem report_outcome : (parse text).report.outcome = .ok (parse text) ∨
    ∃ line why, 1 ≤ line ∧ line ≤ (lines text.toList).length ∧
      (parse text).report.outcome = .error (.grammar (.form (.line line why))) := by
  unfold Parse.report
  cases outcome : (parse text).outcome with
  | ok _ => exact .inl rfl
  | error fault =>
    obtain ⟨line, why, rfl, low, high⟩ := line_of_parse outcome
    exact .inr ⟨line, why, low, high, rfl⟩

end Texts

/-- A rule body is accepted just when it is written as the syntax says. It then gives its name one
alternative for each of its own, and is read to its end; else it is refused with its line and a fault
that tells what stands there. What is left behind an element begins after its first character, and
more fuel reads no more. So every text is parsed or refused as not well formed at one of its lines. -/
theorem accepts_bodies (d : Definition) (l : Lowering) (text : String) :
    (((define d l).1 = .ok () ↔ ∃ body, SpellsBody d.body body) ∧
      (∀ body, SpellsBody d.body body →
        ∃ (made : Lowering) (lowered : List (List Symbol)),
          BodyStands made.rules l.taken body lowered ∧ define d l =
            (.ok (), { made with rules := made.rules.extend d.name (lowered.map .unweighted) })) ∧
      ∀ fault, (define d l).1 = .error fault →
        ∃ why, fault = .line d.line why ∧ why.Tells d.body) ∧
    ((∀ body rest, read d.body = .done body rest → rest = []) ∧
      (∀ before c cs fuel item rest, d.body = before ++ c :: cs →
        readElement d.body.length fuel c cs = .done item rest →
          before.length < d.body.length - rest.length ∧
            d.body.length - rest.length ≤ d.body.length ∧
              d.body.drop (d.body.length - rest.length) = rest) ∧
      ∀ fuel, 2 * d.body.length + 1 ≤ fuel →
        readBody d.body.length none fuel ⟨[], []⟩ d.body = read d.body) ∧
    ((parse text).outcome = .ok () ↔
      ∃ definitions, definitions? text.toList = .ok definitions ∧
        ∀ d ∈ definitions, ∃ body, SpellsBody d.body body) ∧
    ((parse text).report.outcome = .ok (parse text) ∨
      ∃ line why, 1 ≤ line ∧ line ≤ (lines text.toList).length ∧
        (parse text).report.outcome = .error (.grammar (.form (.line line why)))) := by
  refine ⟨⟨define_ok_iff, fun body spells => define_stands spells, fun fault => tells_of_define⟩,
    ⟨?_, ?_, ?_⟩, parse_ok_iff_bodies, report_outcome⟩
  · intro body rest done
    exact (read_eq_done_iff.mp done).1
  · intro before c cs fuel item rest parts done
    exact position_of_readElement parts done
  · intro fuel enough
    exact readBody_fuel d.body.length fuel _ none ⟨[], []⟩ d.body enough (by omega)

/-- A sign goes with an element only if it follows at once. -/
example : (define ⟨"a", "<b> ?".toList, 1⟩ ⟨["a"], []⟩).1 =
    .error (.line 1 (.unexpected '?' 4)) := by rfl

end GrammarSampler.GrammarText
