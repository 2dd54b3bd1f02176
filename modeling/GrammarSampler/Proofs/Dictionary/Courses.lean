import GrammarSampler.Proofs.Dictionary.Language
import GrammarSampler.Proofs.Dictionary.Matches
import GrammarSampler.Proofs.Faults

/-!
How an accepted conversion went, without the bounds of its searches: the matches that were replaced in
a text, the alternatives that a rule got, and the rules that were made in a round. What a conversion
keeps and leaves is shown by induction on these courses.
-/
namespace GrammarSampler.Dictionary
open Ebnf (Times)

inductive Lifts (hint : String) : List Char → Flattening → List Char → Flattening → Prop where
  | done {text : List Char} {f : Flattening} (none : findGroup? text = none) : Lifts hint text f text f
  | group {text plain : List Char} {f f' : Flattening} {m : Match}
      (leftmost : findGroup? text = some m)
      (later : Lifts hint (m.before ++ bracketed (Fresh.name f.taken hint) ++ m.sign :: m.after)
        (f.postpone hint m.inner) plain f') : Lifts hint text f plain f'

inductive Settles (hint : String) : List Char → Flattening → List Char → Flattening → Prop where
  | done {text : List Char} {f : Flattening} (none : findSignedName? text = none) :
      Settles hint text f text f
  | sign {text bare : List Char} {f f' : Flattening} {m : Match} {times : Times}
      (leftmost : findSignedName? text = some m) (sign : Times.ofChar? m.sign = some times)
      (later : Settles hint (m.before ++ bracketed (Fresh.name f.taken hint) ++ m.after)
        (f.settle hint (String.ofList m.inner) times) bare f') : Settles hint text f bare f'

inductive Flattens (hint : String) : List (List Char × Option Number) → Flattening →
    List Expansion → Flattening → Prop where
  | nil (f : Flattening) : Flattens hint [] f [] f
  | cons {item : List Char × Option Number} {items : List (List Char × Option Number)}
      {symbols : List Symbol} {expansions : List Expansion} {f f₁ f' : Flattening}
      (text : flatten? hint item.1 f = .ok (symbols, f₁))
      (later : Flattens hint items f₁ expansions f') :
      Flattens hint (item :: items) f (⟨symbols, item.2⟩ :: expansions) f'

inductive Makes : List Pending → Flattening → Flattening → Prop where
  | nil (f : Flattening) : Makes [] f f
  | cons {p : Pending} {queue : List Pending} {expansions : List Expansion} {f f₁ f' : Flattening}
      (rule : Flattens p.name p.alternatives f expansions f₁)
      (later : Makes queue { f₁ with rules := f₁.rules.extend p.name expansions } f') :
      Makes (p :: queue) f f'

section Courses
variable {hint : String} {text text' : List Char} {f f' : Flattening} {fuel : Nat}

theorem lifts_of_flattenGroups (run : flattenGroups hint fuel text f = some (text', f')) :
    Lifts hint text f text' f' := by
  induction fuel generalizing text f with
  | zero => cases run
  | succ fuel ih =>
    rw [flattenGroups] at run
    split at run
    · rename_i none
      cases run
      exact .done none
    · rename_i m leftmost
      exact .group leftmost (ih run)

theorem settles_of_flattenSigns (run : flattenSigns hint fuel text f = some (text', f')) :
    Settles hint text f text' f' := by
  induction fuel generalizing text f with
  | zero => cases run
  | succ fuel ih =>
    rw [flattenSigns] at run
    split at run
    · rename_i none
      cases run
      exact .done none
    · rename_i m leftmost
      obtain ⟨times, sign⟩ := Option.isSome_iff_exists.mp (findSignedName?_eq_some leftmost).sign
      rw [sign] at run
      exact .sign leftmost sign (ih run)

theorem exists_of_flatten? {symbols : List Symbol} (run : flatten? hint text f = .ok (symbols, f')) :
    ∃ plain f₁ bare, Lifts hint text f plain f₁ ∧ Settles hint plain f₁ bare f' ∧
      symbols = tokens bare := by
  unfold flatten? at run
  split at run
  · cases run
  · rename_i plain f₁ grouped
    split at run
    · cases run
    · rename_i bare f₂ signed
      cases run
      exact ⟨plain, f₁, bare, lifts_of_flattenGroups grouped, settles_of_flattenSigns signed, rfl⟩

theorem eq_of_ofDraft {symbols : List Symbol} {weight : Option Number} {e : Expansion}
    (run : Expansion.ofDraft (symbols.map .symbol) weight = .ok e) : e = ⟨symbols, weight⟩ := by
  unfold Expansion.ofDraft at run
  rw [symbols?_map] at run
  cases weight with
  | none =>
    cases run
    rfl
  | some n =>
    change (if n.isPositive then _ else _) = _ at run
    split at run
    · cases run
      rfl
    · cases run

theorem flattens_of_flattenAlternatives {items : List (List Char × Option Number)}
    {expansions : List Expansion} (run : flattenAlternatives hint f items = .ok (expansions, f')) :
    Flattens hint items f expansions f' := by
  induction items generalizing f expansions with
  | nil =>
    cases run
    exact .nil _
  | cons item rest ih =>
    rw [flattenAlternatives] at run
    obtain ⟨⟨symbols, f₁⟩, one, run⟩ := bind_eq_ok_iff.mp run
    obtain ⟨e, drafted, run⟩ := bind_eq_ok_iff.mp run
    obtain ⟨⟨more, f₂⟩, others, run⟩ := bind_eq_ok_iff.mp run
    cases run
    obtain rfl := eq_of_ofDraft drafted
    exact .cons one (ih others)

theorem Flattens.weights {items : List (List Char × Option Number)} {expansions : List Expansion}
    (flattens : Flattens hint items f expansions f') :
    List.Forall₂ (fun item e => e.weight = item.2) items expansions := by
  induction flattens with
  | nil => exact .nil
  | cons _ _ ih => exact .cons rfl ih

theorem makes_of_foldlM {queue : List Pending} (run : queue.foldlM flattenRule f = .ok f') :
    Makes queue f f' := by
  induction queue generalizing f with
  | nil =>
    cases run
    exact .nil _
  | cons p rest ih =>
    rw [List.foldlM_cons] at run
    obtain ⟨f₂, one, run⟩ := bind_eq_ok_iff.mp run
    obtain ⟨⟨expansions, f₁⟩, converted, made⟩ := bind_eq_ok_iff.mp one
    cases made
    exact .cons (flattens_of_flattenAlternatives converted) (ih run)

theorem exists_of_drain (run : drain rounds f = .ok f') :
    ∃ f₁, Makes f.queue { f with queue := [] } f₁ ∧ Makes f₁.queue { f₁ with queue := [] } f' ∧
      f'.queue = [] := by
  rw [rounds, drain_succ] at run
  obtain ⟨f₁, first, run⟩ := bind_eq_ok_iff.mp run
  rw [drain_succ] at run
  obtain ⟨f₂, second, run⟩ := bind_eq_ok_iff.mp run
  rw [drain] at run
  split at run
  · rename_i empty
    cases run
    exact ⟨f₁, makes_of_foldlM first, makes_of_foldlM second, List.isEmpty_iff.mp empty⟩
  · cases run

end Courses
end GrammarSampler.Dictionary
