import GrammarSampler.Proofs.Dictionary.Hygiene
import GrammarSampler.Proofs.Ebnf.Keeping

/-!
Which symbols stand for a text of a dictionary, whatever the text is. Groups and then operators are
replaced by names that no one has given, and the rule of each such name is the one of what it replaces.
-/
namespace GrammarSampler.Dictionary
open Ebnf (Times Tidy)

section Standing
variable (rules : Rules) (given : List String)

/-- The leftmost name with an operator is replaced until there is none. -/
inductive Bared : List Char → List Char → Prop where
  | done {text : List Char} (none : findSignedName? text = none) : Bared text text
  | sign {text bare : List Char} {m : Match} {times : Times} {name : String}
      (leftmost : findSignedName? text = some m) (sign : Times.ofChar? m.sign = some times)
      (new : name ∉ given)
      (rule : rules.get? name = some (times.expansions name [.nonterminal (String.ofList m.inner)]))
      (tail : Bared (m.before ++ bracketed name ++ m.after) bare) : Bared text bare

mutual
/-- The leftmost group before an operator is replaced until there is none. -/
inductive Ungrouped : List Char → List Char → Prop where
  | done {text : List Char} (none : findGroup? text = none) : Ungrouped text text
  | group {text plain : List Char} {m : Match} {name : String} {symbols : List Symbol}
      (leftmost : findGroup? text = some m) (new : name ∉ given)
      (rule : rules.get? name = some [.unweighted symbols]) (inner : TextStands m.inner symbols)
      (tail : Ungrouped (m.before ++ bracketed name ++ m.sign :: m.after) plain) :
      Ungrouped text plain

inductive TextStands : List Char → List Symbol → Prop where
  | intro {text plain bare : List Char} (groups : Ungrouped text plain)
      (signs : Bared rules given plain bare) : TextStands text (tokens bare)
end

structure EntryStands (item : List Char × Option Number) (e : Expansion) : Prop where
  weight : e.weight = item.2
  text : TextStands rules given item.1 e.symbols

/-- The rules that a flattening is to end with: they have the rules made up so far, and those of the
groups that wait. -/
structure Final (f : Flattening) : Prop where
  kept : ∀ name ∉ given, ∀ alternatives, f.rules.get? name = some alternatives →
    rules.get? name = some alternatives
  met : ∀ p ∈ f.queue, ∃ text symbols, p.alternatives = [(text, none)] ∧
    rules.get? p.name = some [.unweighted symbols] ∧ TextStands rules given text symbols

end Standing

/-- What holds while a queue is worked off: a name made up that waits has no rule yet, and waits once,
with one text. What is queued on the way waits under names made up. -/
structure Orderly (given : List String) (waiting : List Pending) (f : Flattening) : Prop where
  tidy : Tidy given (waiting.map Pending.name) f.lowering
  known : ∀ p ∈ waiting, p.name ∈ f.taken
  waits : ∀ p ∈ waiting, p.name ∉ given →
    p.name ∉ f.rules.keys ∧ ∃ text, p.alternatives = [(text, none)]
  once : waiting.Pairwise fun p q => p.name ∉ given → p.name ≠ q.name
  free : ∀ p ∈ f.queue, p.name ∉ given

inductive Moves (hint : String) : Flattening → Flattening → Prop where
  | nothing (f : Flattening) : Moves hint f f
  | group {f f' : Flattening} (text : List Char) (later : Moves hint (f.postpone hint text) f') :
      Moves hint f f'
  | sign {f f' : Flattening} (name : String) (times : Times)
      (later : Moves hint (f.settle hint name times) f') : Moves hint f f'

section Moves
variable {given : List String} {waiting ahead : List Pending} {hint : String} {rules : Rules}
variable {f f' f'' : Flattening}

theorem Orderly.postpone (orderly : Orderly given waiting f) (hint : String) (text : List Char) :
    Orderly given (waiting ++ [⟨Fresh.name f.taken hint, [(text, none)]⟩]) (f.postpone hint text) where
  tidy := by
    rw [List.map_append]
    exact orderly.tidy.take hint
  known p inside := by
    rcases List.mem_append.mp inside with old | new
    · exact List.mem_cons_of_mem _ (orderly.known p old)
    · rw [List.mem_singleton.mp new]
      exact List.mem_cons_self
  waits p inside free := by
    rcases List.mem_append.mp inside with old | new
    · exact orderly.waits p old free
    · rw [List.mem_singleton.mp new]
      exact ⟨fun ruled => Fresh.name_notMem f.taken hint (orderly.tidy.ruled _ ruled), text, rfl⟩
  once := by
    refine List.pairwise_append.mpr ⟨orderly.once, List.pairwise_singleton _ _, ?_⟩
    intro p old q new _ same
    have named : p.name = Fresh.name f.taken hint := same.trans (congrArg _ (List.mem_singleton.mp new))
    exact Fresh.name_notMem f.taken hint (named ▸ orderly.known p old)
  free p inside := by
    rcases List.mem_append.mp inside with old | new
    · exact orderly.free p old
    · rw [List.mem_singleton.mp new]
      exact orderly.tidy.fresh_notMem hint

theorem Orderly.settle (orderly : Orderly given waiting f) (hint name : String) (times : Times) :
    Orderly given waiting (f.settle hint name times) where
  tidy := orderly.tidy.define hint fun _ => times.weight_of_mem_expansions
  known p inside := List.mem_cons_of_mem _ (orderly.known p inside)
  waits p inside free := by
    obtain ⟨unruled, single⟩ := orderly.waits p inside free
    refine ⟨?_, single⟩
    intro ruled
    rcases Entries.mem_keys_put.mp ruled with same | old
    · exact Fresh.name_notMem f.taken hint (same ▸ orderly.known p inside)
    · exact unruled old
  once := orderly.once
  free := orderly.free

theorem Moves.trans (first : Moves hint f f') (later : Moves hint f' f'') : Moves hint f f'' := by
  induction first with
  | nothing => exact later
  | group text _ ih => exact .group text (ih later)
  | sign name times _ ih => exact .sign name times (ih later)

theorem Moves.orderly (moves : Moves hint f f') (orderly : Orderly given (ahead ++ f.queue) f) :
    Orderly given (ahead ++ f'.queue) f' := by
  induction moves with
  | nothing => exact orderly
  | @group f f' text _ ih =>
    have next := orderly.postpone hint text
    rw [List.append_assoc] at next
    exact ih next
  | sign name times _ ih => exact ih (orderly.settle hint name times)

theorem Moves.get?_eq (moves : Moves hint f f') {name : String} (known : name ∈ f.taken) :
    f'.rules.get? name = f.rules.get? name := by
  induction moves with
  | nothing => rfl
  | group text _ ih => exact ih (List.mem_cons_of_mem _ known)
  | @sign f f' other times _ ih =>
    refine (ih (List.mem_cons_of_mem _ known)).trans (Entries.get?_put_other _ _ ?_)
    intro same
    exact Fresh.name_notMem f.taken hint (same ▸ known)

theorem Moves.taken_subset (moves : Moves hint f f') : f.taken ⊆ f'.taken := by
  induction moves with
  | nothing => exact List.Subset.refl _
  | group text _ ih => exact fun name inside => ih (List.mem_cons_of_mem _ inside)
  | sign name times _ ih => exact fun name inside => ih (List.mem_cons_of_mem _ inside)

theorem Moves.queue_subset (moves : Moves hint f f') : f.queue ⊆ f'.queue := by
  induction moves with
  | nothing => exact List.Subset.refl _
  | group text _ ih => exact fun p inside => ih (List.mem_append_left _ inside)
  | sign name times _ ih => exact ih

theorem Final.of_moves (moves : Moves hint f f') (orderly : Orderly given waiting f)
    (final : Final rules given f') : Final rules given f where
  kept name free alternatives found := by
    have ruled : name ∈ f.rules.keys := (Entries.get?_isSome_iff name _).mp (by rw [found]; rfl)
    exact final.kept name free alternatives
      ((moves.get?_eq (orderly.tidy.ruled name ruled)).trans found)
  met p inside := final.met p (moves.queue_subset inside)

end Moves

section Flattening
variable {given : List String} {ahead : List Pending} {hint : String} {rules : Rules}
variable {f f' : Flattening} {text text' : List Char}

theorem Lifts.moves (lifts : Lifts hint text f text' f') : Moves hint f f' := by
  induction lifts with
  | done => exact .nothing _
  | @group _ _ _ _ m _ _ ih => exact .group m.inner ih

theorem Settles.moves (settles : Settles hint text f text' f') : Moves hint f f' := by
  induction settles with
  | done => exact .nothing _
  | @sign _ _ _ _ m times _ _ _ ih => exact .sign (String.ofList m.inner) times ih

theorem Lifts.ungrouped (lifts : Lifts hint text f text' f')
    (orderly : Orderly given (ahead ++ f.queue) f) (final : Final rules given f') :
    Ungrouped rules given text text' := by
  induction lifts with
  | done none => exact .done none
  | @group _ _ f _ m leftmost later ih =>
    have next : Moves hint f (f.postpone hint m.inner) := .group m.inner (.nothing _)
    have orderly' := next.orderly orderly
    have now := final.of_moves later.moves orderly'
    obtain ⟨inner, symbols, same, rule, stands⟩ :=
      now.met _ (List.mem_append_right f.queue (List.mem_singleton_self _))
    cases same
    exact .group leftmost (orderly.tidy.fresh_notMem hint) rule stands (ih orderly' final)

theorem Settles.bared (settles : Settles hint text f text' f')
    (orderly : Orderly given (ahead ++ f.queue) f) (final : Final rules given f') :
    Bared rules given text text' := by
  induction settles with
  | done none => exact .done none
  | @sign _ _ f _ m times leftmost sign later ih =>
    have next : Moves hint f (f.settle hint (String.ofList m.inner) times) :=
      .sign _ times (.nothing _)
    have orderly' := next.orderly orderly
    have now := final.of_moves later.moves orderly'
    have new := orderly.tidy.fresh_notMem hint
    exact .sign leftmost sign new (now.kept _ new _ (Entries.get?_put_self _ _ _))
      (ih orderly' final)

theorem moves_flatten? {symbols : List Symbol} (run : flatten? hint text f = .ok (symbols, f')) :
    Moves hint f f' := by
  obtain ⟨plain, f₁, bare, lifts, settles, -⟩ := exists_of_flatten? run
  exact lifts.moves.trans settles.moves

theorem stands_flatten? {symbols : List Symbol} (run : flatten? hint text f = .ok (symbols, f'))
    (orderly : Orderly given (ahead ++ f.queue) f) (final : Final rules given f') :
    TextStands rules given text symbols := by
  obtain ⟨plain, f₁, bare, lifts, settles, rfl⟩ := exists_of_flatten? run
  have between := lifts.moves.orderly orderly
  exact .intro (lifts.ungrouped orderly (final.of_moves settles.moves between))
    (settles.bared between final)

variable {items : List (List Char × Option Number)} {expansions : List Expansion}

theorem Flattens.moves (flattens : Flattens hint items f expansions f') : Moves hint f f' := by
  induction flattens with
  | nil => exact .nothing _
  | cons text _ ih => exact (moves_flatten? text).trans ih

theorem Flattens.stands (flattens : Flattens hint items f expansions f')
    (orderly : Orderly given (ahead ++ f.queue) f) (final : Final rules given f') :
    List.Forall₂ (EntryStands rules given) items expansions := by
  induction flattens with
  | nil => exact .nil
  | cons text later ih =>
    have between := (moves_flatten? text).orderly orderly
    have now := final.of_moves later.moves between
    exact .cons ⟨rfl, stands_flatten? text orderly now⟩ (ih between final)

end Flattening
end GrammarSampler.Dictionary
