import GrammarSampler.Proofs.Ebnf.Lowering

/-!
Which names are made up. For each hint they are its free candidates in their order, as many as there
are constructs that need a rule; hints do not get in each other's way.
-/
namespace GrammarSampler

namespace Fresh
variable {given : List String} {hints : List String} {hint : String}

/-- How many of the candidates before the k-th are free. -/
def freeBefore (given : List String) (hint : String) (k : Nat) : Nat :=
  Nat.count (fun j => candidate hint j ∉ given) k

/-- A free candidate of a hint, with fewer free ones before it than the hint was used. -/
def Reached (given hints : List String) (name : String) : Prop :=
  ∃ hint k, name = candidate hint k ∧ name ∉ given ∧ freeBefore given hint k < hints.count hint

theorem names_append (taken first later : List String) :
    (names taken (first ++ later)).2 = (names (names taken first).2 later).2 := by
  induction first generalizing taken with
  | nil => rfl
  | cons hint first ih => exact ih (name taken hint :: taken)

theorem names_concat (taken : List String) (hints : List String) (hint : String) :
    (names taken (hints ++ [hint])).2 = name (names taken hints).2 hint :: (names taken hints).2 :=
  names_append taken hints [hint]

theorem candidate_inj {other : String} {j k : Nat} (known : hint ∈ given) (known' : other ∈ given)
    (same : candidate hint j = candidate other k) (free : candidate hint j ∉ given) :
    hint = other ∧ j = k := by
  cases j with
  | zero => exact absurd known free
  | succ j =>
    cases k with
    | zero =>
      rw [same] at free
      exact absurd known' free
    | succ k =>
      obtain ⟨rfl, rfl⟩ := candidate_succ_inj same
      exact ⟨rfl, rfl⟩

theorem reached_candidate (known : ∀ hint ∈ hints, hint ∈ given) (inside : hint ∈ given) {k : Nat} :
    Reached given hints (candidate hint k) ↔
      candidate hint k ∉ given ∧ freeBefore given hint k < hints.count hint := by
  constructor
  · rintro ⟨other, j, same, free, below⟩
    have used : other ∈ hints := List.count_pos_iff.mp (by omega)
    obtain ⟨rfl, rfl⟩ := candidate_inj inside (known other used) same free
    exact ⟨free, below⟩
  · rintro ⟨free, below⟩
    exact ⟨hint, k, rfl, free, below⟩

/-- If every free candidate before the k-th has fewer than `limit` before it, so has the k-th at
most. -/
theorem freeBefore_le {limit k : Nat}
    (each : ∀ j < k, candidate hint j ∉ given → freeBefore given hint j < limit) :
    freeBefore given hint k ≤ limit := by
  induction k with
  | zero => simp [freeBefore]
  | succ k ih =>
    have before := ih fun j below => each j (by omega)
    rw [freeBefore, Nat.count_succ]
    split
    · rename_i free
      exact each k (by omega) free
    · exact before

theorem mem_names (known : ∀ hint ∈ hints, hint ∈ given) {name : String} :
    name ∈ (names given hints).2 ↔ name ∈ given ∨ Reached given hints name := by
  induction hints using List.reverseRecOn generalizing name with
  | nil =>
    constructor
    · exact Or.inl
    · rintro (inside | ⟨hint, k, -, -, below⟩)
      · exact inside
      · simp at below
  | append_singleton hints hint ih =>
    have known' : ∀ other ∈ hints, other ∈ given :=
      fun other inside => known other (List.mem_append_left _ inside)
    have own : hint ∈ given := known hint (by simp)
    have ih : ∀ {name}, _ := @ih known'
    obtain ⟨k, fresh, free, first⟩ := exists_first (names given hints).2 hint
    simp only [ih, reached_candidate known' own, not_or, not_and, Nat.not_lt] at free first
    have next : freeBefore given hint k = hints.count hint := by
      have low := @freeBefore_le given hint (hints.count hint) k fun j below open_ =>
        ((first j below).resolve_left open_).2
      have high := free.2 free.1
      omega
    rw [names_concat, List.mem_cons, fresh, ih]
    constructor
    · rintro (rfl | inside | ⟨other, j, same, open_, below⟩)
      · exact .inr ⟨hint, k, rfl, free.1, by simp [next]⟩
      · exact .inl inside
      · exact .inr ⟨other, j, same, open_, by rw [List.count_append]; omega⟩
    · rintro (inside | ⟨other, j, rfl, open_, below⟩)
      · exact .inr (.inl inside)
      · by_cases same : other = hint
        · subst same
          rw [List.count_append, List.count_singleton_self] at below
          by_cases early : freeBefore given other j < hints.count other
          · exact .inr (.inr ⟨other, j, rfl, open_, early⟩)
          · have equal : freeBefore given other j = freeBefore given other k := by omega
            rw [Nat.count_injective open_ free.1 equal]
            exact .inl rfl
        · have apart : List.count other [hint] = 0 := by simp [Ne.symm same]
          rw [List.count_append, apart, Nat.add_zero] at below
          exact .inr (.inr ⟨other, j, rfl, open_, below⟩)

end Fresh

namespace Ebnf

mutual
/-- How many rules an item needs beside the one it stands in. -/
def itemRules : Item → Nat
  | .literal _ => 0
  | .reference _ => 0
  | .group alternatives => bodyRules alternatives + if alternatives.length = 1 then 0 else 1
  | .repeated item _ => itemRules item + 1

def sequenceRules : List Item → Nat
  | [] => 0
  | item :: rest => itemRules item + sequenceRules rest

def bodyRules : List (List Item) → Nat
  | [] => 0
  | sequence :: rest => sequenceRules sequence + bodyRules rest
end

inductive Made (hint : String) (l : Lowering) : Nat → Lowering → Prop where
  | nothing : Made hint l 0 l
  | rule {n : Nat} {l' : Lowering} (before : Made hint l n l') (alternatives : String → List Expansion)
      (plain : ∀ name, ∀ e ∈ alternatives name, e.weight = none) :
      Made hint l (n + 1) (l'.define hint alternatives).2

namespace Made
variable {hint : String} {l l' l'' : Lowering} {m n : Nat}

theorem trans (first : Made hint l m l') (later : Made hint l' n l'') :
    Made hint l (m + n) l'' := by
  induction later with
  | nothing => exact first
  | rule _ alternatives plain ih => exact .rule ih alternatives plain

theorem taken_eq (made : Made hint l n l') :
    l'.taken = (Fresh.names l.taken (List.replicate n hint)).2 := by
  induction made with
  | nothing => rfl
  | rule _ alternatives _ ih =>
    rw [List.replicate_succ', Fresh.names_concat, ← ih]
    rfl

theorem keys_iff {given : List String} (made : Made hint l n l')
    (same : ∀ name ∉ given, name ∈ l.rules.keys ↔ name ∈ l.taken) :
    ∀ name ∉ given, name ∈ l'.rules.keys ↔ name ∈ l'.taken := by
  induction made with
  | nothing => exact same
  | @rule n l' _ alternatives _ ih =>
    intro name free
    exact Entries.mem_keys_put.trans ((or_congr_right (ih name free)).trans List.mem_cons.symm)

end Made

theorem weight_of_mem_map_unweighted {lowered : List (List Symbol)} :
    ∀ e ∈ lowered.map .unweighted, Expansion.weight e = none := by
  intro e inside
  obtain ⟨symbols, -, rfl⟩ := List.mem_map.mp inside
  rfl

theorem Times.weight_of_mem_expansions (times : Times) {name : String} {content : List Symbol} :
    ∀ e ∈ times.expansions name content, e.weight = none := by
  cases times <;> simp [Times.expansions, Expansion.unweighted]

section Lowering
variable (hint : String)

theorem made_inline (l : Lowering) (alternatives : List (List Symbol)) :
    Made hint l (if alternatives.length = 1 then 0 else 1) (l.inline hint alternatives).2 := by
  cases alternatives with
  | nil => exact .rule .nothing (fun _ => []) (by simp)
  | cons first rest =>
    cases rest with
    | nil => exact .nothing
    | cons second rest =>
      rw [if_neg (by simp)]
      exact .rule .nothing (fun _ => (first :: second :: rest).map .unweighted)
        fun _ => weight_of_mem_map_unweighted

theorem length_lowerBody (l : Lowering) (body : List (List Item)) :
    (lowerBody hint l body).1.length = body.length := by
  induction body generalizing l with
  | nil => rfl
  | cons sequence rest ih => exact congrArg (· + 1) (ih _)

mutual
theorem made_lowerItem : ∀ (l : Lowering) (item : Item),
    Made hint l (itemRules item) (lowerItem hint l item).2
  | _, .literal _ => .nothing
  | _, .reference _ => .nothing
  | l, .group alternatives => by
    have inner := made_lowerBody l alternatives
    have outer := made_inline hint (lowerBody hint l alternatives).2 (lowerBody hint l alternatives).1
    rw [length_lowerBody] at outer
    exact inner.trans outer
  | l, .repeated item times =>
    .rule (made_lowerItem l item) (fun name => times.expansions name (lowerItem hint l item).1)
      fun _ => times.weight_of_mem_expansions

theorem made_lowerSequence : ∀ (l : Lowering) (items : List Item),
    Made hint l (sequenceRules items) (lowerSequence hint l items).2
  | _, [] => .nothing
  | l, item :: rest => (made_lowerItem l item).trans (made_lowerSequence _ rest)

theorem made_lowerBody : ∀ (l : Lowering) (body : List (List Item)),
    Made hint l (bodyRules body) (lowerBody hint l body).2
  | _, [] => .nothing
  | l, sequence :: rest => (made_lowerSequence l sequence).trans (made_lowerBody _ rest)
end

end Lowering
end Ebnf
end GrammarSampler
