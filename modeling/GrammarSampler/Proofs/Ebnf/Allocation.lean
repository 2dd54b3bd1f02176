import GrammarSampler.Proofs.Ebnf.Numbering

/-!
Names for several hints, one after the other. The search takes one candidate after the next and has
no bound of its own; it ends because the candidates for a hint all differ, so that there are no more
turns than names taken. What it ends with is taken from then on, so that no name is given twice, even
where the candidates for one hint are candidates for another.
-/
namespace GrammarSampler.Fresh
variable {taken : List String} {hint : String} {i k : Nat}

/-- From one candidate on, a search ends at another: the first that is free. -/
inductive Search (taken : List String) (hint : String) : Nat → Nat → Prop where
  | free {k : Nat} (free : candidate hint k ∉ taken) : Search taken hint k k
  | pass {i k : Nat} (used : candidate hint i ∈ taken) (later : Search taken hint (i + 1) k) :
      Search taken hint i k

theorem search_iff : Search taken hint i k ↔
    i ≤ k ∧ candidate hint k ∉ taken ∧ ∀ j, i ≤ j → j < k → candidate hint j ∈ taken := by
  constructor
  · intro search
    induction search with
    | free free => exact ⟨Nat.le_refl _, free, by omega⟩
    | @pass i k used _ ih =>
      obtain ⟨after, free, between⟩ := ih
      refine ⟨by omega, free, fun j begun below => ?_⟩
      by_cases here : j = i
      · exact here ▸ used
      · exact between j (by omega) below
  · rintro ⟨after, free, between⟩
    -- On the number of candidates that are passed.
    induction turns : k - i generalizing i with
    | zero =>
      obtain rfl : i = k := by omega
      exact .free free
    | succ turns ih =>
      refine .pass (between i (Nat.le_refl i) (by omega)) ?_
      exact ih (by omega) (fun j begun below => between j (by omega) below) (by omega)

theorem Search.le_length (search : Search taken hint 0 k) : k ≤ taken.dedup.length := by
  obtain ⟨-, -, used⟩ := search_iff.mp search
  have inside : (List.range k).map (candidate hint) ⊆ taken.dedup := by
    intro name passed
    obtain ⟨j, below, rfl⟩ := List.mem_map.mp passed
    exact List.mem_dedup.mpr (used j (Nat.zero_le j) (List.mem_range.mp below))
  have distinct := List.Nodup.map (candidate_injective hint) (@List.nodup_range k)
  simpa using (distinct.subperm inside).length_le

theorem name_of_search (search : Search taken hint 0 k) : name taken hint = candidate hint k := by
  obtain ⟨j, fresh, free, first⟩ := exists_first taken hint
  obtain ⟨-, free', first'⟩ := search_iff.mp search
  rcases Nat.lt_trichotomy j k with below | rfl | above
  · exact absurd (first' j (Nat.zero_le j) below) free
  · exact fresh
  · exact absurd (first k above) free'

/-- What one call answers, and the names taken after it. -/
structure Allots (taken : List String) (hint fresh : String) (after : List String) : Prop where
  ends : ∃ k ≤ taken.dedup.length, Search taken hint 0 k ∧ fresh = candidate hint k
  own : hint ∉ taken → fresh = hint
  numbered : hint ∈ taken → ∃ k ≥ 1, fresh = hint ++ "-" ++ toString k ∧
    ∀ j, 1 ≤ j → j < k → hint ++ "-" ++ toString j ∈ taken
  new : fresh ∉ taken
  grown : after = fresh :: taken

theorem allots (taken : List String) (hint : String) :
    Allots taken hint (name taken hint) (name taken hint :: taken) := by
  obtain ⟨k, fresh, free, first⟩ := exists_first taken hint
  have search : Search taken hint 0 k := search_iff.mpr ⟨Nat.zero_le k, free, fun j _ => first j⟩
  refine ⟨⟨k, search.le_length, search, fresh⟩, ?_, ?_, name_notMem taken hint, rfl⟩
  · intro unused
    cases k with
    | zero => exact fresh
    | succ k => exact absurd (first 0 (Nat.succ_pos k)) unused
  · intro used
    cases k with
    | zero => exact absurd used free
    | succ k =>
      refine ⟨k + 1, Nat.succ_pos k, fresh, fun j positive below => ?_⟩
      obtain ⟨j, rfl⟩ := Nat.exists_eq_add_of_le' positive
      exact first (j + 1) below

theorem length_names (taken hints : List String) :
    (names taken hints).1.length = hints.length := by
  induction hints generalizing taken with
  | nil => rfl
  | cons hint hints ih => exact congrArg (· + 1) (ih (name taken hint :: taken))

theorem getElem?_names {hints : List String} (place : hints[i]? = some hint) :
    (names taken hints).1[i]? = some (name (names taken (hints.take i)).2 hint) := by
  induction hints generalizing taken i with
  | nil => cases place
  | cons first hints ih =>
    cases i with
    | zero =>
      cases place
      rfl
    | succ i => exact @ih (name taken first :: taken) i place

theorem names_take_succ {hints : List String} (place : hints[i]? = some hint) :
    (names taken (hints.take (i + 1))).2 =
      name (names taken (hints.take i)).2 hint :: (names taken (hints.take i)).2 := by
  rw [List.take_add_one, place]
  exact names_concat taken (hints.take i) hint

theorem taken_names (taken hints : List String) :
    (names taken hints).2 = (names taken hints).1.reverse ++ taken := by
  induction hints generalizing taken with
  | nil => rfl
  | cons hint hints ih =>
    have later := ih (name taken hint :: taken)
    simp [names, later]

theorem notMem_of_mem_names {hints : List String} {fresh : String}
    (inside : fresh ∈ (names taken hints).1) : fresh ∉ taken := by
  induction hints generalizing taken with
  | nil => cases inside
  | cons hint hints ih =>
    rcases List.mem_cons.mp inside with rfl | later
    · exact name_notMem taken hint
    · exact fun used => ih later (List.mem_cons_of_mem _ used)

theorem nodup_names (taken hints : List String) : (names taken hints).1.Nodup := by
  induction hints generalizing taken with
  | nil => exact List.nodup_nil
  | cons hint hints ih =>
    refine List.nodup_cons.mpr ⟨fun later => ?_, ih (name taken hint :: taken)⟩
    exact notMem_of_mem_names later List.mem_cons_self

/-- Whatever names are taken and whatever the hints look like, every call ends, after no more turns
than there are names taken. It answers the hint if that is free, and else the hint with the least
number that makes it free; the answer is taken from then on and nothing else is. All answers differ
from each other and from the names taken at first. -/
theorem names_allotted (taken hints : List String) :
    (names taken hints).1.length = hints.length ∧
    (∀ i hint, hints[i]? = some hint → ∃ fresh, (names taken hints).1[i]? = some fresh ∧
      Allots (names taken (hints.take i)).2 hint fresh (names taken (hints.take (i + 1))).2) ∧
    (names taken hints).2 = (names taken hints).1.reverse ++ taken ∧
    (names taken hints).1.Nodup ∧ ∀ fresh ∈ (names taken hints).1, fresh ∉ taken := by
  refine ⟨length_names taken hints, ?_, taken_names taken hints, nodup_names taken hints,
    fun fresh => notMem_of_mem_names⟩
  intro i hint place
  refine ⟨_, getElem?_names place, ?_⟩
  rw [names_take_succ place]
  exact allots _ hint

/-- Hints that are candidates for each other. -/
theorem names_allotted_overlapping :
    (names ["a"] ["a", "a-1", "a"]).1 = ["a-1", "a-1-1", "a-2"] ∧
    Allots ["a-1-1", "a-1", "a"] "a" "a-2" ["a-2", "a-1-1", "a-1", "a"] := by
  have first : name ["a"] "a" = "a-1" :=
    name_of_search (.pass (i := 0) (k := 1) (by decide) (.free (by decide)))
  have second : name ["a-1", "a"] "a-1" = "a-1-1" :=
    name_of_search (.pass (i := 0) (k := 1) (by decide) (.free (by decide)))
  have third : name ["a-1-1", "a-1", "a"] "a" = "a-2" :=
    name_of_search (.pass (i := 0) (k := 2) (by decide) (.pass (by decide) (.free (by decide))))
  have all : names ["a"] ["a", "a-1", "a"] =
      (["a-1", "a-1-1", "a-2"], ["a-2", "a-1-1", "a-1", "a"]) := by
    simp [names, first, second, third]
  obtain ⟨fresh, place, allotted⟩ := (names_allotted ["a"] ["a", "a-1", "a"]).2.1 2 "a" rfl
  rw [all] at place
  cases place
  refine ⟨congrArg Prod.fst all, ?_⟩
  simpa [names, first, second, third] using allotted

end GrammarSampler.Fresh
