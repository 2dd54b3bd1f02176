import GrammarSampler.Generation.Choice
import GrammarSampler.Proofs.Cost.Relaxation
import GrammarSampler.Proofs.Number.Product
import GrammarSampler.Proofs.Random.Unit

/-!
What the choices of a generation can be. With draws from zero to below one a leaf is always found
at a position of the worklist, and an alternative is one of its phase's candidates.
-/
namespace GrammarSampler.Choice

section Leaves

theorem spread_eq {draw whole : Float} {count : Nat} (lower : 0.0 ≤ draw) (upper : draw < 1.0)
    (some : 0 < count) (counted : (Number.int count).toFloat = .ok whole) :
    ∃ p < count, spread draw count = .ok (p : Int) := by
  obtain ⟨k, part⟩ := Number.toInt_mul_count lower upper counted
  refine ⟨min k (count - 1), by omega, ?_⟩
  have value : spread draw count = .ok (min (k : Int) (count - 1 : Int)) := by
    change ((Number.int count).toFloat >>= fun whole =>
      (Number.float (draw * whole)).toInt >>= fun position =>
        .ok (min position (count - 1 : Int))) = _
    rw [counted]
    change ((Number.float (draw * whole)).toInt >>= fun position =>
      .ok (min position (count - 1 : Int))) = _
    rw [part]
    rfl
  rw [value]
  congr 1
  omega

theorem spread_of_uncounted {draw : Float} {count : Nat} {fault : NumberFault}
    (uncounted : (Number.int count).toFloat = .error fault) : spread draw count = .error fault := by
  change ((Number.int count).toFloat >>= _) = _
  rw [uncounted]
  rfl

theorem firstMinimum?_lt {depths : List Nat} (some : depths ≠ []) :
    ∃ i < depths.length, firstMinimum? depths = .some i := by
  cases least : depths.min? with
  | none => exact absurd (List.min?_eq_none_iff.mp least) some
  | some d =>
    exact ⟨depths.idxOf d, List.idxOf_lt_length_iff.mpr (List.min?_mem least),
      by rw [firstMinimum?, least]; rfl⟩

theorem shallowest_lt {g : Growth} (some : 0 < g.openCount) :
    ∃ i < g.openCount, firstMinimum? (g.buds.map Bud.depth) = .some i := by
  have nonempty : g.buds.map Bud.depth ≠ [] := by
    intro empty
    rw [List.map_eq_nil_iff, Growth.buds, List.map_eq_nil_iff] at empty
    rw [Growth.openCount, ← Worklist.length_toList, empty] at some
    exact Nat.lt_irrefl 0 some
  obtain ⟨i, inside, found⟩ := firstMinimum?_lt nonempty
  rw [List.length_map, Growth.buds, List.length_map, Worklist.length_toList] at inside
  exact ⟨i, inside, found⟩

variable {σ : Type} [Draws σ Float]

/-- More leaves are open than a float can count. -/
def Uncountable (policy : LeafPolicy) (g : Growth) : Prop :=
  policy = .random ∧ 2 ^ 1023 ≤ g.openCount

theorem leaf_cases {policy : LeafPolicy} {g : Growth} {source : σ} (some : 0 < g.openCount)
    (unit : Draws.InUnit source) :
    (∃ p < g.openCount, (leaf policy g source).1 = .ok (p : Int)) ∨
      Uncountable policy g ∧ (leaf policy g source).1 = .error (.number .tooLargeForFloat) := by
  unfold leaf
  split
  · exact .inl ⟨0, some, rfl⟩
  · cases policy with
    | leftmost => exact .inl ⟨0, some, rfl⟩
    | shallowest =>
      obtain ⟨i, inside, found⟩ := shallowest_lt some
      refine .inl ⟨i, inside, ?_⟩
      dsimp only
      rw [found]
    | random =>
      dsimp only
      cases counted : (Number.int g.openCount).toFloat with
      | ok whole =>
        obtain ⟨p, inside, value⟩ := spread_eq unit.head.1 unit.head.2 some counted
        refine .inl ⟨p, inside, ?_⟩
        rw [value]
        rfl
      | error fault =>
        have many : 1023 ≤ g.openCount.log2 := by
          by_contra few
          obtain ⟨x, found⟩ := @Number.toFloat_of_log2 g.openCount (by omega)
          rw [counted] at found
          cases found
        have large := (Nat.le_log2 (Nat.ne_of_gt some)).mp many
        have kind : fault = .tooLargeForFloat := by
          rw [Number.toFloat_natCast] at counted
          split at counted <;> cases counted
          rfl
        refine .inr ⟨⟨rfl, large⟩, ?_⟩
        rw [spread_of_uncounted counted, kind]
        rfl

theorem leaf_inUnit {policy : LeafPolicy} {g : Growth} {source : σ} (unit : Draws.InUnit source) :
    Draws.InUnit (leaf policy g source).2 := by
  unfold leaf
  split
  · exact unit
  · cases policy with
    | leftmost => exact unit
    | shallowest =>
      dsimp only
      split <;> exact unit
    | random => exact unit.tail

end Leaves

section Alternatives
variable {table : CostTable Cost} {phase : Phase} {alternatives : List Expansion} {index : Nat}
  {costs : List Cost} {target : Cost}

theorem target?_mem (found : target? phase costs = some target) :
    target ∈ costs.filter Cost.isFinite := by
  unfold target? at found
  cases kept : costs.filter Cost.isFinite with
  | nil =>
    rw [kept] at found
    cases found
  | cons c rest =>
    have nonempty : c :: rest ≠ [] := List.cons_ne_nil c rest
    rw [kept] at found
    cases phase with
    | growth =>
      cases found
      exact Cost.worst_mem nonempty
    | exploration =>
      cases found
      exact Cost.best_mem nonempty
    | closing =>
      cases found
      exact Cost.best_mem nonempty

theorem exists_target (some : ∃ c ∈ costs, c.isFinite = true) :
    ∃ target, target? phase costs = .some target := by
  obtain ⟨c, inside, finite⟩ := some
  have kept := List.mem_filter.mpr ⟨inside, finite⟩
  unfold target?
  cases all : costs.filter Cost.isFinite with
  | nil =>
    rw [all] at kept
    cases kept
  | cons d rest => cases phase <;> exact ⟨_, rfl⟩

theorem best_filter (costs : List Cost) : Cost.best (costs.filter Cost.isFinite) = Cost.best costs := by
  apply Cost.eq_of_atMost
  intro k
  rw [Cost.atMost_best, Cost.atMost_best]
  constructor
  · rintro ⟨c, inside, bound⟩
    exact ⟨c, (List.mem_filter.mp inside).1, bound⟩
  · rintro ⟨c, inside, bound⟩
    refine ⟨c, List.mem_filter.mpr ⟨inside, ?_⟩, bound⟩
    cases c with
    | finite n => rfl
    | infinite => exact bound.elim

theorem target?_closing (found : target? .closing costs = some target) : target = Cost.best costs := by
  unfold target? at found
  rw [← best_filter]
  cases kept : costs.filter Cost.isFinite with
  | nil =>
    rw [kept] at found
    cases found
  | cons c rest =>
    rw [kept] at found
    exact (Option.some.inj found).symm

theorem candidates_of_targeted (targeted : phase ≠ .exploration) :
    candidates table phase alternatives = (((alternatives.map (Cost.ofExpansion table)).zipIdx.filter
      fun (cost, _) => some cost = target? phase (alternatives.map (Cost.ofExpansion table))).map
        Prod.snd) := by
  cases phase with
  | growth => rfl
  | exploration => exact absurd rfl targeted
  | closing => rfl

theorem mem_candidates_of_targeted (targeted : phase ≠ .exploration) :
    index ∈ candidates table phase alternatives ↔ ∃ e, alternatives[index]? = some e ∧
      target? phase (alternatives.map (Cost.ofExpansion table)) = some (Cost.ofExpansion table e) := by
  rw [candidates_of_targeted targeted]
  simp [List.mem_zipIdx_iff_getElem?, eq_comm]

theorem lt_of_mem_candidates (inside : index ∈ candidates table phase alternatives) :
    index < alternatives.length := by
  by_cases exploring : phase = .exploration
  · subst exploring
    exact List.mem_range.mp inside
  · obtain ⟨e, found, -⟩ := (mem_candidates_of_targeted exploring).mp inside
    exact (List.getElem?_eq_some_iff.mp found).1

theorem candidates_ne_nil (some : ∃ e ∈ alternatives, (Cost.ofExpansion table e).isFinite = true) :
    candidates table phase alternatives ≠ [] := by
  obtain ⟨e, chosen, finite⟩ := some
  by_cases exploring : phase = .exploration
  · subst exploring
    intro empty
    have none : alternatives.length = 0 := List.range_eq_nil.mp empty
    rw [List.length_eq_zero_iff.mp none] at chosen
    cases chosen
  · obtain ⟨target, found⟩ := @exists_target phase _ ⟨_, List.mem_map_of_mem chosen, finite⟩
    obtain ⟨d, own, cost⟩ := List.mem_map.mp (List.mem_filter.mp (target?_mem found)).1
    obtain ⟨i, place⟩ := List.mem_iff_getElem?.mp own
    exact List.ne_nil_of_mem ((mem_candidates_of_targeted exploring).mpr ⟨d, place, cost ▸ found⟩)

theorem mem_candidates_closing : index ∈ candidates table .closing alternatives ↔
    ∃ e, alternatives[index]? = some e ∧ (Cost.ofExpansion table e).isFinite = true ∧
      Cost.ofExpansion table e = Cost.best (alternatives.map (Cost.ofExpansion table)) := by
  rw [mem_candidates_of_targeted (by decide)]
  constructor
  · rintro ⟨e, chosen, found⟩
    exact ⟨e, chosen, (List.mem_filter.mp (target?_mem found)).2, target?_closing found⟩
  · rintro ⟨e, chosen, finite, least⟩
    obtain ⟨target, found⟩ := @exists_target .closing _
      ⟨_, List.mem_map_of_mem (List.mem_of_getElem? chosen), finite⟩
    rw [target?_closing found, ← least] at found
    exact ⟨e, chosen, found⟩

theorem finite_of_targeted {e : Expansion} (targeted : phase ≠ .exploration)
    (candidate : index ∈ candidates table phase alternatives)
    (chosen : alternatives[index]? = some e) :
    ∀ used ∈ e.references, ∃ k, table.get? used = some (.finite k) := by
  obtain ⟨e', taken, found⟩ := (mem_candidates_of_targeted targeted).mp candidate
  rw [chosen, Option.some.injEq] at taken
  subst taken
  have bounded := (List.mem_filter.mp (target?_mem found)).2
  intro used inside
  cases whole : Cost.ofExpansion table e with
  | infinite =>
    rw [whole] at bounded
    cases bounded
  | finite n =>
    have within : (Cost.ofExpansion table e).AtMost n := by
      rw [whole]
      exact Nat.le_refl n
    have low := Cost.atMost_ofExpansion.mp within used inside
    unfold Cost.ofName at low
    cases found : table.get? used with
    | none =>
      rw [found] at low
      exact low.elim
    | some c =>
      rw [found] at low
      cases c with
      | finite k => exact ⟨k, rfl⟩
      | infinite => exact low.elim

theorem isAimless_of_exploration : isAimless table .exploration alternatives = false := rfl

theorem isAimless_of_some (some : ∃ e ∈ alternatives, (Cost.ofExpansion table e).isFinite = true) :
    isAimless table phase alternatives = false := by
  obtain ⟨e, chosen, finite⟩ := some
  obtain ⟨target, found⟩ := @exists_target phase _ ⟨_, List.mem_map_of_mem chosen, finite⟩
  simp [isAimless, found]

theorem isAimless_of_candidate (inside : index ∈ candidates table phase alternatives) :
    isAimless table phase alternatives = false := by
  by_cases exploring : phase = .exploration
  · subst exploring
    rfl
  · obtain ⟨e, -, found⟩ := (mem_candidates_of_targeted exploring).mp inside
    simp [isAimless, found]

end Alternatives

section Weights
variable {α ρ : Type} [Arithmetic ρ]

theorem cumulative_mem {point sum : ρ} {entries : List (α × ρ)} {a : α}
    (found : cumulative point sum entries = some a) : a ∈ entries.map Prod.fst := by
  induction entries generalizing sum with
  | nil => cases found
  | cons entry rest ih =>
    obtain ⟨candidate, weight⟩ := entry
    unfold cumulative at found
    dsimp only at found
    split at found
    · cases found
      exact List.mem_cons_self
    · exact List.mem_cons_of_mem _ (ih found)

theorem weighted_mem {candidates : List α} {weights : List ρ} {draw : ρ} {a : α}
    (found : weighted candidates weights draw = some a) : a ∈ candidates := by
  rcases Option.or_eq_some_iff.mp found with sum | ⟨-, last⟩
  · obtain ⟨⟨b, w⟩, inside, rfl⟩ := List.mem_map.mp (cumulative_mem sum)
    exact (List.of_mem_zip inside).1
  · exact List.mem_of_getLast? last

theorem weighted_isSome {candidates : List α} (some : candidates ≠ []) (weights : List ρ)
    (draw : ρ) : ∃ a, weighted candidates weights draw = .some a := by
  rw [← Option.isSome_iff_exists, weighted, Option.isSome_or, Bool.or_eq_true]
  exact .inr (List.getLast?_isSome.mpr some)

theorem mapM_isOk {β γ ε : Type} {f : β → Except ε γ} {items : List β}
    (each : ∀ b ∈ items, ∃ c, f b = .ok c) : ∃ results, items.mapM f = .ok results := by
  induction items with
  | nil => exact ⟨[], rfl⟩
  | cons b rest ih =>
    obtain ⟨c, first⟩ := each b List.mem_cons_self
    obtain ⟨cs, later⟩ := ih fun d inside => each d (List.mem_cons_of_mem b inside)
    exact ⟨c :: cs, by rw [List.mapM_cons, first, later]; rfl⟩

end Weights

section Picks
variable {ρ σ : Type} [Arithmetic ρ] [Draws σ ρ] {alternatives : List Expansion} {indices : List Nat}
  {source : σ}

theorem pick_mem {index : Nat} (picked : (pick alternatives indices source).1 = .ok index) :
    index ∈ indices := by
  unfold pick at picked
  split at picked
  · cases picked
    exact List.mem_singleton_self _
  · dsimp only at picked
    split at picked
    · cases picked
    · split at picked
      · rename_i index' found
        cases picked
        exact weighted_mem found
      · cases picked

end Picks

section Chosen
variable {ρ σ : Type} [Arithmetic ρ] [Draws σ ρ] {g : Grammar} {name : String} {phase : Phase}
  {source : σ}

/-- For a name that ends one of the candidates is picked, unless there is nothing to look for. -/
theorem alternative_of_cost {k : Nat} (cost : g.costs.get? name = some (.finite k))
    (aimed : isAimless g.costs phase (g.alternatives name) = false) : alternative g name phase source =
      pick (g.alternatives name) (candidates g.costs phase (g.alternatives name)) source := by
  unfold alternative
  rw [cost]
  dsimp only
  rw [if_neg (by simp [aimed])]

theorem alternative_ok {index : Nat} (chosen : (alternative g name phase source).1 = .ok index) :
    index ∈ candidates g.costs phase (g.alternatives name) ∧
      ∃ k, g.costs.get? name = some (.finite k) := by
  unfold alternative at chosen
  split at chosen
  · cases chosen
  · cases chosen
  · rename_i k cost
    dsimp only at chosen
    split at chosen
    · cases chosen
    · exact ⟨pick_mem chosen, k, cost⟩

theorem alternative_of_infinite (cost : g.costs.get? name = some .infinite) :
    (alternative g name phase source).1 = .error (.generation (.nonTerminating name)) := by
  unfold alternative
  rw [cost]

end Chosen

section Results
variable {σ : Type} [Draws σ Float] {g : Grammar} {name : String} {phase : Phase} {source : σ}

theorem alternative_of_finite {k : Nat} (cost : g.costs.get? name = some (.finite k))
    (some : ∃ e ∈ g.alternatives name, (Cost.ofExpansion g.costs e).isFinite = true)
    (weighable : ∀ e ∈ g.alternatives name, ∃ x, e.effectiveWeight = .ok x) :
    ∃ index, (alternative g name phase source).1 = .ok index := by
  have nonempty := @candidates_ne_nil g.costs phase _ some
  rw [alternative_of_cost cost (isAimless_of_some some)]
  unfold pick
  split
  · exact ⟨_, rfl⟩
  · have weights : ∃ weights, ((candidates g.costs phase (g.alternatives name)).filterMap
        ((g.alternatives name).toArray[·]?)).mapM (@Arithmetic.ofExpansion Float _) = .ok weights := by
      refine mapM_isOk fun e inside => ?_
      obtain ⟨i, -, found⟩ := List.mem_filterMap.mp inside
      exact weighable e (List.mem_of_getElem? (by simpa using found))
    obtain ⟨weights, converted⟩ := weights
    dsimp only
    rw [converted]
    dsimp only [drawn]
    obtain ⟨index, found⟩ := weighted_isSome nonempty weights (Draws.draw source).1
    rw [found]
    exact ⟨index, rfl⟩

theorem pick_inUnit {alternatives : List Expansion} {indices : List Nat} (unit : Draws.InUnit source) :
    Draws.InUnit (pick alternatives indices source).2 := by
  unfold pick
  split
  · exact unit
  · dsimp only
    split
    · exact unit
    · split <;> exact unit.tail

theorem alternative_inUnit (unit : Draws.InUnit source) :
    Draws.InUnit (alternative g name phase source).2 := by
  unfold alternative
  split
  · exact unit
  · exact unit
  · dsimp only
    split
    · exact unit
    · exact pick_inUnit unit

end Results

end GrammarSampler.Choice
