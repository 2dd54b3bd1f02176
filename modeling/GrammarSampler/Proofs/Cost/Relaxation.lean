import GrammarSampler.Cost.Estimate
import GrammarSampler.Proofs.Cost.Bounds
import GrammarSampler.Proofs.Cost.Levels

/-!
The relaxation that finds costs. Relaxing a rule never makes a cost lower than its level and never
higher than before, each pass settles one more level, and a pass that changes nothing leaves every
name with its level.
-/
namespace GrammarSampler.Cost

variable {rules : Rules} {table : CostTable Cost} {name : String} {j k : Nat}

theorem ofName_put_self (table : CostTable Cost) (name : String) (c : Cost) :
    ofName (table.put name c) name = c := by
  simp [ofName, Entries.get?_put_self]

theorem ofName_put_other {other : String} (table : CostTable Cost) (c : Cost)
    (apart : name ≠ other) : ofName (table.put name c) other = ofName table other := by
  simp [ofName, Entries.get?_put_other c table apart]

theorem atMost_ofExpansion {e : Expansion} :
    (ofExpansion table e).AtMost k ↔ ∀ used ∈ e.references, (ofName table used).AtMost k := by
  simp [ofExpansion]

theorem atMost_ofRule_succ {alternatives : List Expansion} :
    (ofRule table alternatives).AtMost (k + 1) ↔
      ∃ e ∈ alternatives, ∀ used ∈ e.references, (ofName table used).AtMost k := by
  simp [ofRule, atMost_ofExpansion]

theorem not_atMost_ofRule_zero {alternatives : List Expansion} :
    ¬ (ofRule table alternatives).AtMost 0 := not_atMost_next_zero

def Lowered (before after : CostTable Cost) : Prop :=
  ∀ name k, (ofName before name).AtMost k → (ofName after name).AtMost k

theorem Lowered.rule {before after : CostTable Cost} (lower : Lowered before after)
    {alternatives : List Expansion} (h : (ofRule before alternatives).AtMost k) :
    (ofRule after alternatives).AtMost k := by
  cases k with
  | zero => exact False.elim (not_atMost_ofRule_zero h)
  | succ k =>
    obtain ⟨e, chosen, below⟩ := atMost_ofRule_succ.mp h
    exact atMost_ofRule_succ.mpr ⟨e, chosen, fun used inside => lower used k (below used inside)⟩

theorem atMost_relaxRule (state : Relaxation) (rule : String × List Expansion) :
    (ofName (relaxRule state rule).table name).AtMost k ↔
      (ofName state.table name).AtMost k ∨
        name = rule.1 ∧ (ofRule state.table rule.2).AtMost k := by
  by_cases lower : (ofRule state.table rule.2).lt (ofName state.table rule.1) = true
  · have after : (relaxRule state rule).table =
        state.table.put rule.1 (ofRule state.table rule.2) := by simp [relaxRule, lower]
    rw [after]
    by_cases here : rule.1 = name
    · subst here
      rw [ofName_put_self]
      constructor
      · exact fun h => .inr ⟨rfl, h⟩
      · rintro (old | ⟨-, new⟩)
        · obtain ⟨i, small, large⟩ := lt_iff.mp lower
          have le : i ≤ k := by
            by_contra above
            exact large (old.mono (Nat.le_of_not_le above))
          exact small.mono le
        · exact new
    · rw [ofName_put_other _ _ here]
      exact ⟨.inl, fun h => h.resolve_right fun other => here other.1.symm⟩
  · have after : (relaxRule state rule).table = state.table := by simp [relaxRule, lower]
    rw [after]
    refine ⟨.inl, ?_⟩
    rintro (old | ⟨rfl, new⟩)
    · exact old
    · by_contra above
      exact lower (lt_iff.mpr ⟨k, new, above⟩)

theorem lowered_foldl (rest : Rules) (state : Relaxation) :
    Lowered state.table (rest.foldl relaxRule state).table := by
  induction rest generalizing state with
  | nil => exact fun _ _ h => h
  | cons rule rest ih =>
    intro name k h
    exact ih (relaxRule state rule) name k ((atMost_relaxRule state rule).mpr (.inl h))

theorem atMost_foldl {rest : Rules} {rule : String × List Expansion} (inside : rule ∈ rest)
    (state : Relaxation) (h : (ofRule state.table rule.2).AtMost k) :
    (ofName (rest.foldl relaxRule state).table rule.1).AtMost k := by
  induction rest generalizing state with
  | nil => simp at inside
  | cons first rest ih =>
    rcases List.mem_cons.mp inside with rfl | later
    · exact lowered_foldl rest _ _ _ ((atMost_relaxRule state rule).mpr (.inr ⟨rfl, h⟩))
    · exact ih later (relaxRule state first) ((lowered_foldl [first] state).rule h)

/-- No cost is below the level of its name. -/
def Sound (rules : Rules) (table : CostTable Cost) : Prop :=
  ∀ name k, (ofName table name).AtMost k → rules.ClosesIn k name

/-- The names of the first `j` levels have their costs. -/
def Settled (rules : Rules) (j : Nat) (table : CostTable Cost) : Prop :=
  ∀ name, ∀ k ≤ j, rules.ClosesIn k name → (ofName table name).AtMost k

def Exact (rules : Rules) (table : CostTable Cost) : Prop :=
  ∀ name k, (ofName table name).AtMost k ↔ rules.ClosesIn k name

theorem Sound.relaxRule {state : Relaxation} (sound : Sound rules state.table)
    {rule : String × List Expansion} (own : rules.get? rule.1 = some rule.2) :
    Sound rules (relaxRule state rule).table := by
  intro name k h
  rcases (atMost_relaxRule state rule).mp h with old | ⟨rfl, new⟩
  · exact sound name k old
  · cases k with
    | zero => exact False.elim (not_atMost_ofRule_zero new)
    | succ k =>
      obtain ⟨e, chosen, below⟩ := atMost_ofRule_succ.mp new
      exact ⟨rule.2, own, e, chosen, fun used inside => sound used k (below used inside)⟩

theorem Sound.foldl {rest : Rules} (own : ∀ rule ∈ rest, rules.get? rule.1 = some rule.2)
    {state : Relaxation} (sound : Sound rules state.table) :
    Sound rules (rest.foldl Cost.relaxRule state).table := by
  induction rest generalizing state with
  | nil => exact sound
  | cons rule rest ih =>
    have first := sound.relaxRule (own rule List.mem_cons_self)
    exact ih (fun r inside => own r (List.mem_cons_of_mem rule inside)) first

theorem Sound.pass (mapping : rules.Distinct) (sound : Sound rules table) :
    Sound rules (pass rules table).table :=
  Sound.foldl (fun _ inside => Entries.get?_of_mem mapping inside) sound

/-- A pass settles one more level, whatever the order of the rules. -/
theorem Settled.pass (settled : Settled rules j table) :
    Settled rules (j + 1) (pass rules table).table := by
  intro name k le h
  cases k with
  | zero => exact False.elim h
  | succ k =>
    obtain ⟨alternatives, rule, e, chosen, below⟩ := h
    have allowed : (ofRule table alternatives).AtMost (k + 1) :=
      atMost_ofRule_succ.mpr ⟨e, chosen, fun used inside =>
        settled used k (Nat.le_of_succ_le_succ le) (below used inside)⟩
    exact atMost_foldl (Entries.mem_of_get? rule) ⟨table, false⟩ allowed

/-- As many settled levels as there are rules are all of them. -/
theorem Settled.exact (sound : Sound rules table) (settled : Settled rules j table)
    (enough : rules.length ≤ j) : Exact rules table := by
  intro name k
  refine ⟨sound name k, fun h => ?_⟩
  by_cases low : k ≤ j
  · exact settled name k low h
  · have early := settled name rules.length enough h.length
    exact early.mono (by omega)

theorem relaxRule_changed (state : Relaxation) (rule : String × List Expansion)
    (same : (relaxRule state rule).changed = false) : relaxRule state rule = state := by
  by_cases lower : (ofRule state.table rule.2).lt (ofName state.table rule.1) = true
  · simp [relaxRule, lower] at same
  · simp [relaxRule, lower]

theorem foldl_unchanged {rest : Rules} {state : Relaxation}
    (same : (rest.foldl relaxRule state).changed = false) :
    rest.foldl relaxRule state = state ∧ ∀ rule ∈ rest, relaxRule state rule = state := by
  induction rest generalizing state with
  | nil => exact ⟨rfl, by simp⟩
  | cons rule rest ih =>
    obtain ⟨later, kept⟩ := ih same
    have first : relaxRule state rule = state := by
      apply relaxRule_changed
      rw [List.foldl_cons, later] at same
      exact same
    rw [first] at later kept
    refine ⟨by rw [List.foldl_cons, first, later], ?_⟩
    intro r inside
    rcases List.mem_cons.mp inside with rfl | behind
    · exact first
    · exact kept r behind

theorem exact_of_unchanged (sound : Sound rules table) (same : (pass rules table).changed = false) :
    Exact rules table := by
  intro name k
  refine ⟨sound name k, fun h => ?_⟩
  induction k generalizing name with
  | zero => exact False.elim h
  | succ k ih =>
    obtain ⟨alternatives, rule, e, chosen, below⟩ := h
    have kept := (foldl_unchanged same).2 _ (Entries.mem_of_get? rule)
    have allowed : (ofRule table alternatives).AtMost (k + 1) :=
      atMost_ofRule_succ.mpr ⟨e, chosen, fun used inside => ih used (below used inside)⟩
    have relaxed := (atMost_relaxRule ⟨table, false⟩ (name, alternatives)).mpr
      (.inr ⟨rfl, allowed⟩)
    rw [kept] at relaxed
    exact relaxed

theorem Exact.unchanged (mapping : rules.Distinct) (exact : Exact rules table) :
    (pass rules table).changed = false ∧ (pass rules table).table = table := by
  have idle : ∀ rest : Rules, (∀ rule ∈ rest, rule ∈ rules) →
      rest.foldl relaxRule ⟨table, false⟩ = ⟨table, false⟩ := by
    intro rest
    induction rest with
    | nil => exact fun _ => rfl
    | cons rule rest ih =>
      intro all
      have own := Entries.get?_of_mem mapping (all rule List.mem_cons_self)
      have still : relaxRule ⟨table, false⟩ rule = ⟨table, false⟩ := by
        refine if_neg fun lower => ?_
        obtain ⟨k, allowed, above⟩ := lt_iff.mp lower
        cases k with
        | zero => exact not_atMost_ofRule_zero allowed
        | succ k =>
          obtain ⟨e, chosen, below⟩ := atMost_ofRule_succ.mp allowed
          exact above ((exact rule.1 (k + 1)).mpr ⟨rule.2, own, e, chosen,
            fun used inside => (exact used k).mp (below used inside)⟩)
      rw [List.foldl_cons, still]
      exact ih fun r inside => all r (List.mem_cons_of_mem rule inside)
  have whole : pass rules table = ⟨table, false⟩ := idle rules fun _ inside => inside
  rw [whole]
  exact ⟨rfl, rfl⟩

theorem settle_exact (mapping : rules.Distinct) (fuel : Nat) {estimate : Estimate}
    (sound : Sound rules estimate.table) (settled : Settled rules j estimate.table)
    (enough : rules.length < fuel + j) :
    Exact rules (settle rules fuel estimate).table ∧
      (pass rules (settle rules fuel estimate).table).changed = false := by
  induction fuel generalizing j estimate with
  | zero =>
    have exact := settled.exact sound (by omega)
    exact ⟨exact, (exact.unchanged mapping).1⟩
  | succ fuel ih =>
    rw [settle]
    by_cases more : (pass rules estimate.table).changed = true
    · simp only [more, if_true]
      exact ih (sound.pass mapping) settled.pass (by omega)
    · have same : (pass rules estimate.table).changed = false := by simpa using more
      have exact := exact_of_unchanged sound same
      have still := (exact.unchanged mapping).2
      simp only [same, Bool.false_eq_true, if_false, still]
      exact ⟨exact, trivial⟩

theorem ofName_start (rules : Rules) (name : String) : ofName (start rules) name = infinite := by
  induction rules with
  | nil => rfl
  | cons rule rest ih =>
    by_cases here : rule.1 = name
    · simp [ofName, start, Entries.get?, here]
    · simpa [ofName, start, Entries.get?, here] using ih

theorem estimate_exact (mapping : rules.Distinct) :
    Exact rules (estimate rules).table ∧ (pass rules (estimate rules).table).changed = false := by
  apply settle_exact mapping (rules.length + 1) (j := 0)
  · intro name k h
    rw [ofName_start] at h
    exact False.elim h
  · intro name k le h
    obtain rfl := Nat.le_zero.mp le
    exact False.elim h
  · omega

theorem keys_foldl {rest : Rules} {state : Relaxation}
    (inside : ∀ rule ∈ rest, rule.1 ∈ state.table.keys) :
    (rest.foldl relaxRule state).table.keys = state.table.keys := by
  induction rest generalizing state with
  | nil => rfl
  | cons rule rest ih =>
    have same : (relaxRule state rule).table.keys = state.table.keys := by
      unfold relaxRule
      dsimp only
      split
      · rw [Entries.keys_put, if_pos (inside rule List.mem_cons_self)]
      · rfl
    rw [List.foldl_cons, ih, same]
    intro r behind
    rw [same]
    exact inside r (List.mem_cons_of_mem rule behind)

theorem keys_pass (same : table.keys = rules.keys) : (pass rules table).table.keys = rules.keys := by
  rw [← same]
  apply keys_foldl
  intro rule inside
  rw [same]
  exact List.mem_map.mpr ⟨rule, inside, rfl⟩

theorem keys_settle (fuel : Nat) {estimate : Estimate} (same : estimate.table.keys = rules.keys) :
    (settle rules fuel estimate).table.keys = rules.keys := by
  induction fuel generalizing estimate with
  | zero => exact same
  | succ fuel ih =>
    rw [settle]
    split
    · exact ih (keys_pass same)
    · exact keys_pass same

theorem keys_estimate (rules : Rules) : (estimate rules).table.keys = rules.keys := by
  apply keys_settle
  simp [start, Entries.keys]

end GrammarSampler.Cost
