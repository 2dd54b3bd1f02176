import GrammarSampler.Cost.Estimate
import Std.Data.HashMap

/-!
Costs over numbered rules. Names are looked up once, before the first pass; the passes work on an
array. The estimate is the one by names.
-/
namespace GrammarSampler.Cost.Numbered

structure Rule where
  place : Nat
  alternatives : List (List Nat)
deriving DecidableEq, Repr

def places (names : List String) : Std.HashMap String Nat :=
  names.zipIdx.foldr (fun (name, i) found => found.insert name i) ∅

/-- Names without a rule have a place behind all rules. -/
def number (rules : Rules) : List Rule :=
  let found := places rules.keys
  let count := rules.length
  rules.map fun (name, alternatives) =>
    ⟨found.getD name count, alternatives.map fun e => e.references.map fun used => found.getD used count⟩

def costAt (costs : Array Cost) (place : Nat) : Cost := costs.getD place infinite

def ofRule (costs : Array Cost) (alternatives : List (List Nat)) : Cost :=
  (best (alternatives.map fun used => worst (used.map (costAt costs)))).next

structure Relaxation where
  costs : Array Cost
  changed : Bool
deriving DecidableEq, Repr

def relaxRule (state : Relaxation) (rule : Rule) : Relaxation :=
  let cost := ofRule state.costs rule.alternatives
  if cost.lt (costAt state.costs rule.place) then ⟨state.costs.setIfInBounds rule.place cost, true⟩
  else state

def pass (rules : List Rule) (costs : Array Cost) : Relaxation := rules.foldl relaxRule ⟨costs, false⟩

def settle (rules : List Rule) : Nat → Array Cost → Nat → Array Cost × Nat
  | 0, costs, passes => (costs, passes)
  | fuel + 1, costs, passes =>
    let result := pass rules costs
    if result.changed then settle rules fuel result.costs (passes + 1) else (result.costs, passes + 1)

def estimate (rules : Rules) : Estimate :=
  let (costs, passes) :=
    settle (number rules) (rules.length + 1) (Array.replicate rules.length infinite) 0
  ⟨rules.keys.zip costs.toList, passes⟩

def estimate? (rules : Rules) : Except Fault Estimate :=
  match rules.undefined? with
  | some name => .error (.missingName name)
  | none => .ok (estimate rules)

theorem getD_foldr_insert (names : List String) (name : String) (first absent : Nat) :
    ((names.zipIdx first).foldr (fun (name, i) found => found.insert name i)
      (∅ : Std.HashMap String Nat)).getD name absent =
      if name ∈ names then first + names.idxOf name else absent := by
  induction names generalizing first with
  | nil => simp
  | cons key rest ih =>
    by_cases same : key = name
    · simp [same]
    · have apart : ¬name = key := fun h => same h.symm
      have differs : (key == name) = false := by simpa using same
      simp only [List.zipIdx_cons, List.foldr_cons, Std.HashMap.getD_insert, differs, ih,
        List.idxOf_cons, List.mem_cons, apart, false_or, Bool.false_eq_true, if_false, cond_false]
      split <;> omega

theorem getD_places (names : List String) (name : String) :
    (places names).getD name names.length = names.idxOf name := by
  rw [places, getD_foldr_insert, Nat.zero_add]
  split
  · rfl
  · rename_i absent
    exact (List.idxOf_eq_length absent).symm

theorem ofName_zip (keys : List String) (costs : List Cost) (same : costs.length = keys.length)
    (name : String) : ofName (keys.zip costs) name = costs.getD (keys.idxOf name) infinite := by
  induction keys generalizing costs with
  | nil => simp_all [ofName, Entries.get?]
  | cons key rest ih =>
    cases costs with
    | nil => simp at same
    | cons cost later =>
      have found := ih later (by simpa using same)
      rw [List.idxOf_cons]
      by_cases here : key = name
      · simp [ofName, Entries.get?, here]
      · have differs : (key == name) = false := by simpa using here
        simp only [ofName] at found
        simp [ofName, Entries.get?, here, differs, found]

theorem put_zip (keys : List String) (costs : List Cost) (same : costs.length = keys.length)
    {name : String} (inside : name ∈ keys) (cost : Cost) :
    Entries.put name cost (keys.zip costs) = keys.zip (costs.set (keys.idxOf name) cost) := by
  induction keys generalizing costs with
  | nil => simp at inside
  | cons key rest ih =>
    cases costs with
    | nil => simp at same
    | cons old later =>
      rw [List.idxOf_cons]
      by_cases here : key = name
      · simp [Entries.put, here]
      · have apart : ¬name = key := fun h => here h.symm
        have differs : (key == name) = false := by simpa using here
        have behind : name ∈ rest := by simpa [apart] using inside
        simp [Entries.put, here, differs, ih later (by simpa using same) behind]

def tableOf (keys : List String) (costs : Array Cost) : CostTable Cost := keys.zip costs.toList

def placed (keys : List String) (rule : String × List Expansion) : Rule :=
  ⟨keys.idxOf rule.1, rule.2.map fun e => e.references.map keys.idxOf⟩

theorem number_eq (rules : Rules) : number rules = rules.map (placed rules.keys) := by
  have count : rules.length = rules.keys.length := by simp [Entries.keys]
  simp only [number, count, getD_places]
  rfl

theorem ofName_tableOf {keys : List String} {costs : Array Cost} (same : costs.size = keys.length)
    (name : String) : ofName (tableOf keys costs) name = costAt costs (keys.idxOf name) := by
  simp [tableOf, ofName_zip keys costs.toList (by simpa using same), costAt]

theorem ofRule_tableOf {keys : List String} {costs : Array Cost} (same : costs.size = keys.length)
    (rule : String × List Expansion) :
    Cost.ofRule (tableOf keys costs) rule.2 = ofRule costs (placed keys rule).alternatives := by
  have name : ofName (tableOf keys costs) = fun name => costAt costs (keys.idxOf name) :=
    funext (ofName_tableOf same)
  have expansion : ofExpansion (tableOf keys costs) =
      fun e => worst ((e.references.map fun used => keys.idxOf used).map (costAt costs)) := by
    funext e
    simp [ofExpansion, name, Function.comp_def]
  simp [Cost.ofRule, ofRule, placed, expansion, Function.comp_def]

theorem relaxRule_tableOf {keys : List String} {costs : Array Cost} (same : costs.size = keys.length)
    (changed : Bool) {rule : String × List Expansion} (inside : rule.1 ∈ keys) :
    let state := relaxRule ⟨costs, changed⟩ (placed keys rule)
    Cost.relaxRule ⟨tableOf keys costs, changed⟩ rule = ⟨tableOf keys state.costs, state.changed⟩ ∧
      state.costs.size = keys.length := by
  intro state
  let cost := ofRule costs (placed keys rule).alternatives
  have put := put_zip keys costs.toList (by simpa using same) inside cost
  by_cases lower : cost.lt (costAt costs (keys.idxOf rule.1)) = true
  · have after : state = ⟨costs.setIfInBounds (keys.idxOf rule.1) cost, true⟩ := if_pos lower
    have named : Cost.relaxRule ⟨tableOf keys costs, changed⟩ rule =
        ⟨(tableOf keys costs).put rule.1 cost, true⟩ := by
      rw [Cost.relaxRule, ofRule_tableOf same, ofName_tableOf same]
      exact if_pos lower
    rw [named, after]
    exact ⟨by simp [tableOf, put], by simp [same]⟩
  · have after : state = ⟨costs, changed⟩ := if_neg lower
    have named : Cost.relaxRule ⟨tableOf keys costs, changed⟩ rule = ⟨tableOf keys costs, changed⟩ := by
      rw [Cost.relaxRule, ofRule_tableOf same, ofName_tableOf same]
      exact if_neg lower
    rw [named, after]
    exact ⟨rfl, same⟩

theorem foldl_tableOf {keys : List String} (rules : Rules) (inside : ∀ rule ∈ rules, rule.1 ∈ keys)
    {costs : Array Cost} (same : costs.size = keys.length) (changed : Bool) :
    let state := (rules.map (placed keys)).foldl relaxRule ⟨costs, changed⟩
    rules.foldl Cost.relaxRule ⟨tableOf keys costs, changed⟩ =
        ⟨tableOf keys state.costs, state.changed⟩ ∧ state.costs.size = keys.length := by
  induction rules generalizing costs changed with
  | nil => exact ⟨rfl, same⟩
  | cons rule rest ih =>
    obtain ⟨first, kept⟩ := relaxRule_tableOf same changed (inside rule (by simp))
    have later := ih (fun r h => inside r (by simp [h])) kept
      (relaxRule ⟨costs, changed⟩ (placed keys rule)).changed
    simpa only [List.map_cons, List.foldl_cons, first] using later

theorem settle_tableOf (rules : Rules) (fuel : Nat) (costs : Array Cost)
    (same : costs.size = rules.keys.length) (passes : Nat) :
    let found := settle (number rules) fuel costs passes
    Cost.settle rules fuel ⟨tableOf rules.keys costs, passes⟩ = ⟨tableOf rules.keys found.1, found.2⟩ := by
  induction fuel generalizing costs passes with
  | zero => rfl
  | succ fuel ih =>
    obtain ⟨first, kept⟩ := foldl_tableOf rules
      (fun rule h => by simpa [Entries.keys] using ⟨rule.2, h⟩) same false
    have named : Cost.pass rules (tableOf rules.keys costs) =
        ⟨tableOf rules.keys (pass (number rules) costs).costs, (pass (number rules) costs).changed⟩ := by
      simpa only [number_eq, pass, Cost.pass] using first
    rw [← number_eq] at kept
    simp only [Cost.settle, settle, named]
    by_cases more : (pass (number rules) costs).changed
    · simp only [more, if_true]
      exact ih _ kept (passes + 1)
    · simp [more]

theorem tableOf_infinite (rules : Rules) :
    tableOf rules.keys (Array.replicate rules.length infinite) = start rules := by
  simp only [tableOf, start, Entries.keys, Array.toList_replicate]
  induction rules with
  | nil => rfl
  | cons rule rest ih => simp [List.replicate_succ, ih]

theorem estimate_eq (rules : Rules) : estimate rules = Cost.estimate rules := by
  have found := settle_tableOf rules (rules.length + 1) (Array.replicate rules.length infinite)
    (by simp [Entries.keys]) 0
  rw [tableOf_infinite] at found
  simp only [Cost.estimate, found, estimate, tableOf]

end GrammarSampler.Cost.Numbered
