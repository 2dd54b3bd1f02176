import GrammarSampler.Proofs.Grammar.Derivation
import GrammarSampler.Tree.Growth
import Mathlib.Data.List.Nodup

/-!
Trees that grow by rules. Every expanded name records an alternative of its own rule and its names
come later; the worklist holds the open names, each once.
-/
namespace GrammarSampler.Growth

structure Recorded (rules : Rules) (names : Array Bud) (i : Nat) (name : String) (x : Expanded) :
    Prop where
  rule : ∃ (index : Nat) (alternatives : List Expansion) (e : Expansion), x.alternative = index ∧
    rules.get? name = some alternatives ∧ alternatives[index]? = some e ∧ x.symbols = e.symbols
  later : i < x.first
  below : ∀ (k : Nat) (used : String), (x.symbols.filterMap Symbol.name?)[k]? = some used →
    ∃ c, names[x.first + k]? = some c ∧ c.name = used

structure Follows (rules : Rules) (start : String) (g : Growth) : Prop where
  root : ∃ b, g.names[0]? = some b ∧ b.name = start
  opened : ∀ i, i ∈ g.worklist.toList ↔ ∃ b, g.names[i]? = some b ∧ b.expanded = none
  nodup : g.worklist.toList.Nodup
  named : ∀ (i : Nat) (b : Bud), g.names[i]? = some b → b.name ∈ rules.keys
  recorded : ∀ (i : Nat) (b : Bud) (x : Expanded), g.names[i]? = some b → b.expanded = some x →
    Recorded rules g.names i b.name x

theorem toList_foldl_push (depth : Nat) (new : List String) (names : Array Bud) :
    (new.foldl (fun names name => names.push ⟨name, depth, none⟩) names).toList =
      names.toList ++ new.map (⟨·, depth, none⟩) := by simp

section Expanding
variable {g : Growth} {number p : Nat} {alternative : Int} {e : Expansion} {b : Bud}

theorem toList_names_expand : (g.expandNumber number p alternative e).names.toList =
    (g.names.modify number fun b =>
      { b with expanded := some ⟨alternative, e.symbols, g.names.size⟩ }).toList ++
    e.references.map (⟨·, (g.names.getD number ⟨"", 0, none⟩).depth + 1, none⟩) := by
  rw [expandNumber, toList_foldl_push]

theorem names_expand_self (found : g.names[number]? = some b) :
    (g.expandNumber number p alternative e).names[number]? =
      some { b with expanded := some ⟨alternative, e.symbols, g.names.size⟩ } := by
  have inside : number < g.names.size := (Array.getElem?_eq_some_iff.mp found).1
  rw [← Array.getElem?_toList, toList_names_expand, List.getElem?_append_left (by simpa)]
  simp [found]

theorem names_expand_other {i : Nat} (inside : i < g.names.size) (apart : i ≠ number) :
    (g.expandNumber number p alternative e).names[i]? = g.names[i]? := by
  rw [← Array.getElem?_toList, toList_names_expand, List.getElem?_append_left (by simpa)]
  simp [apart.symm]

theorem names_expand_new (k : Nat) : (g.expandNumber number p alternative e).names[g.names.size + k]? =
    e.references[k]?.map (⟨·, (g.names.getD number ⟨"", 0, none⟩).depth + 1, none⟩) := by
  rw [← Array.getElem?_toList, toList_names_expand, List.getElem?_append_right (by simp)]
  simp

theorem lt_openCount {g : Growth} {p number : Nat}
    (place : g.worklist.toList[p]? = some number) : p < g.openCount := by
  rw [openCount, ← Worklist.length_toList]
  exact (List.getElem?_eq_some_iff.mp place).1

theorem worklist_expand (inside : p < g.openCount) :
    (g.expandNumber number p alternative e).worklist.toList =
      g.worklist.toList.take p ++ List.range' g.names.size e.references.length ++
        g.worklist.toList.drop (p + 1) := by
  exact Worklist.toList_replace_single g.worklist p _ inside

theorem worklist_expand_between {before after : List Nat}
    (split : g.worklist.toList = before ++ number :: after) (length : before.length = p) :
    (g.expandNumber number p alternative e).worklist.toList =
      before ++ (List.range' g.names.size e.references.length ++ after) := by
  have place : g.worklist.toList[p]? = some number := by
    rw [split, ← length]
    simp
  rw [worklist_expand (lt_openCount place), split, List.take_left' length, List.append_cons,
    List.drop_left' (by simpa using length), List.append_assoc]

theorem names_expand_cases {i : Nat} {c : Bud} (place : g.names[number]? = some b)
    (found : (g.expandNumber number p alternative e).names[i]? = some c) :
    (i = number ∧ c = { b with expanded := some ⟨alternative, e.symbols, g.names.size⟩ }) ∨
      (i < g.names.size ∧ i ≠ number ∧ g.names[i]? = some c) ∨
      ∃ k used, i = g.names.size + k ∧ e.references[k]? = some used ∧ c.name = used ∧
        c.expanded = none := by
  by_cases here : i = number
  · subst here
    rw [names_expand_self place] at found
    exact .inl ⟨rfl, (Option.some.inj found).symm⟩
  · by_cases old : i < g.names.size
    · rw [names_expand_other old here] at found
      exact .inr (.inl ⟨old, here, found⟩)
    · obtain ⟨k, rfl⟩ := Nat.exists_eq_add_of_le (Nat.le_of_not_lt old)
      rw [names_expand_new] at found
      cases named : e.references[k]? with
      | none => rw [named] at found; cases found
      | some used =>
        rw [named] at found
        cases found
        exact .inr (.inr ⟨k, used, rfl, named, rfl, rfl⟩)

theorem names_expand_kept {i : Nat} {c : Bud} (found : g.names[i]? = some c) :
    ∃ d, (g.expandNumber number p alternative e).names[i]? = some d ∧ d.name = c.name := by
  by_cases here : i = number
  · subst here
    exact ⟨_, names_expand_self found, rfl⟩
  · have inside : i < g.names.size := (Array.getElem?_eq_some_iff.mp found).1
    exact ⟨c, by rw [names_expand_other inside here, found], rfl⟩

end Expanding

theorem Follows.start {rules : Rules} {name : String} (known : name ∈ rules.keys) :
    Follows rules name (.start name) := by
  have only : ∀ (i : Nat) (b : Bud), (Growth.start name).names[i]? = some b →
      i = 0 ∧ b = ⟨name, 0, none⟩ := by
    intro i b found
    cases i with
    | zero => exact ⟨rfl, (Option.some.inj found).symm⟩
    | succ i => simp [Growth.start] at found
  refine ⟨⟨_, rfl, rfl⟩, ?_, by simp [Growth.start, Worklist.single, Worklist.toList], ?_, ?_⟩
  · intro i
    constructor
    · intro inside
      rw [List.mem_singleton.mp inside]
      exact ⟨_, rfl, rfl⟩
    · rintro ⟨b, found, -⟩
      rw [(only i b found).1]
      exact List.mem_singleton_self 0
  · intro i b found
    rw [(only i b found).2]
    exact known
  · intro i b x found expanded
    rw [(only i b found).2] at expanded
    cases expanded

namespace Follows
variable {rules : Rules} {start : String} {g : Growth} {number p index : Nat} {b : Bud}
  {alternatives : List Expansion} {e : Expansion}

theorem at_position (h : Follows rules start g) (place : g.worklist.toList[p]? = some number) :
    ∃ b, g.names[number]? = some b ∧ b.expanded = none :=
  (h.opened number).mp (List.mem_of_getElem? place)

theorem size_le_of_mem (h : Follows rules start g) {i : Nat} (inside : i ∈ g.worklist.toList) :
    i < g.names.size := by
  obtain ⟨b, found, -⟩ := (h.opened i).mp inside
  exact (Array.getElem?_eq_some_iff.mp found).1

theorem mem_of_take_drop {l : List Nat} (distinct : l.Nodup) (place : l[p]? = some number)
    {i : Nat} : i ∈ l.take p ∨ i ∈ l.drop (p + 1) ↔ i ∈ l ∧ i ≠ number := by
  have inside : p < l.length := (List.getElem?_eq_some_iff.mp place).1
  have split : l = l.take p ++ number :: l.drop (p + 1) := by
    rw [← (List.getElem?_eq_some_iff.mp place).2, ← List.drop_eq_getElem_cons inside,
      List.take_append_drop]
  rw [split, List.nodup_append, List.nodup_cons] at distinct
  obtain ⟨-, ⟨absent, -⟩, apart⟩ := distinct
  conv => rhs; rw [split]
  rw [List.mem_append, List.mem_cons]
  constructor
  · rintro (before | behind)
    · exact ⟨.inl before, fun same => apart i before number List.mem_cons_self same⟩
    · exact ⟨.inr (.inr behind), fun same => absent (same ▸ behind)⟩
  · rintro ⟨before | here | behind, other⟩
    · exact .inl before
    · exact absurd here other
    · exact .inr behind

theorem nodup_expand (h : Follows rules start g) (inside : p < g.openCount) {alternative : Int} :
    (g.expandNumber number p alternative e).worklist.toList.Nodup := by
  rw [worklist_expand inside, List.append_assoc, List.nodup_append, List.nodup_append]
  have old : ∀ i ∈ g.worklist.toList, i < g.names.size := fun i => h.size_le_of_mem
  refine ⟨h.nodup.sublist (List.take_sublist _ _), ⟨List.nodup_range', ?_, ?_⟩, ?_⟩
  · exact h.nodup.sublist (List.drop_sublist _ _)
  · intro i new j behind same
    have := (List.mem_range'_1.mp new).1
    have := old j (List.mem_of_mem_drop behind)
    omega
  · intro i before j rest same
    rcases List.mem_append.mp rest with new | behind
    · have := (List.mem_range'_1.mp new).1
      have := old i (List.mem_of_mem_take before)
      omega
    · exact List.disjoint_take_drop h.nodup (Nat.le_succ p) before (same ▸ behind)

theorem recorded_expand (h : Follows rules start g) (place : g.names[number]? = some b)
    (rule : rules.get? b.name = some alternatives) (chosen : alternatives[index]? = some e)
    {i : Nat} {c : Bud} {x : Expanded}
    (found : (g.expandNumber number p index e).names[i]? = some c) (expanded : c.expanded = some x) :
    Recorded rules (g.expandNumber number p index e).names i c.name x := by
  rcases names_expand_cases place found with ⟨rfl, rfl⟩ | ⟨-, -, old⟩ | ⟨_, _, _, _, _, opened⟩
  · cases expanded
    refine ⟨⟨index, alternatives, e, rfl, rule, chosen, rfl⟩, ?_, ?_⟩
    · exact (Array.getElem?_eq_some_iff.mp place).1
    · intro k used named
      have new := @names_expand_new g i p index e k
      rw [show e.references[k]? = some used from named] at new
      exact ⟨_, new, rfl⟩
  · obtain ⟨own, later, below⟩ := h.recorded i c x old expanded
    refine ⟨own, later, fun k used named => ?_⟩
    obtain ⟨d, there, rfl⟩ := below k used named
    exact names_expand_kept there
  · rw [opened] at expanded
    cases expanded

theorem expand (h : Follows rules start g) (place : g.worklist.toList[p]? = some number)
    (found : g.names[number]? = some b) (rule : rules.get? b.name = some alternatives)
    (chosen : alternatives[index]? = some e) (closed : ∀ used ∈ e.references, used ∈ rules.keys) :
    Follows rules start (g.expandNumber number p index e) := by
  have inside := lt_openCount place
  have items : ∀ i, i ∈ (g.expandNumber number p index e).worklist.toList ↔
      (i ∈ g.worklist.toList ∧ i ≠ number) ∨
        g.names.size ≤ i ∧ i < g.names.size + e.references.length := by
    intro i
    rw [worklist_expand inside, List.mem_append, List.mem_append, List.mem_range'_1,
      or_right_comm, mem_of_take_drop h.nodup place]
  refine ⟨?_, ?_, h.nodup_expand inside, ?_, fun i c x => h.recorded_expand found rule chosen⟩
  · obtain ⟨r, first, named⟩ := h.root
    obtain ⟨d, there, same⟩ := names_expand_kept first
    exact ⟨d, there, same.trans named⟩
  · intro i
    rw [items]
    constructor
    · rintro (⟨old, apart⟩ | ⟨above, below⟩)
      · obtain ⟨c, there, opened⟩ := (h.opened i).mp old
        exact ⟨c, by rw [names_expand_other (h.size_le_of_mem old) apart, there], opened⟩
      · obtain ⟨k, rfl⟩ := Nat.exists_eq_add_of_le above
        rw [names_expand_new, List.getElem?_eq_getElem (by omega)]
        exact ⟨_, rfl, rfl⟩
    · rintro ⟨c, here, opened⟩
      rcases names_expand_cases found here with ⟨-, rfl⟩ | ⟨-, apart, old⟩ | ⟨k, used, rfl, named, -⟩
      · cases opened
      · exact .inl ⟨(h.opened i).mpr ⟨c, old, opened⟩, apart⟩
      · have := (List.getElem?_eq_some_iff.mp named).1
        exact .inr ⟨by omega, by omega⟩
  · intro i c here
    rcases names_expand_cases found here with ⟨rfl, rfl⟩ | ⟨-, -, old⟩ | ⟨k, used, -, named, rfl, -⟩
    · exact h.named i b found
    · exact h.named i c old
    · exact closed c.name (List.mem_of_getElem? named)

end Follows

theorem number?_natCast {g : Growth} {p number : Nat} :
    g.number? (p : Int) = .ok number ↔ g.worklist.toList[p]? = some number := by
  rw [number?, Worklist.get?_ofNat]
  cases g.worklist.toList[p]? <;> simp

theorem bud_eq {g : Growth} {number : Nat} {b : Bud} (found : g.names[number]? = some b) :
    g.bud number = b := by
  rw [bud, Array.getD_eq_getD_getElem?, found]
  rfl

theorem found_bud {g : Growth} {i : Nat} (inside : i < g.names.size) :
    g.names[i]? = some (g.bud i) := by
  have found := Array.getElem?_eq_getElem inside
  rw [found, bud_eq found]

def openNames (g : Growth) : List String := g.worklist.toList.map fun i => (g.bud i).name

theorem length_openNames (g : Growth) : g.openNames.length = g.openCount := by
  rw [openNames, List.length_map, Worklist.length_toList]
  rfl

theorem getElem?_openNames {g : Growth} {p number : Nat} {b : Bud}
    (position : g.worklist.toList[p]? = some number) (leaf : g.names[number]? = some b) :
    g.openNames[p]? = some b.name := by
  rw [openNames, List.getElem?_map, position, Option.map_some, bud, Array.getD_eq_getD_getElem?, leaf]
  rfl

theorem bud_name_expand {g : Growth} {number p i : Nat} {alternative : Int} {e : Expansion}
    (inside : i < g.names.size) :
    ((g.expandNumber number p alternative e).bud i).name = (g.bud i).name := by
  obtain ⟨d, found, same⟩ := @names_expand_kept g number p alternative e i _
    (Array.getElem?_eq_getElem inside)
  rw [bud, bud, Array.getD_eq_getD_getElem?, Array.getD_eq_getD_getElem?, found,
    Array.getElem?_eq_getElem inside]
  exact same

theorem Follows.openNames_expand {rules : Rules} {start : String} {g : Growth}
    (h : Follows rules start g) {number p : Nat} {alternative : Int} {e : Expansion}
    (inside : p < g.openCount) : (g.expandNumber number p alternative e).openNames =
      g.openNames.take p ++ e.references ++ g.openNames.drop (p + 1) := by
  have old : ∀ l : List Nat, (∀ i ∈ l, i ∈ g.worklist.toList) →
      (l.map fun i => ((g.expandNumber number p alternative e).bud i).name) =
        l.map fun i => (g.bud i).name := by
    intro l from_
    exact List.map_congr_left fun i mem => bud_name_expand (h.size_le_of_mem (from_ i mem))
  have new : ((List.range' g.names.size e.references.length).map fun i =>
      ((g.expandNumber number p alternative e).bud i).name) = e.references := by
    apply List.ext_getElem (by simp)
    intro k before after
    have named := @names_expand_new g number p alternative e k
    rw [List.getElem?_eq_getElem after] at named
    rw [List.getElem_map, List.getElem_range', Nat.one_mul, bud, Array.getD_eq_getD_getElem?, named]
    rfl
  rw [openNames, worklist_expand inside, List.map_append, List.map_append, new,
    old _ fun i => List.mem_of_mem_take, old _ fun i => List.mem_of_mem_drop, openNames,
    List.map_take, List.map_drop]

end GrammarSampler.Growth
