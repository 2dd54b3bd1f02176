import GrammarSampler.Proofs.Tree.Grown

/-!
Names under other numbers. The numbers tell in which order the names of a growing tree came up; what
has been grown does not depend on them. Expansions of two open leaves lead to the same tree in either
order, with the same leaves open.
-/
namespace GrammarSampler.Growth

def Place.renumber (r : Nat → Nat) : Place → Place
  | text t => text t
  | name i => name (r i)

structure Carried (r : Nat → Nat) (x y : Expanded) : Prop where
  alternative : y.alternative = x.alternative
  symbols : y.symbols = x.symbols
  first : ∀ k < (x.symbols.filterMap Symbol.name?).length, r (x.first + k) = y.first + k

structure Alike (r : Nat → Nat) (b c : Bud) : Prop where
  name : c.name = b.name
  depth : c.depth = b.depth
  expanded : Option.Rel (Carried r) b.expanded c.expanded

/-- The names of one growth are those of the other under other numbers. -/
structure Renumbered (r : Nat → Nat) (g h : Growth) : Prop where
  root : r 0 = 0
  known : ∀ i < g.names.size, r i < h.names.size
  alike : ∀ i < g.names.size, Alike r (g.bud i) (h.bud (r i))
  worklist : h.worklist.toList = g.worklist.toList.map r
  steps : h.steps = g.steps

theorem ofSymbols_renumber {r : Nat → Nat} {first other : Nat} {symbols : List Symbol}
    (same : ∀ k < (symbols.filterMap Symbol.name?).length, r (first + k) = other + k) :
    Place.ofSymbols other symbols = (Place.ofSymbols first symbols).map (Place.renumber r) := by
  induction symbols generalizing first other with
  | nil => rfl
  | cons s rest ih =>
    cases s with
    | terminal t => rw [Place.ofSymbols, Place.ofSymbols, List.map_cons, ih same]; rfl
    | nonterminal used =>
      have here : r first = other := same 0 (by simp [Symbol.name?])
      have later := @ih (first + 1) (other + 1) fun k inside => by
        have next := same (k + 1) (by simpa [Symbol.name?] using inside)
        rwa [← Nat.add_assoc, ← Nat.add_assoc, Nat.add_right_comm, Nat.add_right_comm other] at next
      rw [Place.ofSymbols, Place.ofSymbols, List.map_cons, ← later, Place.renumber, here]

theorem carried_cases {r : Nat → Nat} {x y : Option Expanded}
    (related : Option.Rel (Carried r) x y) :
    (x = none ∧ y = none) ∨ ∃ x' y', x = some x' ∧ y = some y' ∧ Carried r x' y' := by
  cases related with
  | none => exact .inl ⟨rfl, rfl⟩
  | some carried => exact .inr ⟨_, _, rfl, rfl, carried⟩

namespace Renumbered
variable {r : Nat → Nat} {g h : Growth} (same : Renumbered r g h)
include same

theorem below_eq {i : Nat} (inside : i < g.names.size) :
    below h.names (.name (r i)) = (below g.names (.name i)).map (Place.renumber r) := by
  have found := found_bud inside
  have found' := found_bud (same.known i inside)
  rcases carried_cases (same.alike i inside).expanded with ⟨own, own'⟩ | ⟨x, y, own, own', carried⟩
  · rw [below_open found own, below_open found' own']
    rfl
  · rw [below_expanded found own, below_expanded found' own', carried.symbols]
    exact ofSymbols_renumber carried.first

theorem walkFrom_eq (linked : Linked g.names) (linked' : Linked h.names) (q : Place)
    (known : ∀ i, q = .name i → i < g.names.size) (depth : Nat) :
    walkFrom h.names depth (q.renumber r) =
      (walkFrom g.names depth q).map fun (d, q) => (d, q.renumber r) := by
  induction q using linked.induct generalizing depth with
  | step q ih =>
    have below_ : below h.names (q.renumber r) = (below g.names q).map (Place.renumber r) := by
      cases q with
      | text t => rfl
      | name i => exact same.below_eq (known i rfl)
    rw [linked.walkFrom_eq, linked'.walkFrom_eq, below_, List.map_cons, List.map_flatMap,
      List.flatMap_map, List.cons.injEq]
    refine ⟨rfl, List.flatMap_congr fun q' inside => ih q' inside (fun j is => ?_) (depth + 1)⟩
    subst is
    cases q with
    | text t => cases inside
    | name i => exact (linked i j inside).2

theorem tree_place (linked : Linked g.names) (linked' : Linked h.names) (q : Place)
    (known : ∀ i, q = .name i → i < g.names.size) :
    (q.renumber r).tree (treeAt h.names) = q.tree (treeAt g.names) := by
  induction q using linked.induct with
  | step q ih =>
    cases q with
    | text t => rfl
    | name i =>
      have inside := known i rfl
      have found := found_bud inside
      have found' := found_bud (same.known i inside)
      have children : (below h.names (.name (r i))).map (Place.tree (treeAt h.names)) =
          (below g.names (.name i)).map (Place.tree (treeAt g.names)) := by
        rw [same.below_eq inside, List.map_map]
        refine List.map_congr_left fun q' below_ => ih q' below_ fun j is => ?_
        subst is
        exact (linked i j below_).2
      change treeAt h.names (r i) = treeAt g.names i
      rw [linked.treeAt_eq_tree found, linked'.treeAt_eq_tree found', Bud.tree, Bud.tree,
        (same.alike i inside).name]
      rcases carried_cases (same.alike i inside).expanded with
        ⟨own, own'⟩ | ⟨x, y, own, own', carried⟩
      · rw [own, own']
      · rw [below_expanded found own, below_expanded found' own', ← Place.treesFrom_eq,
          ← Place.treesFrom_eq] at children
        rw [own, own']
        dsimp only
        rw [children, carried.alternative]

section Ordered
variable (order : Ordered g) (order' : Ordered h)
include order order'

theorem tree_eq : h.tree = g.tree := by
  rw [Growth.tree_eq, Growth.tree_eq]
  have placed := same.tree_place order.linked order'.linked (.name 0) fun i is => by
    cases is
    exact order.rooted
  rwa [Place.renumber, same.root] at placed

theorem walk_eq : h.walk = g.walk.map fun (d, q) => (d, q.renumber r) := by
  have walked := same.walkFrom_eq order.linked order'.linked (.name 0) (fun i is => by
    cases is
    exact order.rooted) 0
  rwa [Place.renumber, same.root] at walked

theorem buds_eq : h.buds = g.buds := by
  rw [buds, buds, same.worklist, List.map_map]
  refine List.map_congr_left fun i inside => ?_
  obtain ⟨old, unexpanded⟩ := order.isOpen_of_mem inside
  have moved : r i ∈ h.worklist.toList := by
    rw [same.worklist]
    exact List.mem_map_of_mem inside
  have unexpanded' := (order'.isOpen_of_mem moved).2
  have fields : ∀ x y : Bud, x.name = y.name → x.depth = y.depth → x.expanded = y.expanded → x = y := by
    rintro ⟨⟩ ⟨⟩ rfl rfl rfl
    rfl
  exact fields _ _ (same.alike i old).name (same.alike i old).depth (unexpanded'.trans unexpanded.symm)

end Ordered
end Renumbered

/-- Two names expanded one after the other: the first takes the next numbers for what stands below
it, the second those behind them. -/
structure Twice (g : Growth) (i : Nat) (a : Int) (e : Expansion) (j : Nat) (b : Int) (f : Expansion)
    (h : Growth) : Prop where
  size : h.names.size = g.names.size + e.references.length + f.references.length
  other : ∀ m < g.names.size, m ≠ i → m ≠ j → h.bud m = g.bud m
  first : h.bud i = { g.bud i with expanded := some ⟨a, e.symbols, g.names.size⟩ }
  second : h.bud j =
    { g.bud j with expanded := some ⟨b, f.symbols, g.names.size + e.references.length⟩ }
  firstNew : ∀ (c : Nat) (used : String), e.references[c]? = some used →
    h.bud (g.names.size + c) = ⟨used, (g.bud i).depth + 1, none⟩
  secondNew : ∀ (c : Nat) (used : String), f.references[c]? = some used →
    h.bud (g.names.size + e.references.length + c) = ⟨used, (g.bud j).depth + 1, none⟩
  steps : h.steps = g.steps + 2

section Expansions
variable {g : Growth} {i j : Nat} {a b : Int} {e f : Expansion}

theorem twice {p P : Nat} (inside : i < g.names.size) (inside' : j < g.names.size) (apart : i ≠ j) :
    Twice g i a e j b f ((g.expandNumber i p a e).expandNumber j P b f) := by
  have size := @size_expand g i p a e
  have old : ∀ m < g.names.size, m < (g.expandNumber i p a e).names.size := fun m known => by omega
  have kept : (g.expandNumber i p a e).bud j = g.bud j := bud_expand_other inside' apart.symm
  have second := @bud_expand_self _ j P b f _ (found_bud (old j inside'))
  refine ⟨?_, ?_, ?_, ?_, ?_, ?_, rfl⟩
  · rw [size_expand, size]
  · intro m known away away'
    rw [bud_expand_other (old m known) away', bud_expand_other known away]
  · rw [bud_expand_other (old i inside) apart, bud_expand_self (found_bud inside)]
  · rw [second, kept, size]
  · intro c used named
    have bound := (List.getElem?_eq_some_iff.mp named).1
    rw [bud_expand_other (by omega) (by omega), bud_expand_new named]
  · intro c used named
    rw [← size, bud_expand_new named, kept]

end Expansions

/-- The numbers from `size` on in two blocks, the blocks exchanged. -/
def exchange (size first second i : Nat) : Nat :=
  if i < size then i else if i < size + first then i + second else i - first

section Exchange
variable {size k l i : Nat}

theorem exchange_old (old : i < size) : exchange size k l i = i := if_pos old

theorem exchange_first (inside : i < k) : exchange size k l (size + i) = size + l + i := by
  rw [exchange, if_neg (by omega), if_pos (by omega)]
  omega

theorem exchange_second : exchange size k l (size + k + i) = size + i := by
  rw [exchange, if_neg (by omega), if_neg (by omega)]
  omega

theorem exchange_cases (inside : i < size + k + l) :
    i < size ∨ (∃ c < k, i = size + c) ∨ ∃ c < l, i = size + k + c := by
  by_cases old : i < size
  · exact .inl old
  · by_cases first : i < size + k
    · exact .inr (.inl ⟨i - size, by omega, by omega⟩)
    · exact .inr (.inr ⟨i - (size + k), by omega, by omega⟩)

theorem map_exchange_old {l' : List Nat} (old : ∀ i ∈ l', i < size) :
    l'.map (exchange size k l) = l' := by
  conv => rhs; rw [← List.map_id l']
  exact List.map_congr_left fun i inside => exchange_old (old i inside)

theorem map_exchange_first :
    (List.range' size k).map (exchange size k l) = List.range' (size + l) k := by
  rw [List.range'_eq_map_range, List.range'_eq_map_range, List.map_map]
  exact List.map_congr_left fun i inside => exchange_first (List.mem_range.mp inside)

theorem map_exchange_second :
    (List.range' (size + k) l).map (exchange size k l) = List.range' size l := by
  rw [List.range'_eq_map_range, List.range'_eq_map_range, List.map_map]
  exact List.map_congr_left fun _ _ => exchange_second

end Exchange

/-- What stands below an old name of a grown tree is old as well, so that it is carried to itself. -/
theorem Ordered.carried {g : Growth} (order : Ordered g) {k l m : Nat} (old : m < g.names.size) :
    Option.Rel (Carried (exchange g.names.size k l)) (g.bud m).expanded (g.bud m).expanded := by
  cases expanded : (g.bud m).expanded with
  | none => exact .none
  | some x =>
    refine .some ⟨rfl, rfl, fun c inside => exchange_old ?_⟩
    refine (order.linked m (x.first + c) ?_).2
    rw [below_expanded (found_bud old) expanded, ← Place.mem_numbers, Place.numbers_ofSymbols,
      List.mem_range'_1]
    omega

/-- Two expansions in either order are the same but for the numbers of the new names. -/
theorem Twice.renumbered {g h h' : Growth} {i j : Nat} {a b : Int} {e f : Expansion}
    (order : Ordered g) (first : Twice g i a e j b f h) (second : Twice g j b f i a e h')
    (worklist : h'.worklist.toList = h.worklist.toList.map
      (exchange g.names.size e.references.length f.references.length)) :
    Renumbered (exchange g.names.size e.references.length f.references.length) h h' := by
  refine ⟨exchange_old order.rooted, fun m known => ?_, fun m known => ?_, worklist,
    by rw [first.steps, second.steps]⟩
  all_goals
    rw [first.size] at known
    rcases exchange_cases known with old | ⟨c, below, rfl⟩ | ⟨c, below, rfl⟩
  · rw [exchange_old old, second.size]
    omega
  · rw [exchange_first below, second.size]
    omega
  · rw [exchange_second, second.size]
    omega
  · rw [exchange_old old]
    by_cases here : m = i
    · subst here
      rw [first.first, second.second]
      exact ⟨rfl, rfl, .some ⟨rfl, rfl, fun c inside => exchange_first inside⟩⟩
    · by_cases there : m = j
      · subst there
        rw [first.second, second.first]
        exact ⟨rfl, rfl, .some ⟨rfl, rfl, fun c inside => exchange_second⟩⟩
      · rw [first.other m old here there, second.other m old there here]
        exact ⟨rfl, rfl, order.carried old⟩
  · have named := List.getElem?_eq_getElem below
    rw [exchange_first below, first.firstNew c _ named, second.secondNew c _ named]
    exact ⟨rfl, rfl, .none⟩
  · have named := List.getElem?_eq_getElem below
    rw [exchange_second, first.secondNew c _ named, second.firstNew c _ named]
    exact ⟨rfl, rfl, .none⟩

theorem exists_between {l : List Nat} {p q i j : Nat} (first : l[p]? = some i)
    (second : l[q]? = some j) (order : p < q) :
    ∃ before between after, l = before ++ i :: (between ++ j :: after) ∧ before.length = p ∧
      (before ++ i :: between).length = q := by
  obtain ⟨bound, rfl⟩ := List.getElem?_eq_some_iff.mp first
  obtain ⟨bound', rfl⟩ := List.getElem?_eq_some_iff.mp second
  have rest : l.drop (p + 1) =
      (l.drop (p + 1)).take (q - (p + 1)) ++ l[q] :: l.drop (q + 1) := by
    conv => lhs; rw [← List.take_append_drop (q - (p + 1)) (l.drop (p + 1))]
    rw [List.drop_drop, show p + 1 + (q - (p + 1)) = q by omega, List.drop_eq_getElem_cons bound']
  refine ⟨l.take p, (l.drop (p + 1)).take (q - (p + 1)), l.drop (q + 1), ?_, ?_, ?_⟩
  · rw [← rest, ← List.drop_eq_getElem_cons bound, List.take_append_drop]
  · rw [List.length_take]
    omega
  · simp only [List.length_append, List.length_cons, List.length_take, List.length_drop]
    omega

section Around
variable {g : Growth} {i j : Nat} {a b : Int} {e f : Expansion} {before between after : List Nat}
  (split : g.worklist.toList = before ++ i :: (between ++ j :: after))
include split

theorem left_first :
    (g.expandNumber i before.length a e).worklist.toList[
      (before ++ i :: between).length - 1 + e.references.length]? = some j ∧
    ((g.expandNumber i before.length a e).expandNumber j
        ((before ++ i :: between).length - 1 + e.references.length : Nat) b f).worklist.toList =
      before ++ (List.range' g.names.size e.references.length ++ between) ++
        (List.range' (g.names.size + e.references.length) f.references.length ++ after) := by
  have left : (g.expandNumber i before.length a e).worklist.toList =
      before ++ (List.range' g.names.size e.references.length ++ between) ++ j :: after := by
    rw [worklist_expand_between split rfl, List.append_assoc, List.append_assoc]
  have length : (before ++ (List.range' g.names.size e.references.length ++ between)).length =
      (before ++ i :: between).length - 1 + e.references.length := by
    simp only [List.length_append, List.length_cons, List.length_range']
    omega
  refine ⟨?_, ?_⟩
  · rw [left, ← length]
    simp
  · rw [worklist_expand_between left length, size_expand]

theorem right_first :
    (g.expandNumber j (before ++ i :: between).length b f).worklist.toList[before.length]? =
      some i ∧
    ((g.expandNumber j (before ++ i :: between).length b f).expandNumber i before.length a
        e).worklist.toList =
      before ++ (List.range' (g.names.size + f.references.length) e.references.length ++ between) ++
        (List.range' g.names.size f.references.length ++ after) := by
  have behind : g.worklist.toList = before ++ i :: between ++ j :: after := by
    rw [split, List.append_assoc, List.cons_append]
  have right : (g.expandNumber j (before ++ i :: between).length b f).worklist.toList =
      before ++ i :: (between ++ (List.range' g.names.size f.references.length ++ after)) := by
    rw [worklist_expand_between behind rfl, List.append_assoc, List.cons_append]
  refine ⟨?_, ?_⟩
  · rw [right]
    simp
  · rw [worklist_expand_between right rfl, size_expand, List.append_assoc, List.append_assoc]

end Around

/-- Two expansions at different leaves of a grown tree may change places, the position of the right
one moving by what the left one puts in its place. They succeed in either order and lead to the same
tree in as many steps, with the same leaves open from left to right; only the numbers of the new
names tell which came first. -/
theorem Grown.expansions_commute {start : String} {g : Growth} (grown : Grown start g)
    {p q : Int} (lower : 0 ≤ p) (order : p < q) (upper : q < g.openCount) (a b : Int)
    (e f : Expansion) :
    ∃ left first right second renumber,
      g.expand? p a e = .ok left ∧
      left.expand? (q - 1 + e.references.length) b f = .ok first ∧
      g.expand? q b f = .ok right ∧
      right.expand? p a e = .ok second ∧
      second.tree = first.tree ∧
      second.buds = first.buds ∧
      second.steps = first.steps ∧
      second.walk = (first.walk.map fun (d, r) => (d, r.renumber renumber)) ∧
      second.worklist.toList = first.worklist.toList.map renumber ∧
      ∀ i < g.names.size, renumber i = i := by
  have ordered := Ordered.of_grown grown
  obtain ⟨p, i, rfl, place⟩ := Ordered.place_of_bounds lower (by omega : p < g.openCount)
  obtain ⟨q, j, rfl, place'⟩ := Ordered.place_of_bounds (by omega : 0 ≤ q) upper
  obtain ⟨before, between, after, split, rfl, rfl⟩ :=
    exists_between place place' (Int.ofNat_lt.mp order)
  have known : ∀ m ∈ g.worklist.toList, m < g.names.size := fun m mem =>
    (ordered.isOpen_of_mem mem).1
  have apart : i ≠ j := by
    rintro rfl
    have distinct := ordered.distinct.filter fun i => (g.bud i).isOpen
    rw [show (numbers g.walk).filter _ = g.worklist.toList from ordered.worklist.symm, split,
      List.nodup_append, List.nodup_cons] at distinct
    exact distinct.2.1.1 (by simp)
  obtain ⟨place_first, first⟩ := @left_first g i j a b e f _ _ _ split
  obtain ⟨place_second, second⟩ := @right_first g i j a b e f _ _ _ split
  have worklist := congrArg
    (List.map (exchange g.names.size e.references.length f.references.length)) first
  have old : ∀ l : List Nat, (∀ m ∈ l, m ∈ g.worklist.toList) →
      l.map (exchange g.names.size e.references.length f.references.length) = l := fun l part =>
    map_exchange_old fun m mem => known m (part m mem)
  simp only [List.map_append, map_exchange_first, map_exchange_second] at worklist
  rw [old before fun m mem => by simp [split, mem], old between fun m mem => by simp [split, mem],
    old after fun m mem => by simp [split, mem], ← second] at worklist
  have inside := known i (List.mem_of_getElem? place)
  have inside' := known j (List.mem_of_getElem? place')
  have same := (twice inside inside' apart).renumbered ordered (twice inside' inside apart.symm)
    worklist.symm
  have ordered_first := @Ordered.expand _ j _ b f (ordered.expand place) place_first
  have ordered_second := @Ordered.expand _ i _ a e (ordered.expand place') place_second
  refine ⟨_, _, _, _, _, Ordered.expand?_eq place, ?_, Ordered.expand?_eq place',
    Ordered.expand?_eq place_second, same.tree_eq ordered_first ordered_second,
    same.buds_eq ordered_first ordered_second, same.steps,
    same.walk_eq ordered_first ordered_second, same.worklist, fun i old => exchange_old old⟩
  have bound := lt_openCount place'
  rw [show (((before ++ i :: between).length : Int) - 1 + e.references.length) =
    ((before ++ i :: between).length - 1 + e.references.length : Nat) by
      simp only [List.length_append, List.length_cons]; omega]
  exact Ordered.expand?_eq place_first

/-- A pair of open names, of which the left one goes without a trace. -/
theorem Grown.expansions_commute_pair :
    Grown "S" ((Growth.start "S").expandNumber 0 0 1 pairExpansion) ∧ (0 : Int) ≤ 0 ∧ (0 : Int) < 1 ∧
    (1 : Int) < ((Growth.start "S").expandNumber 0 0 1 pairExpansion).openCount ∧
    ∃ left first right second,
      ((Growth.start "S").expandNumber 0 0 1 pairExpansion).expand? 0 0 (.unweighted []) =
        .ok left ∧
      left.expand? 0 2 pairExpansion = .ok first ∧
      ((Growth.start "S").expandNumber 0 0 1 pairExpansion).expand? 1 2 pairExpansion =
        .ok right ∧
      right.expand? 0 0 (.unweighted []) = .ok second ∧ second.tree = first.tree ∧
      second.buds = first.buds := by
  have grown : Grown "S" ((Growth.start "S").expandNumber 0 0 1 pairExpansion) :=
    .expand .start (by decide) (by decide) (rfl : (Growth.start "S").expand? 0 1 pairExpansion = _)
  obtain ⟨left, first, right, second, renumber, step, step', step_, step_', tree, buds, -⟩ :=
    Grown.expansions_commute grown (p := 0) (q := 1) (by decide) (by decide) (by decide) 0 2
      (.unweighted []) pairExpansion
  exact ⟨grown, by decide, by decide, by decide, left, first, right, second, step, step', step_,
    step_', tree, buds⟩

end GrammarSampler.Growth
