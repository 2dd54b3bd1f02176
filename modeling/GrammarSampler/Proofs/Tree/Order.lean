import GrammarSampler.Proofs.Tree.Walk

/-!
The order of a growing tree. The worklist holds the open names of the walk, each once, and the depths
and the steps that were noted are those of the walk. Every expansion of an open name keeps this.
-/
namespace GrammarSampler

def Bud.isExpanded (b : Bud) : Bool := !b.isOpen

namespace Growth

def numbersOf (g : Growth) (keep : Bud → Bool) (places : List (Nat × Place)) : List Nat :=
  (numbers places).filter fun i => keep (g.bud i)

/-- What holds of every grown tree: its names are linked to later ones, each is met once on the
walk, and worklist, depths and steps are those of the walk. -/
structure Ordered (g : Growth) : Prop where
  linked : Linked g.names
  known : ∀ i ∈ numbers g.walk, i < g.names.size
  distinct : (numbers g.walk).Nodup
  worklist : g.worklist.toList = g.numbersOf Bud.isOpen g.walk
  depth : ∀ d i, (d, Place.name i) ∈ g.walk → (g.bud i).depth = d
  steps : g.steps = (g.numbersOf Bud.isExpanded g.walk).length

@[simp] theorem numbers_append (first rest : List (Nat × Place)) :
    numbers (first ++ rest) = numbers first ++ numbers rest := List.filterMap_append

@[simp] theorem numbers_cons_name (d i : Nat) (rest : List (Nat × Place)) :
    numbers ((d, .name i) :: rest) = i :: numbers rest := rfl

theorem numbers_places (d : Nat) (places : List Place) :
    numbers (places.map (d, ·)) = places.filterMap Place.number? := by
  rw [numbers, List.filterMap_map]
  rfl

theorem mem_numbers {places : List (Nat × Place)} {i : Nat} :
    i ∈ numbers places ↔ ∃ d, (d, Place.name i) ∈ places := by
  simp only [numbers, List.mem_filterMap, Prod.exists]
  constructor
  · rintro ⟨d, q, inside, numbered⟩
    cases q with
    | text t => cases numbered
    | name j =>
      cases numbered
      exact ⟨d, inside⟩
  · rintro ⟨d, inside⟩
    exact ⟨d, _, inside, rfl⟩

@[simp] theorem numbersOf_append (g : Growth) (keep : Bud → Bool) (first rest : List (Nat × Place)) :
    g.numbersOf keep (first ++ rest) = g.numbersOf keep first ++ g.numbersOf keep rest := by
  simp [numbersOf]

theorem numbersOf_cons_name (g : Growth) (keep : Bud → Bool) (d i : Nat)
    (rest : List (Nat × Place)) : g.numbersOf keep ((d, .name i) :: rest) =
      if keep (g.bud i) then i :: g.numbersOf keep rest else g.numbersOf keep rest := by
  simp [numbersOf, List.filter_cons]

section Places
variable {g : Growth} {number p : Nat} {alternative : Int} {e : Expansion} {b : Bud}

theorem bud_expand_other {i : Nat} (inside : i < g.names.size) (apart : i ≠ number) :
    (g.expandNumber number p alternative e).bud i = g.bud i := by
  rw [bud, bud, Array.getD_eq_getD_getElem?, Array.getD_eq_getD_getElem?,
    names_expand_other inside apart]

theorem bud_expand_self (found : g.names[number]? = some b) :
    (g.expandNumber number p alternative e).bud number =
      { b with expanded := some ⟨alternative, e.symbols, g.names.size⟩ } :=
  bud_eq (names_expand_self found)

theorem bud_expand_new {k : Nat} {used : String} (named : e.references[k]? = some used) :
    (g.expandNumber number p alternative e).bud (g.names.size + k) =
      ⟨used, (g.bud number).depth + 1, none⟩ := by
  refine bud_eq ?_
  rw [names_expand_new, named]
  rfl

theorem exists_new {i : Nat} (inside : i ∈ List.range' g.names.size e.references.length) :
    ∃ used, (g.expandNumber number p alternative e).bud i =
      ⟨used, (g.bud number).depth + 1, none⟩ := by
  obtain ⟨above, below⟩ := List.mem_range'_1.mp inside
  obtain ⟨k, rfl⟩ := Nat.exists_eq_add_of_le above
  exact ⟨_, bud_expand_new (List.getElem?_eq_getElem (by omega))⟩

theorem flatMap_sprout (new : List Place) {places : List (Nat × Place)}
    (absent : number ∉ numbers places) : places.flatMap (sprout number new) = places := by
  have alone : ∀ here ∈ places, sprout number new here = [here] := by
    rintro ⟨d, q⟩ inside
    have apart : q ≠ .name number := by
      rintro rfl
      exact absent (mem_numbers.mpr ⟨d, inside⟩)
    simp [sprout, apart]
  rw [List.flatMap_def, List.map_congr_left alone, ← List.flatMap_def, List.flatMap_singleton']

end Places

structure Cut (g : Growth) (p number : Nat) (left : List (Nat × Place)) (d : Nat)
    (right : List (Nat × Place)) : Prop where
  whole : g.walk = left ++ (d, .name number) :: right
  before : ∀ i ∈ numbers left, i < g.names.size ∧ i ≠ number
  behind : ∀ i ∈ numbers right, i < g.names.size ∧ i ≠ number
  leftOpen : g.numbersOf Bud.isOpen left = g.worklist.toList.take p
  rightOpen : g.numbersOf Bud.isOpen right = g.worklist.toList.drop (p + 1)

namespace Ordered
variable {g : Growth} {number p : Nat} {alternative : Int} {e : Expansion}

theorem start (name : String) : Ordered (.start name) := by
  have none : below (Growth.start name).names (.name 0) = [] := below_open rfl rfl
  have linked : Linked (Growth.start name).names := by
    intro i j inside
    have place : i < 1 := size_of_below inside
    obtain rfl : i = 0 := by omega
    rw [none] at inside
    cases inside
  have only : (Growth.start name).walk = [(0, .name 0)] := linked.walkFrom_open rfl rfl 0
  refine ⟨linked, ?_, ?_, ?_, ?_, ?_⟩
  · rw [only]
    intro i inside
    rw [List.mem_singleton.mp inside]
    exact Nat.one_pos
  · rw [only]
    exact List.nodup_singleton 0
  · rw [only]
    rfl
  · rw [only]
    intro d i inside
    cases List.mem_singleton.mp inside
    rfl
  · rw [only]
    rfl

theorem isOpen_of_mem (h : Ordered g) (inside : number ∈ g.worklist.toList) :
    number < g.names.size ∧ (g.bud number).expanded = none := by
  rw [h.worklist, numbersOf, List.mem_filter] at inside
  exact ⟨h.known number inside.1, Option.isNone_iff_eq_none.mp inside.2⟩

theorem found (h : Ordered g) (place : g.worklist.toList[p]? = some number) :
    g.names[number]? = some (g.bud number) ∧ (g.bud number).expanded = none := by
  obtain ⟨inside, unexpanded⟩ := h.isOpen_of_mem (List.mem_of_getElem? place)
  exact ⟨found_bud inside, unexpanded⟩

theorem cut (h : Ordered g) (place : g.worklist.toList[p]? = some number) :
    ∃ left d right, Cut g p number left d right := by
  have inside := List.mem_of_getElem? place
  have unexpanded : (g.bud number).isOpen = true :=
    Option.isNone_iff_eq_none.mpr (h.isOpen_of_mem inside).2
  have met := inside
  rw [h.worklist, numbersOf, List.mem_filter] at met
  obtain ⟨d, there⟩ := mem_numbers.mp met.1
  obtain ⟨left, right, whole⟩ := List.append_of_mem there
  have distinct := h.distinct
  rw [whole, numbers_append, numbers_cons_name, List.nodup_append, List.nodup_cons] at distinct
  obtain ⟨-, ⟨absent, -⟩, apart⟩ := distinct
  have items : g.worklist.toList =
      g.numbersOf Bud.isOpen left ++ number :: g.numbersOf Bud.isOpen right := by
    rw [h.worklist, whole, numbersOf_append, numbersOf_cons_name, if_pos unexpanded]
  have count : p = (g.numbersOf Bud.isOpen left).length := by
    have listed : g.worklist.toList.Nodup := by
      rw [h.worklist]
      exact h.distinct.filter _
    obtain ⟨bound, here⟩ := List.getElem?_eq_some_iff.mp place
    have bound' : (g.numbersOf Bud.isOpen left).length < g.worklist.toList.length := by
      simp [items]
    have there : g.worklist.toList[(g.numbersOf Bud.isOpen left).length] = number := by
      simp [items]
    exact listed.getElem_inj_iff.mp (here.trans there.symm)
  refine ⟨left, d, right, whole, ?_, ?_, ?_, ?_⟩
  · intro i mem
    refine ⟨h.known i (by simp [whole, mem]), fun same => ?_⟩
    exact apart i mem number List.mem_cons_self same
  · intro i mem
    refine ⟨h.known i (by simp [whole, mem]), fun same => ?_⟩
    exact absent (same ▸ mem)
  · rw [items, count, List.take_left]
  · rw [items, count, List.append_cons, List.drop_left' (by simp)]

theorem walk_expand (h : Ordered g) (place : g.worklist.toList[p]? = some number) :
    (g.expandNumber number p alternative e).walk =
      g.walk.flatMap (sprout number (Place.ofSymbols g.names.size e.symbols)) := by
  obtain ⟨found, unexpanded⟩ := h.found place
  refine walkFrom_expand h.linked found unexpanded (.name 0) (fun i same => ?_) 0
  cases same
  have := (Array.getElem?_eq_some_iff.mp found).1
  omega

end Ordered

namespace Cut
variable {g : Growth} {number p d : Nat} {alternative : Int} {e : Expansion}
  {left right : List (Nat × Place)}

theorem walk_expand (cut : Cut g p number left d right) (h : Ordered g)
    (place : g.worklist.toList[p]? = some number) :
    (g.expandNumber number p alternative e).walk = left ++ (d, .name number) ::
      ((Place.ofSymbols g.names.size e.symbols).map (d + 1, ·) ++ right) := by
  rw [h.walk_expand place, cut.whole, List.flatMap_append, List.flatMap_cons,
    flatMap_sprout _ fun mem => (cut.before number mem).2 rfl,
    flatMap_sprout _ fun mem => (cut.behind number mem).2 rfl]
  simp [sprout]

theorem numbersOf_expand {places : List (Nat × Place)} (keep : Bud → Bool)
    (known : ∀ i ∈ numbers places, i < g.names.size ∧ i ≠ number) :
    (g.expandNumber number p alternative e).numbersOf keep places = g.numbersOf keep places := by
  refine List.filter_congr fun i inside => ?_
  rw [bud_expand_other (known i inside).1 (known i inside).2]

theorem numbers_new {d : Nat} : numbers ((Place.ofSymbols g.names.size e.symbols).map (d, ·)) =
    List.range' g.names.size e.references.length := by
  rw [numbers_places, Place.numbers_ofSymbols]
  rfl

theorem numbersOf_new {d : Nat} :
    (g.expandNumber number p alternative e).numbersOf Bud.isOpen
        ((Place.ofSymbols g.names.size e.symbols).map (d, ·)) =
      List.range' g.names.size e.references.length ∧
    (g.expandNumber number p alternative e).numbersOf Bud.isExpanded
        ((Place.ofSymbols g.names.size e.symbols).map (d, ·)) = [] := by
  rw [numbersOf, numbersOf, numbers_new]
  constructor
  · refine List.filter_eq_self.mpr fun i inside => ?_
    obtain ⟨used, same⟩ := @exists_new g number p alternative e i inside
    rw [same]
    rfl
  · refine List.filter_eq_nil_iff.mpr fun i inside => ?_
    obtain ⟨used, same⟩ := @exists_new g number p alternative e i inside
    simp [same, Bud.isExpanded, Bud.isOpen]

section Fields
variable (cut : Cut g p number left d right) (h : Ordered g)
  (place : g.worklist.toList[p]? = some number)
include cut h place

theorem numbers_expand : numbers (g.expandNumber number p alternative e).walk = numbers left ++
    number :: (List.range' g.names.size e.references.length ++ numbers right) := by
  rw [cut.walk_expand h place, numbers_append, numbers_cons_name, numbers_append, numbers_new]

theorem numbersOf_walk_expand (keep : Bud → Bool) :
    (g.expandNumber number p alternative e).numbersOf keep
        (g.expandNumber number p alternative e).walk =
      g.numbersOf keep left ++ (g.expandNumber number p alternative e).numbersOf keep
        ((d, .name number) :: (Place.ofSymbols g.names.size e.symbols).map (d + 1, ·)) ++
        g.numbersOf keep right := by
  rw [cut.walk_expand h place, ← List.cons_append, numbersOf_append, numbersOf_append,
    numbersOf_expand keep cut.before, numbersOf_expand keep cut.behind, List.append_assoc]

theorem known_expand : ∀ i ∈ numbers (g.expandNumber number p alternative e).walk,
    i < (g.expandNumber number p alternative e).names.size := by
  intro i inside
  rw [cut.numbers_expand h place, List.mem_append, List.mem_cons, List.mem_append,
    List.mem_range'_1] at inside
  rw [size_expand]
  rcases inside with mem | rfl | ⟨-, new⟩ | mem
  · have := (cut.before i mem).1
    omega
  · have := h.known i (by simp [cut.whole])
    omega
  · exact new
  · have := (cut.behind i mem).1
    omega

theorem distinct_expand : (numbers (g.expandNumber number p alternative e).walk).Nodup := by
  have old := h.distinct
  rw [cut.whole, numbers_append, numbers_cons_name] at old
  have moved : (numbers left ++
      number :: (List.range' g.names.size e.references.length ++ numbers right)).Perm
      (numbers left ++ number :: numbers right ++
        List.range' g.names.size e.references.length) := by
    rw [List.append_assoc, List.cons_append]
    exact (List.perm_append_comm.cons number).append_left _
  rw [cut.numbers_expand h place, moved.nodup_iff, List.nodup_append]
  refine ⟨old, List.nodup_range', fun i mem j new same => ?_⟩
  have above := (List.mem_range'_1.mp new).1
  have bound : i < g.names.size := h.known i (by simpa [cut.whole] using mem)
  omega

theorem worklist_expand : (g.expandNumber number p alternative e).worklist.toList =
    (g.expandNumber number p alternative e).numbersOf Bud.isOpen
      (g.expandNumber number p alternative e).walk := by
  have inside := lt_openCount place
  have here := @bud_expand_self g number p alternative e _ (h.found place).1
  rw [Growth.worklist_expand inside, cut.numbersOf_walk_expand h place, numbersOf_cons_name,
    numbersOf_new.1, here, cut.leftOpen, cut.rightOpen]
  rfl

theorem steps_expand : (g.expandNumber number p alternative e).steps =
    ((g.expandNumber number p alternative e).numbersOf Bud.isExpanded
      (g.expandNumber number p alternative e).walk).length := by
  obtain ⟨found, unexpanded⟩ := h.found place
  have before := h.steps
  rw [cut.whole, numbersOf_append, numbersOf_cons_name,
    if_neg (by simp [Bud.isExpanded, Bud.isOpen, unexpanded]), List.length_append] at before
  have here := @bud_expand_self g number p alternative e _ found
  have steps : (g.expandNumber number p alternative e).steps = g.steps + 1 := rfl
  rw [steps, before, cut.numbersOf_walk_expand h place, numbersOf_cons_name, numbersOf_new.2, here,
    if_pos (by rfl), List.length_append, List.length_append, List.length_singleton]
  omega

theorem depth_expand (c i : Nat)
    (inside : (c, Place.name i) ∈ (g.expandNumber number p alternative e).walk) :
    ((g.expandNumber number p alternative e).bud i).depth = c := by
  have old : ∀ places, (∀ j ∈ numbers places, j < g.names.size ∧ j ≠ number) →
      (∀ here ∈ places, here ∈ g.walk) → (c, Place.name i) ∈ places →
        ((g.expandNumber number p alternative e).bud i).depth = c := by
    intro places known part mem
    have apart := known i (mem_numbers.mpr ⟨c, mem⟩)
    rw [bud_expand_other apart.1 apart.2]
    exact h.depth c i (part _ mem)
  have own := h.depth d number (by simp [cut.whole])
  rw [cut.walk_expand h place, List.mem_append, List.mem_cons, List.mem_append] at inside
  rcases inside with mem | here | new | mem
  · exact old left cut.before (fun q mem => by simp [cut.whole, mem]) mem
  · cases here
    rw [bud_expand_self (h.found place).1]
    exact own
  · obtain ⟨q, mem, same⟩ := List.mem_map.mp new
    cases same
    obtain ⟨used, made⟩ := @exists_new g number p alternative e i
      (List.mem_range'_1.mpr (Place.name_mem_ofSymbols mem))
    rw [made, own]
  · exact old right cut.behind (fun q mem => by simp [cut.whole, mem]) mem

end Fields
end Cut

theorem Ordered.expand {g : Growth} {number p : Nat} {alternative : Int} {e : Expansion}
    (h : Ordered g) (place : g.worklist.toList[p]? = some number) :
    Ordered (g.expandNumber number p alternative e) := by
  obtain ⟨left, d, right, cut⟩ := h.cut place
  exact ⟨h.linked.expand (h.found place).1, cut.known_expand h place, cut.distinct_expand h place,
    cut.worklist_expand h place, cut.depth_expand h place, cut.steps_expand h place⟩

end Growth
end GrammarSampler
