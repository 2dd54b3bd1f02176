/-!
Named values in the order in which their names first appeared. Writing a known name again keeps
its place and replaces its value.
-/
namespace GrammarSampler

abbrev Entries (α : Type) (ν : Type := String) := List (ν × α)

namespace Entries
variable {α ν : Type}

def keys (es : Entries α ν) : List ν := es.map Prod.fst

def Distinct (es : Entries α ν) : Prop := es.keys.Nodup

variable [DecidableEq ν]

instance (es : Entries α ν) : Decidable es.Distinct := inferInstanceAs (Decidable es.keys.Nodup)

def get? (name : ν) : Entries α ν → Option α
  | [] => none
  | (key, value) :: rest => if key = name then some value else get? name rest

def put (name : ν) (value : α) : Entries α ν → Entries α ν
  | [] => [(name, value)]
  | (key, old) :: rest =>
    if key = name then (key, value) :: rest else (key, old) :: put name value rest

/-- Later pairs win, earlier places stay. -/
def ofPairs (pairs : List (ν × α)) : Entries α ν :=
  pairs.foldl (fun es (name, value) => es.put name value) []

def putAll (es : Entries α ν) (pairs : List (ν × α)) : Entries α ν :=
  pairs.foldl (fun es (name, value) => es.put name value) es

theorem get?_put_self (name : ν) (value : α) (es : Entries α ν) :
    (es.put name value).get? name = some value := by
  induction es with
  | nil => simp [put, get?]
  | cons e rest ih =>
    obtain ⟨key, old⟩ := e
    by_cases same : key = name <;> simp [put, get?, same, ih]

theorem get?_put_other {name other : ν} (value : α) (es : Entries α ν) (apart : name ≠ other) :
    (es.put name value).get? other = es.get? other := by
  induction es with
  | nil => simp [put, get?, apart]
  | cons e rest ih =>
    obtain ⟨key, old⟩ := e
    by_cases same : key = name
    · subst same; simp [put, get?, apart]
    · by_cases here : key = other
      · subst here; simp [put, get?, same]
      · simp [put, get?, same, here, ih]

theorem get?_put_eq_some_iff {name other : ν} {value found : α} {es : Entries α ν} :
    (es.put name value).get? other = some found ↔
      name = other ∧ value = found ∨ name ≠ other ∧ es.get? other = some found := by
  by_cases same : name = other
  · subst same
    simp [get?_put_self]
  · simp [get?_put_other value es same, same]

theorem keys_put (name : ν) (value : α) (es : Entries α ν) :
    (es.put name value).keys = if name ∈ es.keys then es.keys else es.keys ++ [name] := by
  induction es with
  | nil => simp [put, keys]
  | cons e rest ih =>
    obtain ⟨key, old⟩ := e
    simp only [keys] at ih ⊢
    by_cases same : key = name
    · simp [put, same]
    · have apart : name ≠ key := fun h => same h.symm
      by_cases inside : name ∈ rest.map Prod.fst
      · simp [put, same, apart, ih, inside]
      · simp [put, same, apart, ih, inside]

theorem put_of_notMem {name : ν} (value : α) {es : Entries α ν} (new : name ∉ es.keys) :
    es.put name value = es ++ [(name, value)] := by
  induction es with
  | nil => rfl
  | cons e rest ih =>
    obtain ⟨key, old⟩ := e
    rw [keys, List.map_cons, List.mem_cons, not_or] at new
    rw [put, if_neg fun same => new.1 same.symm, ih new.2, List.cons_append]

theorem mem_keys_put {name other : ν} {value : α} {es : Entries α ν} :
    other ∈ (es.put name value).keys ↔ other = name ∨ other ∈ es.keys := by
  rw [keys_put]
  split
  · rename_i old
    constructor
    · exact Or.inr
    · rintro (rfl | inside)
      · exact old
      · exact inside
  · rw [List.mem_append, List.mem_singleton, or_comm]

theorem get?_isSome_iff (name : ν) (es : Entries α ν) :
    (es.get? name).isSome ↔ name ∈ es.keys := by
  induction es with
  | nil => simp [get?, keys]
  | cons e rest ih =>
    obtain ⟨key, old⟩ := e
    by_cases same : key = name
    · simp [get?, keys, same]
    · have apart : name ≠ key := fun h => same h.symm
      simpa [get?, keys, same, apart] using ih

theorem mem_of_get? {name : ν} {value : α} {es : Entries α ν}
    (found : es.get? name = some value) : (name, value) ∈ es := by
  induction es with
  | nil => simp [get?] at found
  | cons e rest ih =>
    obtain ⟨key, old⟩ := e
    by_cases same : key = name
    · simp only [get?, same, if_true, Option.some.injEq] at found
      simp [same, found]
    · simp only [get?, same, if_false] at found
      exact List.mem_cons_of_mem _ (ih found)

theorem get?_of_mem {name : ν} {value : α} {es : Entries α ν} (distinct : es.Distinct)
    (inside : (name, value) ∈ es) : es.get? name = some value := by
  induction es with
  | nil => simp at inside
  | cons e rest ih =>
    obtain ⟨key, old⟩ := e
    obtain ⟨first, later⟩ := List.nodup_cons.mp distinct
    rcases List.mem_cons.mp inside with here | there
    · obtain ⟨rfl, rfl⟩ := Prod.mk.inj here
      simp [get?]
    · have apart : key ≠ name := by
        rintro rfl
        exact first (List.mem_map.mpr ⟨_, there, rfl⟩)
      rw [get?, if_neg apart]
      exact ih later there

theorem distinct_put (name : ν) (value : α) {es : Entries α ν} (distinct : es.Distinct) :
    (es.put name value).Distinct := by
  unfold Distinct
  rw [keys_put]
  split
  · exact distinct
  · rename_i absent
    exact List.nodup_append.mpr ⟨distinct, by simp, by
      intro a old b new same
      rw [List.mem_singleton.mp new] at same
      exact absent (same ▸ old)⟩

theorem distinct_putAll {es : Entries α ν} (distinct : es.Distinct) (pairs : List (ν × α)) :
    (es.putAll pairs).Distinct := by
  induction pairs generalizing es with
  | nil => exact distinct
  | cons pair rest ih => exact ih (distinct_put pair.1 pair.2 distinct)

theorem get?_putAll {es pairs : Entries α ν} (distinct : pairs.Distinct) (name : ν) :
    (es.putAll pairs).get? name = (pairs.get? name).or (es.get? name) := by
  induction pairs generalizing es with
  | nil => rfl
  | cons pair rest ih =>
    obtain ⟨key, value⟩ := pair
    obtain ⟨first, later⟩ := List.nodup_cons.mp distinct
    have step : (es.putAll ((key, value) :: rest)).get? name =
        (get? name rest).or ((es.put key value).get? name) := ih later
    rw [step]
    by_cases same : key = name
    · subst same
      have none : get? key rest = none := by
        rw [← Option.not_isSome_iff_eq_none, get?_isSome_iff]
        exact first
      rw [none, get?_put_self]
      simp [get?]
    · rw [get?_put_other value es same]
      simp [get?, same]

theorem distinct_ofPairs (pairs : List (ν × α)) : (ofPairs pairs).Distinct :=
  @distinct_putAll α ν _ [] List.nodup_nil pairs

end Entries
end GrammarSampler
