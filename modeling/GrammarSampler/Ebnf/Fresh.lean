/-!
Fresh names: a hint is used itself when it is free, else with the least number that makes it free.
-/
namespace GrammarSampler.Fresh

def candidate (hint : String) (k : Nat) : String := if k = 0 then hint else hint ++ "-" ++ toString k

def numberOf? (hint name : String) : Option Nat :=
  let number := if name = hint then some 0 else (name.drop (hint.length + 1)).toNat?
  number.filter fun k => candidate hint k = name

def mark (hint : String) (marks : Array Bool) (name : String) : Array Bool :=
  match numberOf? hint name with
  | some k => marks.setIfInBounds k true
  | none => marks

def passed (taken : List String) (hint : String) : Nat :=
  let marks := taken.foldl (mark hint) (Array.replicate (taken.length + 1) false)
  (marks.toList.takeWhile id).length

theorem candidate_of_numberOf? {hint name : String} {k : Nat} (h : numberOf? hint name = some k) :
    candidate hint k = name := by
  simp only [numberOf?, Option.filter_eq_some_iff, decide_eq_true_eq] at h
  exact h.2

theorem candidate_mem_of_marked (hint : String) (taken seen : List String) (marks : Array Bool)
    (before : ∀ k, marks[k]? = some true → candidate hint k ∈ seen) :
    ∀ k, (taken.foldl (mark hint) marks)[k]? = some true → candidate hint k ∈ seen ++ taken := by
  induction taken generalizing seen marks with
  | nil => simpa using before
  | cons name rest ih =>
    intro k marked
    have step : ∀ j, (mark hint marks name)[j]? = some true → candidate hint j ∈ seen ++ [name] := by
      intro j found
      simp only [mark] at found
      split at found
      case h_1 i number =>
        by_cases same : i = j
        · subst same; simp [candidate_of_numberOf? number]
        · rw [Array.getElem?_setIfInBounds_ne same] at found
          simp [before j found]
      case h_2 => simp [before j found]
    simpa using ih (seen ++ [name]) (mark hint marks name) step k marked

theorem getElem?_of_lt_takeWhile (marks : List Bool) (k : Nat)
    (below : k < (marks.takeWhile id).length) : marks[k]? = some true := by
  induction marks generalizing k with
  | nil => simp at below
  | cons marked rest ih =>
    cases marked with
    | false => simp at below
    | true =>
      cases k with
      | zero => rfl
      | succ k => simpa using ih k (by simpa using below)

theorem candidate_mem_of_lt_passed (taken : List String) (hint : String) :
    ∀ k < passed taken hint, candidate hint k ∈ taken := by
  intro k below
  have marked := candidate_mem_of_marked hint taken [] (Array.replicate (taken.length + 1) false)
    (by simp [Array.getElem?_replicate]) k
  rw [List.nil_append] at marked
  exact marked (by rw [← Array.getElem?_toList]; exact getElem?_of_lt_takeWhile _ k below)

/-- The first candidate that is free: none before `passed` is, and among one more than there are
names taken one is. -/
def name (taken : List String) (hint : String) : String :=
  ((List.range' (passed taken hint) (taken.length + 1)).findSome? fun k =>
    let c := candidate hint k
    if c ∈ taken then none else some c).getD hint

def defaultHint : String := "symbol"

/-- The names for several hints, one after the other, and all names taken then. -/
def names (taken : List String) : List String → List String × List String
  | [] => ([], taken)
  | hint :: rest =>
    let fresh := name taken hint
    let (later, all) := names (fresh :: taken) rest
    (fresh :: later, all)

end GrammarSampler.Fresh
