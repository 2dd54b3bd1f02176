import GrammarSampler.Json.Convert

/-!
Settings of a generation: how wide a tree grows, which leaf is taken next, and where it stops.
-/
namespace GrammarSampler

inductive LeafPolicy where
  | random
  | leftmost
  | shallowest
deriving DecidableEq, Repr

namespace LeafPolicy

def text : LeafPolicy → String
  | random => "random"
  | leftmost => "leftmost"
  | shallowest => "shallowest"

def all : List LeafPolicy := [random, leftmost, shallowest]

def ofText? (s : String) : Option LeafPolicy := all.find? fun p => p.text == s

def ofJson? {τ : Type} [Spelling τ] (value : Json τ) : Except SettingsFault LeafPolicy :=
  let found :=
    match value with
    | .text s => ofText? (Spelling.points s).shown
    | _ => none
  match found with
  | some p => .ok p
  | none => .error (.policyUnknown value.display)

end LeafPolicy

/-- Limits are numbers as given; a missing budget or step limit is none. -/
structure Settings where
  minimum : Number
  maximum : Number
  policy : LeafPolicy
  budget : Option Number
  maxSteps : Option Number
deriving Repr

namespace Settings
variable {τ : Type}

def standard : Settings := ⟨.int 0, .int 10, .random, some (.int 1000), none⟩

def comparable? : Json τ → Except SettingsFault Number
  | .number n => .ok n
  | value => .error (.notComparable value.kindName)

def limit? : Json τ → Except SettingsFault (Option Number)
  | .null => .ok none
  | value => (comparable? value).map some

def atLeast? (least : Int) (fault : Number → SettingsFault) : Option Number → Except SettingsFault Unit
  | none => .ok ()
  | some n => if n.lt (.int least) then .error (fault n) else .ok ()

def ordered? (lo hi : Number) : Except SettingsFault Unit :=
  if hi.lt lo then .error (.maximumBelowMinimum hi lo) else .ok ()

/-- Checks one setting after the other: the minimum, the maximum, the budget, the step limit. -/
def check? (minimum maximum : Json τ) (policy : LeafPolicy) (budget maxSteps : Json τ) :
    Except SettingsFault Settings := do
  let lo ← comparable? minimum
  atLeast? 0 .minimumNegative (some lo)
  let hi ← comparable? maximum
  ordered? lo hi
  let explored ← limit? budget
  atLeast? 0 .budgetNegative explored
  let steps ← limit? maxSteps
  atLeast? 1 .stepsBelowOne steps
  return ⟨lo, hi, policy, explored, steps⟩

structure Valid (s : Settings) : Prop where
  minimum_nonneg : s.minimum.lt (.int 0) = false
  minimum_le_maximum : s.maximum.lt s.minimum = false
  budget_nonneg : ∀ b ∈ s.budget, b.lt (.int 0) = false
  steps_positive : ∀ k ∈ s.maxSteps, k.lt (.int 1) = false

theorem atLeast?_eq_ok_iff (least : Int) (fault : Number → SettingsFault) (limit : Option Number) :
    atLeast? least fault limit = .ok () ↔ ∀ n ∈ limit, n.lt (.int least) = false := by
  cases limit with
  | none => simp [atLeast?]
  | some n => cases h : n.lt (.int least) <;> simp [atLeast?, h]

theorem ordered?_eq_ok_iff (lo hi : Number) : ordered? lo hi = .ok () ↔ hi.lt lo = false := by
  cases h : hi.lt lo <;> simp [ordered?, h]

theorem valid_of_check? {minimum maximum budget maxSteps : Json τ} {policy : LeafPolicy}
    {s : Settings} (accepted : check? minimum maximum policy budget maxSteps = .ok s) :
    s.Valid := by
  simp only [check?, bind, Except.bind] at accepted
  cases hl : comparable? minimum with
  | error fault => simp [hl] at accepted
  | ok lo =>
  cases ha : atLeast? 0 .minimumNegative (some lo) with
  | error fault => simp [hl, ha] at accepted
  | ok _ =>
  cases hh : comparable? maximum with
  | error fault => simp [hl, ha, hh] at accepted
  | ok hi =>
  cases ho : ordered? lo hi with
  | error fault => simp [hl, ha, hh, ho] at accepted
  | ok _ =>
  cases hb : limit? budget with
  | error fault => simp [hl, ha, hh, ho, hb] at accepted
  | ok explored =>
  cases hn : atLeast? 0 .budgetNegative explored with
  | error fault => simp [hl, ha, hh, ho, hb, hn] at accepted
  | ok _ =>
  cases hm : limit? maxSteps with
  | error fault => simp [hl, ha, hh, ho, hb, hn, hm] at accepted
  | ok steps =>
  cases hs : atLeast? 1 .stepsBelowOne steps with
  | error fault => simp [hl, ha, hh, ho, hb, hn, hm, hs] at accepted
  | ok _ =>
  simp only [hl, ha, hh, ho, hb, hn, hm, hs, pure, Except.pure, Except.ok.injEq] at accepted
  subst accepted
  exact ⟨(atLeast?_eq_ok_iff ..).1 ha lo rfl, (ordered?_eq_ok_iff ..).1 ho,
    (atLeast?_eq_ok_iff ..).1 hn, (atLeast?_eq_ok_iff ..).1 hs⟩

end Settings
end GrammarSampler
