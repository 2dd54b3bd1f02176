import GrammarSampler.Config
import GrammarSampler.Proofs.Json.Reading
import Mathlib

/-!
What a configuration file is refused for. A file that can be read and whose values make no settings is
refused as a configuration, but five things are not checked for: a whole number with too many digits,
the reserved name, a seed that is a structure or a text without bytes, and an infinite width. A budget
or a step limit that is not a number is below nothing and passes every check.
-/
namespace GrammarSampler

/-- The configuration is refused for what it says. -/
def Fault.IsConfig (fault : Fault) : Prop := ∃ text, fault = .config text

namespace Number
variable {n : Number} {k : Int}

def IsNotANumber (n : Number) : Prop := ∃ x, n = .float x ∧ ExactValue.ofFloat x = .notANumber

def IsInfinite (n : Number) : Prop := ∃ x negative, n = .float x ∧ ExactValue.ofFloat x = .infinite negative

theorem toInt_cases (n : Number) : (∃ k, n.toInt = .ok k) ∧ ¬ n.IsInfinite ∨
    n.toInt = .error .notANumberToInteger ∧ ¬ n.IsInfinite ∨
    n.toInt = .error .infiniteToInteger ∧ n.IsInfinite := by
  cases n with
  | int k => exact .inl ⟨⟨k, rfl⟩, by simp [IsInfinite]⟩
  | truth b => exact .inl ⟨⟨_, rfl⟩, by simp [IsInfinite]⟩
  | float x =>
    have same : (float x).IsInfinite ↔ ∃ negative, ExactValue.ofFloat x = .infinite negative := by
      simp [IsInfinite]
    have kind : (float x).split = .inr x := rfl
    rw [same]
    cases value : ExactValue.ofFloat x with
    | notANumber => exact .inr (.inl ⟨by simp only [toInt, kind, value], by simp⟩)
    | infinite negative => exact .inr (.inr ⟨by simp only [toInt, kind, value], negative, rfl⟩)
    | finite negative significand exponent =>
      exact .inl ⟨⟨_, by simp only [toInt, kind, value]; rfl⟩, by simp⟩

theorem compare?_swap (n : Number) (k : Int) :
    (int k).compare? n = (n.compare? (.int k)).map Ordering.swap := by
  cases n with
  | int m => exact congrArg some Std.OrientedCmp.eq_swap
  | truth b => exact congrArg some Std.OrientedCmp.eq_swap
  | float x => rfl

theorem isNotANumber_of_compare? (apart : n.compare? (.int k) = none) : n.IsNotANumber := by
  cases n with
  | int m => cases apart
  | truth b => cases apart
  | float x =>
    change (ExactValue.ofFloat x).compareInt k = none at apart
    refine ⟨x, rfl, ?_⟩
    cases value : ExactValue.ofFloat x with
    | notANumber => rfl
    | infinite negative =>
      rw [value] at apart
      cases apart
    | finite negative significand exponent =>
      rw [value] at apart
      cases apart

/-- What is not below a whole number is at least as large, unless it is no number. -/
theorem le_of_not_lt (least : n.lt (.int k) = false) : (int k).le n = true ∨ n.IsNotANumber := by
  cases order : n.compare? (.int k) with
  | none => exact .inr (isNotANumber_of_compare? order)
  | some order' =>
    left
    cases order' with
    | lt => simp [lt, order] at least
    | eq => simp [le, compare?_swap n, order]
    | gt => simp [le, lt, compare?_swap n, order]

end Number

def Json.IsInfinite (value : Json Points) : Prop := ∃ n, value = .number n ∧ n.IsInfinite

namespace Config
variable {members : Entries (Json Points) Points} {name : String} {value : Json Points} {fault : Fault}
  {c : Config}

/-- The defaults, overridden by the members of a file. -/
def overridden (members : Entries (Json Points) Points) : Config := ⟨.object (Entries.putAll defaults members)⟩

def setting (members : Entries (Json Points) Points) (name : String) : Json Points :=
  (members.get? (Points.ofText name)).getD ((defaults.get? (Points.ofText name)).getD .null)

theorem ofValues?_eq (members : Entries (Json Points) Points) : ofValues? members =
    if Points.ofText reservedName ∈ members.keys then .error .wrongKind else .ok (overridden members) := by
  have named : (members.any fun entry => entry.1 == Points.ofText reservedName) = true ↔
      Points.ofText reservedName ∈ members.keys := by
    simp [Entries.keys]
  unfold ofValues?
  by_cases inside : Points.ofText reservedName ∈ members.keys
  · rw [if_pos inside, if_pos (named.mpr inside)]
  · rw [if_neg inside, if_neg fun listed => inside (named.mp listed)]
    rfl

theorem attribute?_overridden (distinct : members.Distinct) (known : Points.ofText name ∈ defaults.keys) :
    (overridden members).attribute? name = .ok (setting members name) := by
  have apart : name ≠ storeName := by
    rintro rfl
    exact absurd known (by decide)
  obtain ⟨standard, found⟩ := Option.isSome_iff_exists.mp ((Entries.get?_isSome_iff _ defaults).mpr known)
  have value : (Entries.putAll defaults members).get? (Points.ofText name) =
      some (setting members name) := by
    rw [Entries.get?_putAll distinct, setting, found]
    cases members.get? (Points.ofText name) <;> rfl
  unfold attribute? overridden
  rw [if_neg apart]
  simp only [value]

theorem wholeNumber_cases (value : Json Points) :
    (∃ k, value.toInt? = .ok k) ∧ ¬ value.IsInfinite ∨
      (∃ cause, value.toInt? = .error cause ∧ (asRefusal cause).IsConfig) ∧ ¬ value.IsInfinite ∨
      value.toInt? = .error (.number .infiniteToInteger) ∧ value.IsInfinite := by
  cases value with
  | number n =>
    have same : (Json.number n).IsInfinite ↔ n.IsInfinite := by simp [Json.IsInfinite]
    rw [same]
    rcases n.toInt_cases with ⟨⟨k, read⟩, finite⟩ | ⟨failed, finite⟩ | ⟨failed, infinite⟩
    · exact .inl ⟨⟨k, by simp [Json.toInt?, read, Except.mapError]⟩, finite⟩
    · exact .inr (.inl ⟨⟨_, by simp [Json.toInt?, failed, Except.mapError]; rfl, _, rfl⟩, finite⟩)
    · exact .inr (.inr ⟨by simp [Json.toInt?, failed, Except.mapError], infinite⟩)
  | text ps =>
    have finite : ¬ (Json.text ps).IsInfinite := by simp [Json.IsInfinite]
    have whole : (Json.text ps).toInt? =
      (Numeral.int? (ps.map CodePoint.shown) (Quoted.points ps)).mapError .numeral := rfl
    rw [whole]
    cases Numeral.int? (ps.map CodePoint.shown) (Quoted.points ps) with
    | ok k => exact .inl ⟨⟨k, rfl⟩, finite⟩
    | error cause => exact .inr (.inl ⟨⟨_, rfl, _, rfl⟩, finite⟩)
  | null => exact .inr (.inl ⟨⟨_, rfl, _, rfl⟩, by simp [Json.IsInfinite]⟩)
  | list items => exact .inr (.inl ⟨⟨_, rfl, _, rfl⟩, by simp [Json.IsInfinite]⟩)
  | object members => exact .inr (.inl ⟨⟨_, rfl, _, rfl⟩, by simp [Json.IsInfinite]⟩)

def checked? (members : Entries (Json Points) Points) (lo hi : Int) : Except Fault Settings :=
  Except.mapError asRefusal do
    let policy ← (LeafPolicy.ofJson? (setting members "leaf_selection")).mapError .settings
    (Settings.check? (.number (.int lo)) (.number (.int hi)) policy
      (setting members "exploration_budget") (setting members "max_steps")).mapError .settings

theorem faults_checked? (members : Entries (Json Points) Points) (lo hi : Int) :
    FaultsIn Fault.IsConfig (checked? members lo hi) := by
  intro fault failed
  obtain ⟨cause, own, rfl⟩ := mapError_eq_error_iff.mp failed
  rcases bind_eq_error_iff.mp own with first | ⟨policy, -, later⟩
  · obtain ⟨setting, -, rfl⟩ := mapError_eq_error_iff.mp first
    exact ⟨_, rfl⟩
  · obtain ⟨setting, -, rfl⟩ := mapError_eq_error_iff.mp later
    exact ⟨_, rfl⟩

theorem wholeNumber?_overridden (distinct : members.Distinct) (known : Points.ofText name ∈ defaults.keys) :
    (overridden members).wholeNumber? name =
      (setting members name).toInt? >>= fun k => .ok (.number (.int k)) := by
  unfold wholeNumber?
  rw [attribute?_overridden distinct known]
  rfl

theorem settings?_overridden (distinct : members.Distinct) : (overridden members).settings? = (do
    let lo ← (setting members "min_nonterminals").toInt?.mapError asRefusal
    let hi ← (setting members "max_nonterminals").toInt?.mapError asRefusal
    checked? members lo hi) := by
  unfold settings? checked?
  rw [wholeNumber?_overridden distinct (by decide), wholeNumber?_overridden distinct (by decide),
    attribute?_overridden distinct (by decide), attribute?_overridden distinct (by decide),
    attribute?_overridden distinct (by decide)]
  cases (setting members "min_nonterminals").toInt? with
  | error fault => rfl
  | ok lo =>
    cases (setting members "max_nonterminals").toInt? with
    | error fault => rfl
    | ok hi => rfl

theorem not_isConfig_infinite : ¬ (Fault.number .infiniteToInteger).IsConfig := by
  rintro ⟨text, same⟩
  cases same

/-- A width that is no whole number is refused as a configuration unless it is infinite. -/
theorem width_error_iff {next : Int → Except Fault Settings} :
    (value.toInt?.mapError asRefusal >>= next) = .error fault ∧ ¬ fault.IsConfig ↔
      fault = .number .infiniteToInteger ∧ value.IsInfinite ∨
        ∃ k, value.toInt? = .ok k ∧ next k = .error fault ∧ ¬ fault.IsConfig := by
  rcases wholeNumber_cases value with ⟨⟨k, read⟩, finite⟩ | ⟨⟨cause, failed, own⟩, finite⟩ |
    ⟨failed, infinite⟩
  · rw [read]
    simp [Except.mapError, bind, Except.bind, finite]
  · rw [failed]
    simp only [Except.mapError, bind, Except.bind, Except.error.injEq, finite, and_false,
      reduceCtorEq, false_and, exists_false, or_self, iff_false, not_and, Classical.not_not]
    rintro rfl
    exact own
  · rw [failed]
    simp only [Except.mapError, bind, Except.bind, Except.error.injEq, infinite, and_true,
      reduceCtorEq, false_and, exists_false, or_false]
    constructor
    · exact fun ⟨same, _⟩ => same.symm
    · rintro rfl
      exact ⟨rfl, not_isConfig_infinite⟩

/-- The first width that is no whole number is infinite. -/
def MeetsInfinite (members : Entries (Json Points) Points) : Prop :=
  (setting members "min_nonterminals").IsInfinite ∨
    (∃ k, (setting members "min_nonterminals").toInt? = .ok k) ∧
      (setting members "max_nonterminals").IsInfinite

theorem settings?_error_iff (distinct : members.Distinct) :
    (overridden members).settings? = .error fault ∧ ¬ fault.IsConfig ↔
      fault = .number .infiniteToInteger ∧ MeetsInfinite members := by
  have made : ∀ lo hi, ¬ (checked? members lo hi = .error fault ∧ ¬ fault.IsConfig) :=
    fun lo hi ⟨failed, other⟩ => other (faults_checked? members lo hi fault failed)
  rw [settings?_overridden distinct, width_error_iff]
  simp only [width_error_iff, made, and_false, exists_false, or_false]
  constructor
  · rintro (⟨same, infinite⟩ | ⟨k, read, same, infinite⟩)
    · exact ⟨same, .inl infinite⟩
    · exact ⟨same, .inr ⟨⟨k, read⟩, infinite⟩⟩
  · rintro ⟨same, infinite | ⟨⟨k, read⟩, infinite⟩⟩
    · exact .inl ⟨same, infinite⟩
    · exact .inr ⟨k, read, same, infinite⟩

/-- What the settings of a file satisfy. Its limits are taken as they are, and one that is not a number
is not compared. -/
structure Bounded (members : Entries (Json Points) Points) (s : Settings) : Prop where
  widths : ∃ lo hi : Int, s.minimum = .int lo ∧ s.maximum = .int hi ∧ 0 ≤ lo ∧ lo ≤ hi
  budget : ∀ b ∈ s.budget, setting members "exploration_budget" = .number b ∧
    ((Number.int 0).le b = true ∨ b.IsNotANumber)
  steps : ∀ k ∈ s.maxSteps, setting members "max_steps" = .number k ∧
    ((Number.int 1).le k = true ∨ k.IsNotANumber)

theorem eq_of_limit? {limit : Option Number} (read : Settings.limit? value = .ok limit) :
    ∀ n ∈ limit, value = .number n := by
  cases value with
  | number n =>
    cases read
    rintro n ⟨⟩
    rfl
  | null =>
    cases read
    rintro n ⟨⟩
  | _ => cases read

theorem parts_of_check? {lo hi : Int} {policy : LeafPolicy} {budget maxSteps : Json Points} {s : Settings}
    (accepted : Settings.check? (.number (.int lo)) (.number (.int hi)) policy budget maxSteps = .ok s) :
    s.minimum = .int lo ∧ s.maximum = .int hi ∧ (∀ b ∈ s.budget, budget = .number b) ∧
      ∀ k ∈ s.maxSteps, maxSteps = .number k := by
  unfold Settings.check? at accepted
  obtain ⟨lo', first, accepted⟩ := bind_eq_ok_iff.mp accepted
  obtain ⟨-, -, accepted⟩ := bind_eq_ok_iff.mp accepted
  obtain ⟨hi', second, accepted⟩ := bind_eq_ok_iff.mp accepted
  obtain ⟨-, -, accepted⟩ := bind_eq_ok_iff.mp accepted
  obtain ⟨explored, third, accepted⟩ := bind_eq_ok_iff.mp accepted
  obtain ⟨-, -, accepted⟩ := bind_eq_ok_iff.mp accepted
  obtain ⟨steps, fourth, accepted⟩ := bind_eq_ok_iff.mp accepted
  obtain ⟨-, -, accepted⟩ := bind_eq_ok_iff.mp accepted
  cases first
  cases second
  cases accepted
  exact ⟨rfl, rfl, eq_of_limit? third, eq_of_limit? fourth⟩

theorem bounded_of_checked? {lo hi : Int} {s : Settings} (accepted : checked? members lo hi = .ok s) :
    Bounded members s := by
  obtain ⟨policy, -, made⟩ := bind_eq_ok_iff.mp (mapError_eq_ok_iff.mp accepted)
  have passed := mapError_eq_ok_iff.mp made
  have valid := Settings.valid_of_check? passed
  obtain ⟨minimum, maximum, budget, steps⟩ := parts_of_check? passed
  refine ⟨⟨lo, hi, minimum, maximum, ?_, ?_⟩, fun b own => ⟨budget b own, ?_⟩,
    fun k own => ⟨steps k own, ?_⟩⟩
  · simpa [minimum] using valid.minimum_nonneg
  · simpa [minimum, maximum] using valid.minimum_le_maximum
  · exact Number.le_of_not_lt (valid.budget_nonneg b own)
  · exact Number.le_of_not_lt (valid.steps_positive k own)

theorem bounded_of_settings? {s : Settings} (distinct : members.Distinct)
    (accepted : (overridden members).settings? = .ok s) : Bounded members s := by
  rw [settings?_overridden distinct] at accepted
  obtain ⟨lo, -, accepted⟩ := bind_eq_ok_iff.mp accepted
  obtain ⟨hi, -, accepted⟩ := bind_eq_ok_iff.mp accepted
  exact bounded_of_checked? accepted

/-- The seeds that no source is made of: structures, and texts in which a surrogate stands. -/
inductive Unseedable : Json Points → Fault → Prop where
  | list (items : List (Json Points)) : Unseedable (.list items) .wrongKind
  | object (pairs : Entries (Json Points) Points) : Unseedable (.object pairs) .wrongKind
  | text (before : List Char) (index : Fin 0x800) (rest : Points) :
      Unseedable (.text (before.map .char ++ .surrogate index :: rest))
        (.encoding ⟨before.length, index, (rest.takeWhile CodePoint.isSurrogate).length + 1⟩)

theorem ofText?_seed_error_iff {ps : Points} {fault : EncodingFault} :
    Seed.ofText? ps = .error fault ↔ ps.toUTF8? = .error fault := by
  unfold Seed.ofText?
  rw [bind_eq_error_iff]
  constructor
  · rintro (failed | ⟨bytes, -, ⟨⟩⟩)
    exact failed
  · exact Or.inl

theorem seedOf?_error_iff : seedOf? value = .error fault ↔ Unseedable value fault := by
  cases value with
  | text ps =>
    unfold seedOf?
    rw [map_eq_error_iff, mapError_eq_error_iff]
    constructor
    · rintro ⟨cause, failed, rfl⟩
      obtain ⟨before, index, rest, rfl, rfl⟩ :=
        Points.toUTF8?_eq_error_iff.mp (ofText?_seed_error_iff.mp failed)
      exact .text before index rest
    · rintro ⟨⟩
      exact ⟨_, ofText?_seed_error_iff.mpr (Points.toUTF8?_eq_error_iff.mpr ⟨_, _, _, rfl, rfl⟩), rfl⟩
  | list items =>
    constructor
    · rintro ⟨⟩
      exact .list items
    · rintro ⟨⟩
      rfl
  | object pairs =>
    constructor
    · rintro ⟨⟩
      exact .object pairs
    · rintro ⟨⟩
      rfl
  | null => exact ⟨fun same => (by cases same), fun bare => (by cases bare)⟩
  | number n => exact ⟨fun same => (by cases same), fun bare => (by cases bare)⟩

/-- No source is given, and none is made of the seed. -/
def MeetsSeed (members : Entries (Json Points) Points) (given : Option Source) (fault : Fault) : Prop :=
  given = none ∧ Unseedable (setting members "seed") fault

theorem sourceFor?_error_iff (distinct : members.Distinct) (given : Option Source) :
    (overridden members).sourceFor? given = .error fault ↔ MeetsSeed members given fault := by
  cases given with
  | some own =>
    constructor
    · rintro ⟨⟩
    · rintro ⟨⟨⟩, -⟩
  | none =>
    unfold sourceFor? source? MeetsSeed
    rw [attribute?_overridden distinct (by decide), ← seedOf?_error_iff]
    change (seedOf? (setting members "seed") >>= _) = _ ↔ _
    rw [bind_eq_error_iff]
    simp [pure, Except.pure]

theorem not_isConfig_of_unseedable (bare : Unseedable value fault) : ¬ fault.IsConfig := by
  rintro ⟨text, same⟩
  cases bare <;> cases same

theorem not_isConfig_wrongKind : ¬ Fault.wrongKind.IsConfig := by
  rintro ⟨text, same⟩
  cases same

theorem generation?_error_iff (distinct : members.Distinct) (given : Option Source) :
    (overridden members).generation? given = .error fault ∧ ¬ fault.IsConfig ↔
      MeetsSeed members given fault ∨
        fault = .number .infiniteToInteger ∧ (∀ cause, ¬ MeetsSeed members given cause) ∧
          MeetsInfinite members := by
  unfold generation?
  cases found : (overridden members).sourceFor? given with
  | error cause =>
    have bare := (sourceFor?_error_iff distinct given).mp found
    rw [bind_eq_error_iff]
    simp only [Except.error.injEq, reduceCtorEq, false_and, exists_false, or_false]
    constructor
    · rintro ⟨rfl, -⟩
      exact .inl bare
    · rintro (same | ⟨-, seeded, -⟩)
      · have agree := (sourceFor?_error_iff distinct given).mpr same
        rw [found] at agree
        exact ⟨Except.error.inj agree, not_isConfig_of_unseedable same.2⟩
      · exact absurd bare (seeded cause)
  | ok source =>
    have seeded : ∀ cause, ¬ MeetsSeed members given cause := by
      intro cause bare
      have failed := (sourceFor?_error_iff distinct given).mpr bare
      rw [found] at failed
      cases failed
    rw [bind_eq_error_iff]
    simp only [reduceCtorEq, false_or, Except.ok.injEq, exists_eq_left', seeded, not_false_eq_true,
      implies_true, true_and, ← settings?_error_iff distinct]
    rw [bind_eq_error_iff]
    simp [pure, Except.pure]

theorem bounded_of_generation? {s : Settings} {given source : Option Source} (distinct : members.Distinct)
    (accepted : (overridden members).generation? given = .ok (s, source)) : Bounded members s := by
  unfold generation? at accepted
  obtain ⟨found, -, accepted⟩ := bind_eq_ok_iff.mp accepted
  obtain ⟨settings, made, same⟩ := bind_eq_ok_iff.mp accepted
  cases same
  exact bounded_of_settings? distinct made

/-- The faults of loading a text and taking its settings that no refusal stands for. -/
inductive Escapes (text : String) (given : Option Source) : Fault → Prop where
  | digits {fault : NumeralFault} (read : Json.read? text = .error (.numeral fault)) :
      Escapes text given (.numeral fault)
  | reserved {members : Entries (Json Points) Points} (read : Json.read? text = .ok (.object members))
      (listed : Points.ofText reservedName ∈ Entries.keys members) : Escapes text given .wrongKind
  | seed {members : Entries (Json Points) Points} {fault : Fault}
      (read : Json.read? text = .ok (.object members))
      (free : Points.ofText reservedName ∉ Entries.keys members)
      (bare : MeetsSeed members given fault) : Escapes text given fault
  | width {members : Entries (Json Points) Points} (read : Json.read? text = .ok (.object members))
      (free : Points.ofText reservedName ∉ Entries.keys members) (seeded : ∀ cause, ¬ MeetsSeed members given cause)
      (infinite : MeetsInfinite members) : Escapes text given (.number .infiniteToInteger)

section Text
variable {place text : String} {given : Option Source}

theorem escapes_object (read : Json.read? text = .ok (.object members)) :
    Escapes text given fault ↔ if Points.ofText reservedName ∈ Entries.keys members then fault = .wrongKind
      else MeetsSeed members given fault ∨
        fault = .number .infiniteToInteger ∧ (∀ cause, ¬ MeetsSeed members given cause) ∧
          MeetsInfinite members := by
  constructor
  · rintro (found | ⟨found, listed⟩ | ⟨found, free, bare⟩ | ⟨found, free, seeded, infinite⟩) <;>
      rw [read] at found <;> cases found
    · rw [if_pos listed]
    · rw [if_neg free]
      exact .inl bare
    · rw [if_neg free]
      exact .inr ⟨rfl, seeded, infinite⟩
  · intro told
    split at told
    · rename_i listed
      exact told ▸ .reserved read listed
    · rename_i free
      rcases told with bare | ⟨rfl, seeded, infinite⟩
      · exact .seed read free bare
      · exact .width read free seeded infinite

theorem not_escapes (read : ∀ cause, Json.read? text ≠ .error (.numeral cause))
    (other : ∀ members, Json.read? text ≠ .ok (.object members)) : ¬ Escapes text given fault := by
  rintro (found | found | found | found)
  · exact read _ found
  all_goals exact other _ found

theorem ofText?_ok_iff : ofText? place text = .ok c ↔ ∃ members,
    Json.read? text = .ok (.object members) ∧ Points.ofText reservedName ∉ Entries.keys members ∧
      c = overridden members := by
  unfold ofText?
  cases Json.read? text with
  | error fault => cases fault <;> simp
  | ok value =>
    cases value with
    | object members =>
      simp only [ofValues?_eq, Except.ok.injEq, Json.object.injEq, exists_eq_left']
      by_cases listed : Points.ofText reservedName ∈ Entries.keys members
      · simp [listed]
      · simp [listed, eq_comm]
    | _ => simp

theorem error_escaped {cause : Fault} (other : ¬ cause.IsConfig) :
    (Except.error cause >>= fun c : Config => c.generation? given) = .error fault ∧ ¬ fault.IsConfig ↔
      fault = cause := by
  constructor
  · rintro ⟨same, -⟩
    cases same
    rfl
  · rintro rfl
    exact ⟨rfl, other⟩

theorem error_refused (message : String) :
    ¬ ((Except.error (.config message) >>= fun c : Config => c.generation? given) = .error fault ∧
      ¬ fault.IsConfig) := by
  rintro ⟨same, other⟩
  cases same
  exact other ⟨_, rfl⟩

/-- Everything but the faults that escape is refused as a configuration. -/
theorem ofText?_error_iff : (ofText? place text >>= fun c => c.generation? given) = .error fault ∧
    ¬ fault.IsConfig ↔ Escapes text given fault := by
  unfold ofText?
  cases read : Json.read? text with
  | error cause =>
    cases cause with
    | malformed => exact iff_of_false (error_refused _) (not_escapes (by simp [read]) (by simp [read]))
    | numeral cause =>
      refine (error_escaped fun ⟨_, same⟩ => by cases same).trans ⟨fun same => same ▸ .digits read, ?_⟩
      rintro (found | found | found | found) <;> rw [read] at found <;> cases found
      rfl
  | ok value =>
    cases value with
    | object members =>
      rw [escapes_object read]
      simp only [ofValues?_eq]
      split
      · exact error_escaped not_isConfig_wrongKind
      · exact generation?_error_iff (Json.distinct_of_read? read) given
    | _ => exact iff_of_false (error_refused _) (not_escapes (by simp [read]) (by simp [read]))

end Text

/-- The place of the file that is loaded, and the files then. For the standard one its directory is
made. -/
def target (store : FileStore) : Option String → Except Fault String × FileStore
  | some path => (.ok (Path.expandHome store.homes path), store)
  | none => (standardPath : StateM FileStore _).run store

theorem load_eq {store there : FileStore} {path : Option String} {place text : String}
    (located : target store path = (.ok place, there))
    (decoded : (there.read place).bind FileAccess.decode = .ok text) :
    (load path : StateM FileStore _).run store = (ofText? place text, there) := by
  have loaded : (read place : StateM FileStore _).run there = (ofText? place text, there) := by
    change (ofContent? place ((there.read place).bind FileAccess.decode), there) = _
    rw [decoded]
    rfl
  cases path with
  | some path =>
    cases located
    exact loaded
  | none =>
    have present : there.isThere place = true := by
      obtain ⟨bytes, found, -⟩ := bind_eq_ok_iff.mp decoded
      obtain ⟨-, -, found⟩ := bind_eq_ok_iff.mp found
      unfold FileStore.isThere
      cases status : there.status place with
      | file bytes => rfl
      | directory => rfl
      | absent => simp [status] at found
      | blocked => simp [status] at found
      | tooLong => simp [status] at found
    change (standardPath : StateM FileStore _).run store = _ at located
    have found : (FileAccess.exists? place : StateM FileStore Bool).run there = (true, there) :=
      congrArg (·, there) present
    rw [load, StateT.run_bind, located]
    change ((FileAccess.exists? place : StateM FileStore Bool) >>= _).run there = _
    rw [StateT.run_bind, found]
    exact loaded

/-- Loading a file that can be read and taking a generation from it: what is loaded are the defaults
overridden by the file, what settings satisfy, and the only faults that are no refusal. -/
theorem load_decided {store there : FileStore} {path : Option String} {place text : String}
    (located : target store path = (.ok place, there))
    (decoded : (there.read place).bind FileAccess.decode = .ok text) (given : Option Source) :
    ∃ loaded, (load path : StateM FileStore _).run store = (loaded, there) ∧
      (∀ c, loaded = .ok c ↔ ∃ members, Json.read? text = .ok (.object members) ∧
        Points.ofText reservedName ∉ Entries.keys members ∧ c = ⟨.object (Entries.putAll defaults members)⟩) ∧
      (∀ members, Json.read? text = .ok (.object members) → ∀ name,
        (Entries.putAll defaults members).get? name =
          (Entries.get? name members).or (defaults.get? name)) ∧
      (∀ members s source, Json.read? text = .ok (.object members) →
        (loaded >>= fun c => c.generation? given) = .ok (s, source) → Bounded members s) ∧
      ∀ fault, ((loaded >>= fun c => c.generation? given) = .error fault ∧ ¬ fault.IsConfig) ↔
        Escapes text given fault := by
  refine ⟨ofText? place text, load_eq located decoded, fun c => ofText?_ok_iff,
    fun members read name => ?_, fun members s source read accepted => ?_, fun fault => ofText?_error_iff⟩
  · exact Entries.get?_putAll (Json.distinct_of_read? read) name
  · obtain ⟨c, loaded, made⟩ := bind_eq_ok_iff.mp accepted
    obtain ⟨others, same, -, rfl⟩ := ofText?_ok_iff.mp loaded
    cases read.symm.trans same
    exact bounded_of_generation? (Json.distinct_of_read? read) made

def kept (text : String) : FileStore := ⟨[("c.json", text.toUTF8)], [], ⟨"/home/u", []⟩⟩

theorem read_kept (text : String) : (kept text).read "c.json" = .ok text.toUTF8 := by
  have apart : "c.json".splitOn "/" = ["c.json"] := by
    simp +decide [String.splitOn, String.splitOnAux]
  have parts : Path.parts "c.json" = ["c.json"] := by
    rw [Path.parts, apart]
    decide +kernel
  have walked : (kept text).walk "" [] ["c.json"] = .file text.toUTF8 := by
    cbv
  have status : (kept text).status "c.json" = .file text.toUTF8 := by
    unfold FileStore.status
    rw [if_neg (by decide +kernel), if_neg (by decide +kernel), parts,
      show Path.root "c.json" = "" by decide +kernel, walked]
    exact if_neg (by decide +kernel)
  unfold FileStore.read
  rw [show FileStore.checkPath? "c.json" = .ok () by rfl, status]
  rfl

theorem decode_toUTF8 (text : String) (plain : FileAccess.universalLines text.toList = text.toList) :
    FileAccess.decode text.toUTF8 = .ok text := by
  have spelled : String.fromUTF8? text.toUTF8 = some text := by
    unfold String.fromUTF8?
    exact (dif_pos text.isValidUTF8).trans rfl
  unfold FileAccess.decode
  rw [spelled]
  simp [plain]

theorem load_kept (text : String) (plain : FileAccess.universalLines text.toList = text.toList) :
    ((load (some "c.json") : StateM FileStore _).run (kept text)).1 = ofText? "c.json" text := by
  have located : target (kept text) (some "c.json") = (.ok "c.json", kept text) := rfl
  have decoded : ((kept text).read "c.json").bind FileAccess.decode = .ok text := by
    rw [read_kept]
    exact decode_toUTF8 text plain
  exact congrArg Prod.fst (load_eq located decoded)

def shortFile : String := "\x7b\"count\": 2\x7d"

theorem load_decided_short : ∃ c,
    (load (some "c.json") : StateM FileStore _).run (kept shortFile) = (.ok c, kept shortFile) ∧
      c = ⟨.object (Entries.putAll defaults [(.ofText "count", .number (.int 2))])⟩ ∧
      ∀ fault, c.generation? none = .error fault → fault.IsConfig := by
  have parsed : Json.read? shortFile = .ok (.object [(.ofText "count", .number (.int 2))]) :=
    Json.eq_ok_of_agrees (by decide +kernel)
  have decoded : ((kept shortFile).read "c.json").bind FileAccess.decode = .ok shortFile := by
    rw [read_kept]
    exact decode_toUTF8 shortFile (by decide +kernel)
  have located : target (kept shortFile) (some "c.json") = (.ok "c.json", kept shortFile) := rfl
  obtain ⟨loaded, run, accepted, -, -, faults⟩ := load_decided located decoded none
  obtain rfl := (accepted _).mpr ⟨_, parsed, by decide, rfl⟩
  refine ⟨_, run, rfl, fun fault failed => Classical.byContradiction fun other => ?_⟩
  have escaped := (faults fault).mp ⟨failed, other⟩
  rw [escapes_object parsed, if_neg (by decide)] at escaped
  rcases escaped with ⟨-, bare⟩ | ⟨-, -, ⟨n, same, x, negative, own, -⟩ |
    ⟨-, n, same, x, negative, own, -⟩⟩
  · cases bare
  · cases same
    cases own
  · cases same
    cases own

theorem load_escaped (text : String) (plain : FileAccess.universalLines text.toList = text.toList)
    {fault : Fault} (escaped : Escapes text none fault) :
    (((load (some "c.json") : StateM FileStore _).run (kept text)).1 >>= fun c =>
      c.generation? none) = .error fault ∧ ¬ fault.IsConfig := by
  rw [load_kept text plain]
  exact ofText?_error_iff.mpr escaped

def infiniteFile : String := "\x7b\"min_nonterminals\": Infinity\x7d"

def reservedFile : String := "\x7b\"self\": 1\x7d"

def listedFile : String := "\x7b\"seed\": []\x7d"

def surrogateFile : String := "\x7b\"seed\": \"\\ud800\"\x7d"

def undefinedFile : String := "\x7b\"exploration_budget\": NaN\x7d"

/-- An infinite width, the reserved name, and a list or a surrogate in the place of the seed are not
refused as a configuration, and a budget that is not a number is taken. -/
theorem load_unrefused :
    (((load (some "c.json") : StateM FileStore _).run (kept infiniteFile)).1 >>= fun c =>
      c.generation? none) = .error (.number .infiniteToInteger) ∧
    ((load (some "c.json") : StateM FileStore _).run (kept reservedFile)).1 = .error .wrongKind ∧
    (((load (some "c.json") : StateM FileStore _).run (kept listedFile)).1 >>= fun c =>
      c.generation? none) = .error .wrongKind ∧
    (((load (some "c.json") : StateM FileStore _).run (kept surrogateFile)).1 >>= fun c =>
      c.generation? none) = .error (.encoding ⟨0, 0, 1⟩) ∧
    (∃ s source, (((load (some "c.json") : StateM FileStore _).run (kept undefinedFile)).1 >>= fun c =>
      c.generation? none) = .ok (s, source) ∧ ∃ b ∈ s.budget, (Number.int 0).le b = false) ∧
    ¬ (Fault.number .infiniteToInteger).IsConfig ∧ ¬ Fault.wrongKind.IsConfig ∧
    ¬ (Fault.encoding ⟨0, 0, 1⟩).IsConfig := by
  have infinite : Json.read? infiniteFile =
      .ok (.object [(.ofText "min_nonterminals", .number (.float (1.0 / 0.0)))]) :=
    Json.eq_ok_of_agrees (by decide +kernel)
  have wide : MeetsInfinite [(.ofText "min_nonterminals", .number (.float (1.0 / 0.0)))] :=
    .inl ⟨.float (1.0 / 0.0), rfl, 1.0 / 0.0, false, rfl, by decide +kernel⟩
  have reserved : Json.read? reservedFile = .ok (.object [(.ofText "self", .number (.int 1))]) :=
    Json.eq_ok_of_agrees (by decide +kernel)
  have listed : Json.read? listedFile = .ok (.object [(.ofText "seed", .list [])]) :=
    Json.eq_ok_of_agrees (by decide +kernel)
  have surrogate : Json.read? surrogateFile =
      .ok (.object [(.ofText "seed", .text [.surrogate 0])]) :=
    Json.eq_ok_of_agrees (by decide +kernel)
  have undefined : ((ofText? "c.json" undefinedFile >>= fun c => c.generation? none).toOption.bind
      fun made => made.1.budget.map (Number.int 0).le) = some false := by
    decide +kernel
  have numbered : ∀ cause, ¬ MeetsSeed [(.ofText "min_nonterminals", .number (.float (1.0 / 0.0)))]
      none cause := by
    rintro cause ⟨-, bare⟩
    cases bare
  have overflowed := load_escaped infiniteFile (by decide +kernel)
    (.width infinite (by decide) numbered wide)
  have unhashed := load_escaped listedFile (by decide +kernel)
    (.seed listed (by decide) ⟨rfl, .list []⟩)
  have unspelled := load_escaped surrogateFile (by decide +kernel)
    (.seed surrogate (by decide) ⟨rfl, .text [] 0 []⟩)
  refine ⟨overflowed.1, ?_, unhashed.1, unspelled.1, ?_, overflowed.2, unhashed.2, unspelled.2⟩
  · rw [load_kept reservedFile (by decide +kernel)]
    unfold ofText?
    rw [reserved]
    rfl
  · rw [load_kept undefinedFile (by decide +kernel)]
    cases made : ofText? "c.json" undefinedFile >>= fun c => c.generation? none with
    | error fault => simp [made, Except.toOption] at undefined
    | ok found =>
      rw [made] at undefined
      obtain ⟨b, own, below⟩ := Option.map_eq_some_iff.mp undefined
      exact ⟨found.1, found.2, rfl, b, own, below⟩

end Config
end GrammarSampler
