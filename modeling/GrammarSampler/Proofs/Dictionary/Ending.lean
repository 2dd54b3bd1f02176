import GrammarSampler.Proofs.Dictionary.Language
import GrammarSampler.Proofs.Dictionary.Matches

/-!
Whether the conversion of a dictionary ends. Every step takes an operator away that stands behind a
closing bracket, but puts a fresh name into the text. If the name brings no such operator with it,
the steps run out; a name that brings a whole group lets them go on for ever.
-/
namespace GrammarSampler.Dictionary
open Ebnf (Times Lowering)

def isSign (c : Char) : Bool := (Times.ofChar? c).isSome

def isCloser (c : Char) : Bool := c == ')' || c == '>'

/-- No operator stands right behind a closing bracket of the name. -/
def Tame (name : String) : Prop :=
  name.toList.IsChain fun b c => ¬ (isCloser b = true ∧ isSign c = true)

instance (name : String) : Decidable (Tame name) :=
  inferInstanceAs (Decidable (name.toList.IsChain fun b c => ¬ (isCloser b = true ∧ isSign c = true)))

section Runs
variable {closer : Char} {armed : Bool} {text rest : List Char} {name : String}

/-- How many operators stand in runs right behind `closer`. When `armed`, the text goes on with such
a run. -/
def runs (closer : Char) : Bool → List Char → Nat
  | _, [] => 0
  | armed, c :: rest =>
    (armed && isSign c).toNat + runs closer (c == closer || armed && isSign c) rest

def armedAfter (closer : Char) : Bool → List Char → Bool
  | armed, [] => armed
  | armed, c :: rest => armedAfter closer (c == closer || armed && isSign c) rest

theorem runs_append : runs closer armed (text ++ rest) =
    runs closer armed text + runs closer (armedAfter closer armed text) rest := by
  induction text generalizing armed with
  | nil => simp [runs, armedAfter]
  | cons c text ih => rw [List.cons_append, runs, runs, armedAfter, ih, Nat.add_assoc]

theorem armedAfter_append : armedAfter closer armed (text ++ rest) =
    armedAfter closer (armedAfter closer armed text) rest := by
  induction text generalizing armed with
  | nil => rfl
  | cons c text ih => exact ih

theorem runs_le_length : runs closer armed text ≤ text.length := by
  induction text generalizing armed with
  | nil => exact Nat.le_refl 0
  | cons c text ih =>
    have later := @ih (c == closer || armed && isSign c)
    have one : (armed && isSign c).toNat ≤ 1 := Bool.toNat_le _
    rw [runs, List.length_cons]
    omega

theorem runs_le_armed : runs closer armed text ≤ runs closer true text := by
  cases armed with
  | true => exact Nat.le_refl _
  | false =>
    induction text with
    | nil => exact Nat.le_refl 0
    | cons c text ih =>
      rw [runs, runs]
      cases sign : isSign c with
      | false => simp
      | true =>
        cases closes : c == closer with
        | true => simp
        | false =>
          simp only [Bool.false_and, Bool.true_and, Bool.or_self, Bool.or_true, Bool.toNat_false,
            Bool.toNat_true]
          omega

theorem runs_of_notMem (absent : closer ∉ text) :
    runs closer false text = 0 ∧ armedAfter closer false text = false := by
  induction text with
  | nil => exact ⟨rfl, rfl⟩
  | cons c text ih =>
    have apart : (c == closer) = false := by
      rw [beq_eq_false_iff_ne]
      rintro rfl
      exact absent List.mem_cons_self
    rw [runs, armedAfter, apart]
    simpa using ih fun inside => absent (List.mem_cons_of_mem c inside)

theorem runs_of_chain (closes : isCloser closer = true)
    (chain : text.IsChain fun b c => ¬ (isCloser b = true ∧ isSign c = true))
    (first : armed = true → ∀ c ∈ text.head?, isSign c = false) : runs closer armed text = 0 := by
  induction text generalizing armed with
  | nil => rfl
  | cons c text ih =>
    have none : (armed && isSign c) = false := by
      cases armed with
      | false => rfl
      | true => exact first rfl c rfl
    rw [runs, none, Bool.or_false, Bool.toNat_false, Nat.zero_add]
    apply ih chain.tail
    intro opened d next
    cases text with
    | nil => cases next
    | cons e rest =>
      cases next
      have apart := (List.isChain_cons_cons.mp chain).1
      rw [beq_iff_eq.mp opened] at apart
      simpa [closes] using apart

end Runs

section Names
variable {closer : Char} {armed : Bool} {name : String} (tame : Tame name)
include tame

theorem tame_candidate (k : Nat) : Tame (Fresh.candidate name k) := by
  cases k with
  | zero => exact tame
  | succ k =>
    have open_ : ∀ c ∈ '-' :: Nat.toDigits 10 (k + 1), isCloser c = false := by
      intro c inside
      have plain := (isPlain_of_number inside).1
      simp only [isPlain, Bool.and_eq_true, bne_iff_ne] at plain
      simp [isCloser, plain]
    unfold Tame
    rw [Fresh.toList_candidate_succ, List.isChain_append]
    refine ⟨tame, ?_, ?_⟩
    · apply List.Pairwise.isChain
      apply List.pairwise_of_forall_mem_list
      intro b inside c _ both
      rw [open_ b inside] at both
      cases both.1
    · intro b _ c first both
      cases first
      cases both.2

theorem tame_fresh (taken : List String) : Tame (Fresh.name taken name) := by
  obtain ⟨k, -, same⟩ := Fresh.exists_candidate taken name
  rw [same]
  exact tame_candidate tame k

/-- A tame name in brackets adds no operator to a run, but its own bracket may begin one. -/
theorem runs_bracketed (closes : isCloser closer = true) :
    runs closer armed (bracketed name) = 0 ∧
      armedAfter closer armed (bracketed name) = ('>' == closer) := by
  have apart : ('<' == closer) = false := by
    rw [beq_eq_false_iff_ne]
    rintro rfl
    cases closes
  have none : runs closer false name.toList = 0 := runs_of_chain closes tame (fun open_ => by cases open_)
  rw [bracketed, runs, armedAfter, runs_append, armedAfter_append]
  have sign : isSign '<' = false := rfl
  have sign' : isSign '>' = false := rfl
  simp [apart, sign, sign', none, runs, armedAfter]

end Names

theorem Match.Cuts.runs_eq {m : Match} {opening closer : Char} {inside : Char → Bool}
    {text : List Char} (cuts : m.Cuts opening closer inside text) (opens : isSign opening = false)
    (apart : (opening == closer) = false) (outside : inside closer = false) (armed : Bool) :
    runs closer armed text = runs closer armed m.before + (1 + runs closer true m.after) := by
  have inner : closer ∉ m.inner := by
    intro here
    rw [cuts.inner closer here] at outside
    cases outside
  have sign : isSign m.sign = true := cuts.sign
  obtain ⟨none, closed⟩ := runs_of_notMem inner
  rw [cuts.text_eq, runs_append, runs, opens, apart, runs_append]
  simp [none, closed, runs, sign]

section Steps
variable {m : Match} {text : List Char} {fresh : String}

theorem runs_group (cuts : m.Cuts '(' ')' isGroupChar text) (tame : Tame fresh) (armed : Bool) :
    runs ')' armed (m.before ++ bracketed fresh ++ m.sign :: m.after) < runs ')' armed text := by
  obtain ⟨none, closed⟩ := @runs_bracketed ')' (armedAfter ')' armed m.before) fresh tame rfl
  have apart : ('>' == ')') = false := rfl
  have after := @runs_le_armed ')' (m.sign == ')') m.after
  rw [cuts.runs_eq rfl rfl rfl, runs_append, runs_append, none, armedAfter_append, closed, apart, runs]
  simp only [Bool.false_and, Bool.or_false, Bool.toNat_false]
  omega

theorem runs_sign (cuts : m.Cuts '<' '>' isNameChar text) (tame : Tame fresh) (armed : Bool) :
    runs '>' armed (m.before ++ bracketed fresh ++ m.after) < runs '>' armed text := by
  obtain ⟨none, closed⟩ := @runs_bracketed '>' (armedAfter '>' armed m.before) fresh tame rfl
  have same : ('>' == '>') = true := rfl
  rw [cuts.runs_eq rfl rfl rfl, runs_append, runs_append, none, armedAfter_append, closed, same]
  omega

end Steps

def Pending.Flat (p : Pending) : Prop := ∀ item ∈ p.alternatives, ∀ c ∈ item.1, isGroupChar c = true

structure Pending.Ready (p : Pending) : Prop where
  tame : Tame p.name
  positive : ∀ item ∈ p.alternatives, ∀ n, item.2 = some n → n.isPositive = true

/-- What joins the queue is ready and flat, and nothing does on the way through flat texts. -/
structure Joins (flat : Prop) (f f' : Flattening) : Prop where
  ready : ∀ p ∈ f'.queue, p ∈ f.queue ∨ p.Ready ∧ p.Flat
  none : flat → f'.queue = f.queue

namespace Joins
variable {flat first later : Prop} {f f' f'' : Flattening}

theorem of_eq (same : f'.queue = f.queue) : Joins flat f f' :=
  ⟨fun _ inside => .inl (same ▸ inside), fun _ => same⟩

theorem trans (head : Joins first f f') (tail : Joins later f' f'') :
    Joins (first ∧ later) f f'' := by
  constructor
  · intro p inside
    rcases tail.ready p inside with old | new
    · exact head.ready p old
    · exact .inr new
  · rintro ⟨one, rest⟩
    rw [tail.none rest, head.none one]

theorem mono (joins : Joins flat f f') (weaker : first → flat) : Joins first f f' :=
  ⟨joins.ready, fun holds => joins.none (weaker holds)⟩

end Joins

section Loops
variable {name : String} {text : List Char} {f : Flattening} {fuel : Nat}

theorem exists_flattenGroups (tame : Tame name) (enough : runs ')' false text < fuel) :
    ∃ text' f', flattenGroups name fuel text f = some (text', f') ∧
      Joins (∀ c ∈ text, isGroupChar c = true) f f' := by
  induction fuel generalizing text f with
  | zero => omega
  | succ fuel ih =>
    rw [flattenGroups]
    cases found : findGroup? text with
    | none => exact ⟨text, f, rfl, .of_eq rfl⟩
    | some m =>
      have cuts := findGroup?_eq_some found
      have fewer := runs_group cuts (tame_fresh tame f.taken) false
      obtain ⟨text', f', done, later⟩ := @ih
        (m.before ++ bracketed (Fresh.name f.taken name) ++ m.sign :: m.after)
        (f.postpone name m.inner) (by omega)
      refine ⟨text', f', done, ?_, ?_⟩
      · intro p inside
        rcases later.ready p inside with old | new
        · rcases List.mem_append.mp old with before | here
          · exact .inl before
          · right
            rw [List.mem_singleton.mp here]
            refine ⟨⟨tame_fresh tame f.taken, ?_⟩, ?_⟩
            · intro item only n weight
              rw [List.mem_singleton.mp only] at weight
              cases weight
            · intro item only
              rw [List.mem_singleton.mp only]
              exact cuts.inner
        · exact .inr new
      · intro flat
        have opening : isGroupChar '(' = true := flat '(' (by rw [cuts.text_eq]; simp)
        cases opening

theorem exists_flattenSigns (tame : Tame name) (enough : runs '>' false text < fuel) :
    ∃ text' f', flattenSigns name fuel text f = some (text', f') ∧ f'.queue = f.queue := by
  induction fuel generalizing text f with
  | zero => omega
  | succ fuel ih =>
    rw [flattenSigns]
    cases found : findSignedName? text with
    | none => exact ⟨text, f, rfl, rfl⟩
    | some m =>
      have cuts := findSignedName?_eq_some found
      have fewer := runs_sign cuts (tame_fresh tame f.taken) false
      obtain ⟨text', f', done, same⟩ := @ih
        (m.before ++ bracketed (Fresh.name f.taken name) ++ m.after)
        (f.settle name (String.ofList m.inner) ((Times.ofChar? m.sign).getD .optional)) (by omega)
      exact ⟨text', f', done, same⟩

theorem exists_flatten? (tame : Tame name) (text : List Char) (f : Flattening) :
    ∃ symbols f', flatten? name text f = .ok (symbols, f') ∧
      Joins (∀ c ∈ text, isGroupChar c = true) f f' := by
  obtain ⟨text', f', grouped, joins⟩ := @exists_flattenGroups name text f (flattenBound name text) tame
    (Nat.lt_of_le_of_lt runs_le_length (length_lt_flattenBound name text))
  obtain ⟨text'', f'', signed, same⟩ := @exists_flattenSigns name text' f' (flattenBound name text') tame
    (Nat.lt_of_le_of_lt runs_le_length (length_lt_flattenBound name text'))
  refine ⟨tokens text'', f'', ?_, ?_⟩
  · unfold flatten?
    rw [grouped]
    dsimp only
    rw [signed]
  · exact (joins.trans (Joins.of_eq same)).mono fun flat => ⟨flat, trivial⟩

theorem exists_flattened {items : List (List Char × Option Number)} (tame : Tame name)
    (positive : ∀ item ∈ items, ∀ n, item.2 = some n → n.isPositive = true) (f : Flattening) :
    ∃ expansions f', flattenAlternatives name f items = .ok (expansions, f') ∧
      Joins (∀ item ∈ items, ∀ c ∈ item.1, isGroupChar c = true) f f' := by
  induction items generalizing f with
  | nil => exact ⟨[], f, rfl, .of_eq rfl⟩
  | cons item items ih =>
    obtain ⟨here, others⟩ := List.forall_mem_cons.mp positive
    obtain ⟨symbols, f', one, first⟩ := exists_flatten? tame item.1 f
    obtain ⟨expansions, f'', rest, later⟩ := ih others f'
    refine ⟨⟨symbols, item.2⟩ :: expansions, f'', ?_, ?_⟩
    · rw [flattenAlternatives, one]
      change (Expansion.ofDraft _ item.2 >>= fun e => _) = _
      rw [ofDraft_symbols symbols here]
      change (flattenAlternatives name _ items >>= fun later => _) = _
      rw [rest]
      rfl
    · exact (first.trans later).mono List.forall_mem_cons.mp

end Loops

section Queue
variable {p : Pending} {queue : List Pending}

theorem exists_flattenedRule (ready : p.Ready) (f : Flattening) :
    ∃ f', flattenRule f p = .ok f' ∧ Joins p.Flat f f' := by
  obtain ⟨expansions, f', done, joins⟩ := exists_flattened ready.tame ready.positive f
  refine ⟨{ f' with rules := f'.rules.extend p.name expansions }, ?_, joins.ready, joins.none⟩
  rw [flattenRule, done]
  rfl

theorem exists_flattenedQueue (ready : ∀ p ∈ queue, p.Ready) (f : Flattening) :
    ∃ f', queue.foldlM flattenRule f = .ok f' ∧ Joins (∀ p ∈ queue, p.Flat) f f' := by
  induction queue generalizing f with
  | nil => exact ⟨f, rfl, .of_eq rfl⟩
  | cons p queue ih =>
    obtain ⟨here, others⟩ := List.forall_mem_cons.mp ready
    obtain ⟨f', one, first⟩ := exists_flattenedRule here f
    obtain ⟨f'', rest, later⟩ := ih others f'
    refine ⟨f'', ?_, (first.trans later).mono List.forall_mem_cons.mp⟩
    rw [List.foldlM_cons, one]
    exact rest

/-- What the first round queues is flat, so that the second one queues nothing. -/
theorem exists_drained (ready : ∀ p ∈ queue, p.Ready) (taken : List String) (rules : Rules) :
    ∃ f, drain rounds ⟨taken, rules, queue⟩ = .ok f := by
  obtain ⟨f, one, first⟩ := exists_flattenedQueue ready ⟨taken, rules, []⟩
  have new : ∀ p ∈ f.queue, p.Ready ∧ p.Flat := by
    intro p inside
    exact (first.ready p inside).resolve_left List.not_mem_nil
  obtain ⟨f', rest, later⟩ := exists_flattenedQueue (fun p inside => (new p inside).1)
    { f with queue := [] }
  have done : f'.queue = [] := later.none fun p inside => (new p inside).2
  refine ⟨f', ?_⟩
  rw [rounds, drain_succ]
  dsimp only
  rw [one]
  change drain 1 f = _
  rw [drain_succ, rest]
  change drain 0 f' = _
  rw [drain, done]
  rfl

end Queue

/-- A text, alone or with options that give a positive weight or none. -/
inductive IsAlternative : Json → Prop where
  | bare (text : String) : IsAlternative (.text text)
  | weighted (text : String) {options : Entries Json} (weight : WeighsPositive options) :
      IsAlternative (.list [.text text, .object options])

section Entries
variable {key : String}

theorem exists_read {value : Json} (valid : IsAlternative value) :
    ∃ item, (alternative key value).outcome = .ok item ∧
      ∀ n, item.2 = some n → n.isPositive = true := by
  cases valid with
  | bare text => exact ⟨_, rfl, nofun⟩
  | @weighted text options weight =>
    obtain ⟨weight, found, positive⟩ := @exists_weight key options weight
    refine ⟨(text.toList, weight), ?_, positive⟩
    rw [alternative, Report.outcome_bind (a := ()) rfl, Report.outcome_bind (a := weight) found]
    rfl

theorem exists_allRead {items : List Json} (valid : ∀ item ∈ items, IsAlternative item) :
    ∃ read, (allAlternatives key items).outcome = .ok read ∧
      ∀ item ∈ read, ∀ n, item.2 = some n → n.isPositive = true := by
  induction items with
  | nil => exact ⟨[], rfl, nofun⟩
  | cons value items ih =>
    obtain ⟨here, others⟩ := List.forall_mem_cons.mp valid
    obtain ⟨item, one, first⟩ := @exists_read key value here
    obtain ⟨read, all, later⟩ := ih others
    refine ⟨item :: read, ?_, List.forall_mem_cons.mpr ⟨first, later⟩⟩
    rw [allAlternatives, Report.outcome_bind one, Report.outcome_bind all]
    rfl

theorem exists_ready {members : Entries Json}
    (valid : ∀ member ∈ members, ∃ items, member.2 = .list items ∧ ∀ item ∈ items, IsAlternative item)
    (tame : ∀ key ∈ members.keys, Tame (bareName key)) :
    ∃ queue, (entries members).outcome = .ok queue ∧ ∀ p ∈ queue, p.Ready := by
  induction members with
  | nil => exact ⟨[], rfl, nofun⟩
  | cons member members ih =>
    obtain ⟨key, value⟩ := member
    obtain ⟨⟨items, rfl, each⟩, others⟩ := List.forall_mem_cons.mp valid
    obtain ⟨here, later⟩ := List.forall_mem_cons.mp tame
    obtain ⟨read, one, positive⟩ := @exists_allRead key items each
    obtain ⟨queue, all, ready⟩ := ih others later
    refine ⟨⟨bareName key, read⟩ :: queue, ?_, List.forall_mem_cons.mpr ⟨⟨here, positive⟩, ready⟩⟩
    rw [entries, Report.outcome_bind (a := items) rfl, Report.outcome_bind one,
      Report.outcome_bind all]
    rfl

end Entries

/-- The conversion ends for every dictionary of valid alternatives, whatever their texts are, if no
operator stands right behind a closing bracket in the names. -/
theorem rules_end {members : Entries Json}
    (valid : ∀ member ∈ members, ∃ items, member.2 = .list items ∧ ∀ item ∈ items, IsAlternative item)
    (tame : ∀ key ∈ members.keys, Tame (bareName key)) :
    ∃ rules, (Dictionary.rules members).outcome = .ok rules := by
  obtain ⟨queue, read, ready⟩ := exists_ready valid tame
  obtain ⟨f, drained⟩ := exists_drained ready (members.keys.map bareName) []
  refine ⟨f.rules, ?_⟩
  rw [Dictionary.rules, Report.outcome_bind read, Report.outcome_bind (a := f) drained]
  rfl

/-- Brackets in names, operators between brackets that do not match and a weight. -/
def crookedMembers : Entries Json :=
  [("<(s)>", .list [.text "((a)+)*<d(>+?)+", .list [.text "<(s)>*",
      .object [("weight", .number (.int 2))]]]),
    (")d+>", .list [.text "<>+*(", .text ""])]

theorem rules_end_crooked : ∃ rules, (Dictionary.rules crookedMembers).outcome = .ok rules := by
  apply rules_end
  · intro member inside
    simp only [crookedMembers, List.mem_cons, List.not_mem_nil, or_false] at inside
    rcases inside with rfl | rfl
    · refine ⟨_, rfl, ?_⟩
      intro item listed
      simp only [List.mem_cons, List.not_mem_nil, or_false] at listed
      rcases listed with rfl | rfl
      · exact .bare _
      · exact .weighted _ rfl
    · refine ⟨_, rfl, ?_⟩
      intro item listed
      simp only [List.mem_cons, List.not_mem_nil, or_false] at listed
      rcases listed with rfl | rfl
      · exact .bare _
      · exact .bare _
  · decide

/-- A name that holds a group itself brings it into the text with every fresh name, so that the
groups never run out. -/
theorem flattenGroups_eq_none {name : String} (brings : (findGroup? name.toList).isSome)
    {text : List Char} (there : (findGroup? text).isSome) (fuel : Nat) (f : Flattening) :
    flattenGroups name fuel text f = none := by
  induction fuel generalizing text f with
  | zero => rfl
  | succ fuel ih =>
    obtain ⟨m, found⟩ := Option.isSome_iff_exists.mp there
    obtain ⟨more, spelling⟩ := Fresh.exists_toList_name f.taken name
    rw [flattenGroups, found]
    apply ih
    have again := findGroup?_infix brings (m.before ++ ['<']) (more ++ ('>' :: m.sign :: m.after))
    simpa [bracketed, spelling] using again

theorem rules_unfinished_group :
    (∀ fuel f, flattenGroups (bareName "<(a)+>") fuel "(digit)*".toList f = none) ∧
      (Dictionary.rules [("<(a)+>", .list [.text "(digit)*"])]).outcome = .error .unfinished := by
  have endless : ∀ fuel f, flattenGroups (bareName "<(a)+>") fuel "(digit)*".toList f = none :=
    fun fuel f => flattenGroups_eq_none (by decide) (by decide) fuel f
  have stuck : ∀ taken, drain rounds ⟨taken, [],
      [⟨bareName "<(a)+>", [("(digit)*".toList, none)]⟩]⟩ = .error .unfinished := by
    intro taken
    have first : ∀ f, flatten? (bareName "<(a)+>") "(digit)*".toList f = .error .unfinished := by
      intro f
      rw [flatten?, endless]
    rw [rounds, drain_succ]
    dsimp only
    rw [List.foldlM_cons, flattenRule, flattenAlternatives, first]
    rfl
  refine ⟨endless, ?_⟩
  rw [Dictionary.rules, Report.outcome_bind
    (a := [⟨bareName "<(a)+>", [("(digit)*".toList, none)]⟩]) rfl]
  change ((Report.ofExcept (drain rounds _)).bind _).outcome = _
  rw [stuck]
  rfl

end GrammarSampler.Dictionary
