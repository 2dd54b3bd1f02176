import GrammarSampler.GrammarFile
import GrammarSampler.Proofs.Dictionary.Hygiene
import GrammarSampler.Proofs.Faults
import GrammarSampler.Proofs.Json.Reading

/-!
What a grammar file of JSON is refused for. Each place of the file is checked by another function.
Two of the checks are for kinds of values that the next step could not go on with and that no fault
of grammars is given for: the alternatives of a key, and the start beside the rules.
-/
namespace GrammarSampler

/-- The grammar is refused for what it says. -/
def Fault.IsOwn (fault : Fault) : Prop := ∃ own, fault = .grammar own

theorem Grammar.faults_build (rules : Rules) (start : String) :
    FaultsIn Fault.IsOwn (build rules start).outcome := by
  rw [build_outcome]
  cases build? rules start with
  | ok g => exact .of_ok g
  | error own => exact .of_error ⟨own, rfl⟩

def Json.isListing : Json → Bool
  | .null | .number _ => false
  | .text _ | .list _ | .object _ => true

namespace Dictionary

/-- The alternatives of one key cannot be gone through, and those of the keys before it are read. -/
def Halts (members : Entries Json) : Prop :=
  ∃ before key value after queue, members = before ++ (key, value) :: after ∧
    value.isListing = false ∧ (entries before).outcome = .ok queue

section Reading
variable {members rest : Entries Json} {key : String} {value : Json}

def announced (key : String) (value : Json) : Except Fault Pending := do
  let items ← alternatives? key value
  let alternatives ← (allAlternatives key items).outcome
  return ⟨bareName key, alternatives⟩

theorem entries_cons : (entries ((key, value) :: rest)).outcome = (do
    let first ← announced key value
    let later ← (entries rest).outcome
    return first :: later) := by
  simp only [entries, announced, Report.outcome_seq, Report.ofExcept]
  cases alternatives? key value with
  | error fault => rfl
  | ok items =>
    simp only [bind, Except.bind]
    cases (allAlternatives key items).outcome with
    | error fault => rfl
    | ok alternatives => rfl

theorem faults_alternative (key : String) (value : Json) :
    FaultsIn Fault.IsOwn (alternative key value).outcome := by
  unfold alternative
  split
  · exact .of_ok _
  · rename_i text options
    rw [Report.outcome_seq]
    refine FaultsIn.bind (.of_ok _) fun _ _ => ?_
    rw [Report.outcome_seq]
    refine FaultsIn.bind ?_ fun weight _ => .of_ok _
    unfold weight?
    split
    · exact .of_ok _
    · exact .of_ok _
    · exact .of_ok _
    · exact .of_error ⟨_, rfl⟩
  · exact .of_error ⟨_, rfl⟩

theorem faults_allAlternatives (key : String) (items : List Json) :
    FaultsIn Fault.IsOwn (allAlternatives key items).outcome := by
  induction items with
  | nil => exact .of_ok []
  | cons value rest ih =>
    rw [allAlternatives, Report.outcome_seq]
    refine (faults_alternative key value).bind fun first _ => ?_
    rw [Report.outcome_seq]
    exact ih.bind fun later _ => .of_ok _

theorem faults_announced (listing : value.isListing = true) :
    FaultsIn Fault.IsOwn (announced key value) := by
  refine FaultsIn.bind ?_ fun items _ =>
    (faults_allAlternatives key items).bind fun alternatives _ => .of_ok _
  cases value with
  | null => cases listing
  | number n => cases listing
  | text text => exact .of_error ⟨_, rfl⟩
  | list items => exact .of_ok items
  | object members => exact .of_ok _

theorem announced_bare (bare : value.isListing = false) : announced key value = .error .wrongKind := by
  cases value with
  | null => rfl
  | number n => rfl
  | text text => cases bare
  | list items => cases bare
  | object members => cases bare

theorem halts_cons : Halts ((key, value) :: rest) ↔
    value.isListing = false ∨ (∃ p, announced key value = .ok p) ∧ Halts rest := by
  constructor
  · rintro ⟨before, key', value', after, queue, whole, bare, read⟩
    cases before with
    | nil =>
      obtain ⟨same, rfl⟩ := List.cons.inj whole
      obtain ⟨rfl, rfl⟩ := Prod.mk.inj same
      exact .inl bare
    | cons entry before =>
      obtain ⟨rfl, rfl⟩ := List.cons.inj whole
      rw [entries_cons] at read
      obtain ⟨p, first, read⟩ := bind_eq_ok_iff.mp read
      obtain ⟨others, later, -⟩ := bind_eq_ok_iff.mp read
      exact .inr ⟨⟨p, first⟩, before, key', value', after, others, rfl, bare, later⟩
  · rintro (bare | ⟨⟨p, first⟩, before, key', value', after, queue, rfl, bare, read⟩)
    · exact ⟨[], key, value, rest, [], rfl, bare, rfl⟩
    · refine ⟨(key, value) :: before, key', value', after, p :: queue, rfl, bare, ?_⟩
      rw [entries_cons, first, read]
      rfl

theorem entries_cases (members : Entries Json) :
    FaultsIn Fault.IsOwn (entries members).outcome ∧ ¬ Halts members ∨
      (entries members).outcome = .error .wrongKind ∧ Halts members := by
  induction members with
  | nil =>
    refine .inl ⟨.of_ok [], ?_⟩
    rintro ⟨before, key, value, after, queue, whole, -⟩
    cases before <;> cases whole
  | cons entry rest ih =>
    obtain ⟨key, value⟩ := entry
    rw [halts_cons, entries_cons]
    cases listing : value.isListing with
    | false =>
      rw [announced_bare listing]
      exact .inr ⟨rfl, .inl rfl⟩
    | true =>
      have first := @faults_announced key value listing
      cases read : announced key value with
      | error fault =>
        rw [read] at first
        refine .inl ⟨.of_error (first fault rfl), ?_⟩
        rintro (bare | ⟨⟨p, other⟩, -⟩)
        · cases bare
        · cases other
      | ok p =>
        rcases ih with ⟨faults, goes⟩ | ⟨refused, halts⟩
        · refine .inl ⟨faults.bind fun later _ => .of_ok _, ?_⟩
          rintro (bare | ⟨-, halts⟩)
          · cases bare
          · exact goes halts
        · refine .inr ⟨?_, .inr ⟨⟨p, rfl⟩, halts⟩⟩
          rw [refused]
          rfl

end Reading

def IsUsual (fault : Fault) : Prop := fault.IsOwn ∨ fault = .unfinished

theorem faults_ofDraft (symbols : List Symbol) (weight : Option Number) :
    FaultsIn IsUsual (Expansion.ofDraft (symbols.map .symbol) weight) := by
  unfold Expansion.ofDraft
  rw [symbols?_map]
  cases weight with
  | none => exact .of_ok _
  | some w =>
    change FaultsIn IsUsual (if w.isPositive then _ else _)
    split
    · exact .of_ok _
    · exact .of_error (.inl ⟨_, rfl⟩)

theorem faults_flatten? (name : String) (text : List Char) (f : Flattening) :
    FaultsIn IsUsual (flatten? name text f) := by
  unfold flatten?
  split
  · exact .of_error (.inr rfl)
  · split
    · exact .of_error (.inr rfl)
    · exact .of_ok _

theorem faults_flattenAlternatives (name : String) (f : Flattening)
    (items : List (List Char × Option Number)) :
    FaultsIn IsUsual (flattenAlternatives name f items) := by
  induction items generalizing f with
  | nil => exact .of_ok _
  | cons item rest ih =>
    obtain ⟨text, weight⟩ := item
    exact (faults_flatten? name text f).bind fun ⟨symbols, f⟩ _ =>
      (faults_ofDraft symbols weight).bind fun e _ => (ih f).bind fun _ _ => .of_ok _

theorem faults_flattenRule (f : Flattening) (p : Pending) : FaultsIn IsUsual (flattenRule f p) :=
  (faults_flattenAlternatives p.name f p.alternatives).bind fun _ _ => .of_ok _

theorem faults_foldlM (queue : List Pending) (f : Flattening) :
    FaultsIn IsUsual (queue.foldlM flattenRule f) := by
  induction queue generalizing f with
  | nil => exact .of_ok f
  | cons p rest ih =>
    rw [List.foldlM_cons]
    exact (faults_flattenRule f p).bind fun f _ => ih f

theorem faults_drain (n : Nat) (f : Flattening) : FaultsIn IsUsual (drain n f) := by
  induction n generalizing f with
  | zero =>
    rw [drain]
    split
    · exact .of_ok f
    · exact .of_error (.inr rfl)
  | succ n ih =>
    rw [drain]
    split
    · exact .of_ok f
    · exact (faults_foldlM f.queue _).bind fun f _ => ih f

theorem rules_cases (members : Entries Json) :
    FaultsIn IsUsual (rules members).outcome ∧ ¬ Halts members ∨
      (rules members).outcome = .error .wrongKind ∧ Halts members := by
  rw [rules, Report.outcome_seq]
  rcases entries_cases members with ⟨faults, goes⟩ | ⟨refused, halts⟩
  · refine .inl ⟨(faults.mono fun _ => .inl).bind fun pending _ => ?_, goes⟩
    rw [Report.outcome_seq]
    refine (faults_drain rounds _).bind fun f _ => ?_
    rw [Report.outcome_seq]
    exact FaultsIn.bind (.of_ok ()) fun _ _ => .of_ok _
  · rw [refused]
    exact .inr ⟨rfl, halts⟩

section Loading
variable {members : Entries Json} {start : Json}

theorem not_halts {made : Rules} (success : (rules members).outcome = .ok made) : ¬ Halts members := by
  rcases rules_cases members with ⟨-, goes⟩ | ⟨refused, -⟩
  · exact goes
  · rw [success] at refused
    cases refused

/-- With a start of any kind a dictionary is loaded, refused for what it says or not gone through, or
it lacks a name to start with. -/
theorem load_cases (members : Entries Json) (start : Json) :
    FaultsIn IsUsual (load members start).outcome ∧ ¬ Halts members ∧
        ((∀ name, start ≠ .text name) → ∀ made, (rules members).outcome ≠ .ok made) ∨
      (load members start).outcome = .error .wrongKind ∧ Halts members ∨
      (load members start).outcome = .error .noOperation ∧ (∀ name, start ≠ .text name) ∧
        ∃ made, (rules members).outcome = .ok made := by
  rw [load, Report.outcome_seq]
  rcases rules_cases members with ⟨faults, goes⟩ | ⟨refused, halts⟩
  · cases read : (rules members).outcome with
    | error fault =>
      rw [read] at faults
      exact .inl ⟨.of_error (faults fault rfl), goes, fun _ => nofun⟩
    | ok made =>
      cases start with
      | text name =>
        have built := Grammar.faults_build made (bareName name)
        exact .inl ⟨built.mono fun _ => .inl, goes, fun other => absurd rfl (other name)⟩
      | null => exact .inr (.inr ⟨rfl, nofun, made, rfl⟩)
      | number n => exact .inr (.inr ⟨rfl, nofun, made, rfl⟩)
      | list items => exact .inr (.inr ⟨rfl, nofun, made, rfl⟩)
      | object members => exact .inr (.inr ⟨rfl, nofun, made, rfl⟩)
  · rw [refused]
    exact .inr (.inl ⟨rfl, halts⟩)

theorem faults_load (members : Entries Json) (start : Json) :
    FaultsIn (fun fault => IsUsual fault ∨ fault = .wrongKind ∨ fault = .noOperation)
      (load members start).outcome := by
  rcases load_cases members start with ⟨usual, -⟩ | ⟨refused, -⟩ | ⟨refused, -⟩
  · exact usual.mono fun _ => .inl
  · rw [refused]
    exact .of_error (.inr (.inl rfl))
  · rw [refused]
    exact .of_error (.inr (.inr rfl))

theorem load_wrongKind_iff : (load members start).outcome = .error .wrongKind ↔ Halts members := by
  rcases load_cases members start with ⟨usual, goes, -⟩ | ⟨refused, halts⟩ | ⟨refused, -, made, success⟩
  · refine ⟨fun failed => ?_, fun halts => absurd halts goes⟩
    rcases usual _ failed with ⟨own, other⟩ | other <;> cases other
  · exact ⟨fun _ => halts, fun _ => refused⟩
  · rw [refused]
    exact ⟨nofun, fun halts => absurd halts (not_halts success)⟩

theorem load_noOperation_iff : (load members start).outcome = .error .noOperation ↔
    (∀ name, start ≠ .text name) ∧ ∃ made, (rules members).outcome = .ok made := by
  rcases load_cases members start with ⟨usual, -, never⟩ | ⟨refused, halts⟩ | ⟨refused, found⟩
  · refine ⟨fun failed => ?_, fun ⟨other, made, success⟩ => absurd success (never other made)⟩
    rcases usual _ failed with ⟨own, other⟩ | other <;> cases other
  · rw [refused]
    exact ⟨nofun, fun ⟨_, made, success⟩ => absurd halts (not_halts success)⟩
  · exact ⟨fun _ => found, fun _ => refused⟩

end Loading

end Dictionary

namespace GrammarFile

/-- The object that maps names to alternatives: the one under `rules`, or all of the file. -/
def mapping (members : Entries Json) : Entries Json :=
  match members.get? "rules" with
  | some (.object rules) => rules
  | _ => members

/-- The start of a file for which none is asked: what stands beside an object under `rules`. -/
def ownStart (members : Entries Json) : Json :=
  match members.get? "rules" with
  | some (.object _) => (members.get? "start").getD (.text Dictionary.startKey)
  | _ => .text Dictionary.startKey

theorem ofObject_eq (members : Entries Json) (asked : Json) : ofObject members asked =
    Dictionary.load (mapping members) (if asked.isTruthy then asked else ownStart members) := by
  unfold ofObject mapping ownStart
  cases members.get? "rules" with
  | none => rfl
  | some value => cases value <;> rfl

variable {path text : String} {asked : Json}

theorem outcome_ofContent (named : isJson path = true) :
    (ofContent path (.ok text) asked).outcome = (ofJson path text asked).outcome := by
  rw [ofContent, Report.outcome_bind (a := text) rfl, Report.outcome_bind (a := ()) rfl, if_pos named]

theorem ofJson_object {members : Entries Json} (parsed : Json.parse? text = .ok (.object members)) :
    ofJson path text asked = ofObject members asked := by
  unfold ofJson
  rw [parsed]

theorem ofJson_other {value : Json} (parsed : Json.parse? text = .ok value)
    (other : ∀ members, value ≠ .object members) :
    ofJson path text asked = .fail (.grammar (.form (.notAnObject path))) := by
  unfold ofJson
  rw [parsed]
  cases value with
  | object members => exact absurd rfl (other members)
  | _ => rfl

/-- What a file is loaded with is no text only if it is the file's own start. -/
theorem start_other_iff (wish : asked = .null ∨ ∃ name, asked = .text name) {own : Json} :
    (∀ name, (if asked.isTruthy then asked else own) ≠ .text name) ↔
      asked.isTruthy = false ∧ ∀ name, own ≠ .text name := by
  cases given : asked.isTruthy with
  | false => simp
  | true =>
    rcases wish with rfl | ⟨name, rfl⟩
    · cases given
    · simp

end GrammarFile

open GrammarFile Dictionary in
/-- A JSON file is loaded, or refused as a grammar that is malformed or invalid, unless its conversion
does not end or one of two kinds of values is met that are not checked for. One is a key whose
alternatives are null or a number, behind keys that can all be read; the other is a start of the file
that is no text, where none is asked for and all rules can be made. No other shape of keys,
alternatives, options, weights or members brings any other fault. -/
theorem GrammarFile.ofContent_faults {path text : String} {value asked : Json}
    (named : isJson path = true) (parsed : Json.parse? text = .ok value)
    (wish : asked = .null ∨ ∃ name, asked = .text name) :
    (∀ fault, (ofContent path (.ok text) asked).outcome = .error fault →
      fault.IsOwn ∨ fault = .unfinished ∨ fault = .wrongKind ∨ fault = .noOperation) ∧
    ((ofContent path (.ok text) asked).outcome = .error .wrongKind ↔
      ∃ members, value = .object members ∧ Halts (mapping members)) ∧
    ((ofContent path (.ok text) asked).outcome = .error .noOperation ↔
      ∃ members, value = .object members ∧ asked.isTruthy = false ∧
        (∀ name, ownStart members ≠ .text name) ∧
        ∃ made, (rules (mapping members)).outcome = .ok made) ∧
    ((∀ members, value = .object members → (∀ entry ∈ mapping members, entry.2.isListing = true) ∧
        ∃ name, ownStart members = .text name) →
      ∀ fault, (ofContent path (.ok text) asked).outcome = .error fault →
        fault.IsOwn ∨ fault = .unfinished) := by
  rw [outcome_ofContent named]
  by_cases whole : ∃ members, value = .object members
  · obtain ⟨members, rfl⟩ := whole
    rw [ofJson_object parsed, ofObject_eq]
    have faults := faults_load (mapping members) (if asked.isTruthy then asked else ownStart members)
    have only : ∀ {claim : Entries Json → Prop},
        (∃ members', Json.object members = .object members' ∧ claim members') ↔ claim members := by
      simp
    refine ⟨fun fault failed => ?_, ?_, ?_, fun listed fault failed => ?_⟩
    · exact or_assoc.mp (faults fault failed)
    · rw [only]
      exact load_wrongKind_iff
    · rw [only, load_noOperation_iff, start_other_iff wish, and_assoc]
    · obtain ⟨listing, name, own⟩ := listed members rfl
      rcases faults fault failed with usual | rfl | rfl
      · exact usual
      · obtain ⟨before, key, value, after, -, split, bare, -⟩ := load_wrongKind_iff.mp failed
        have listed := listing (key, value) (split ▸ List.mem_append_right _ List.mem_cons_self)
        rw [bare] at listed
        cases listed
      · obtain ⟨other, -⟩ := load_noOperation_iff.mp failed
        exact absurd own (((start_other_iff wish).mp other).2 name)
  · have none : ∀ {claim : Entries Json → Prop},
        ¬ ∃ members, value = .object members ∧ claim members :=
      fun ⟨members, same, _⟩ => whole ⟨members, same⟩
    rw [ofJson_other parsed fun members same => whole ⟨members, same⟩]
    have faults : FaultsIn Fault.IsOwn (.error (.grammar (.form (.notAnObject path))) :
      Except Fault Grammar) := .of_error ⟨_, rfl⟩
    exact ⟨fun fault failed => .inl (faults fault failed), ⟨nofun, fun found => absurd found none⟩,
      ⟨nofun, fun found => absurd found none⟩, fun _ fault failed => .inl (faults fault failed)⟩

theorem isJson_plain : GrammarFile.isJson "g.json" = true := by
  have apart : "g.json".splitOn "/" = ["g.json"] := by
    simp +decide [String.splitOn, String.splitOnAux]
  have base : Path.baseName "g.json" = "g.json" := by
    rw [Path.baseName, Path.parts, apart]
    decide +kernel
  rw [GrammarFile.isJson, Path.suffix, base]
  decide +kernel

def numberedFile : String := "\x7b\"start\": \"a\", \"rules\": \x7b\"<b>\": [5]\x7d\x7d"

theorem GrammarFile.ofContent_faults_numbered : ∃ value, Json.parse? numberedFile = .ok value ∧
    ∀ fault, (ofContent "g.json" (.ok numberedFile) .null).outcome = .error fault →
      fault.IsOwn ∨ fault = .unfinished := by
  have parsed : Json.parse? numberedFile = .ok (.object
      [("start", .text "a"), ("rules", .object [("<b>", .list [.number (.int 5)])])]) :=
    Json.eq_ok_of_agrees (by decide +kernel)
  obtain ⟨-, -, -, checked⟩ :=
    GrammarFile.ofContent_faults isJson_plain parsed (.inl (rfl : Json.null = .null))
  refine ⟨_, parsed, checked ?_⟩
  rintro members same
  cases same
  exact ⟨by decide, "a", rfl⟩

def bareFile : String := "\x7b\"<start>\": 5\x7d"

def namelessFile : String := "\x7b\"start\": 5, \"rules\": \x7b\"<start>\": [\"x\"]\x7d\x7d"

theorem GrammarFile.ofContent_unchecked :
    (∃ value, Json.parse? bareFile = .ok value ∧
      (ofContent "g.json" (.ok bareFile) .null).outcome = .error .wrongKind) ∧
    (∃ value, Json.parse? namelessFile = .ok value ∧
      (ofContent "g.json" (.ok namelessFile) .null).outcome = .error .noOperation) ∧
    ¬ Fault.wrongKind.IsOwn ∧ ¬ Fault.noOperation.IsOwn := by
  have bare : Json.parse? bareFile = .ok (.object [("<start>", .number (.int 5))]) :=
    Json.eq_ok_of_agrees (by decide +kernel)
  have nameless : Json.parse? namelessFile = .ok (.object
      [("start", .number (.int 5)), ("rules", .object [("<start>", .list [.text "x"])])]) :=
    Json.eq_ok_of_agrees (by decide +kernel)
  refine ⟨⟨_, bare, ?_⟩, ⟨_, nameless, ?_⟩, ?_, ?_⟩
  · rw [outcome_ofContent isJson_plain, ofJson_object bare]
    rfl
  · rw [outcome_ofContent isJson_plain, ofJson_object nameless]
    rfl
  · rintro ⟨own, same⟩
    cases same
  · rintro ⟨own, same⟩
    cases same

end GrammarSampler
