import GrammarSampler.GrammarText.Parse
import GrammarSampler.Proofs.Ebnf.Lowering
import GrammarSampler.Proofs.Ebnf.Reader

/-!
What a grammar text means: its definitions are equations between languages, and a name stands for
its language in the least solution. The rules that the text is parsed into derive exactly that.
-/
namespace GrammarSampler.GrammarText
open Ebnf

def spelled (definitions : List Definition) (env : Environment) (name : String) : Language Char :=
  {w | ∃ d ∈ definitions, d.name = name ∧
    ∃ body, SpellsBody d.body body ∧ w ∈ bodyLanguage env body}

/-- Languages in which the definitions hold as equations. -/
def Solves (definitions : List Definition) (env : Environment) : Prop :=
  ∀ name, env name = spelled definitions env name

def Within (given : List String) (definitions : List Definition) : Prop :=
  ∀ d ∈ definitions, ∀ body, SpellsBody d.body body → ∀ name ∈ bodyNames body, name ∈ given

def referredNames (text : List Char) : List String :=
  match Ebnf.read text with
  | .done body _ => bodyNames body
  | .failed _ _ => []

theorem within_iff {given : List String} {definitions : List Definition} :
    (∀ d ∈ definitions, ∀ name ∈ referredNames d.body, name ∈ given) ↔ Within given definitions := by
  constructor
  · intro all d inside body spells name refers
    refine all d inside name ?_
    rw [referredNames, read_eq_done_iff.mpr ⟨rfl, spells⟩]
    exact refers
  · intro within d inside name refers
    unfold referredNames at refers
    split at refers
    · rename_i body rest read
      exact within d inside body (read_eq_done_iff.mp read).2 name refers
    · cases refers

instance (given : List String) (definitions : List Definition) :
    Decidable (Within given definitions) := decidable_of_iff _ within_iff

theorem mem_spelled_concat {done : List Definition} {d : Definition} {body : Body}
    (spells : SpellsBody d.body body) {env : Environment} {name : String} {w : List Char} :
    w ∈ spelled (done ++ [d]) env name ↔
      w ∈ spelled done env name ∨ d.name = name ∧ w ∈ bodyLanguage env body := by
  constructor
  · rintro ⟨other, inside, named, body', spells', word⟩
    rcases List.mem_append.mp inside with before | last
    · exact .inl ⟨other, before, named, body', spells', word⟩
    · rw [List.mem_singleton.mp last] at named spells'
      rw [spells'.unique spells] at word
      exact .inr ⟨named, word⟩
  · rintro (⟨other, before, named, body', spells', word⟩ | ⟨named, word⟩)
    · exact ⟨other, List.mem_append_left _ before, named, body', spells', word⟩
    · exact ⟨d, List.mem_append_right _ (List.mem_singleton_self d), named, body, spells, word⟩

/-- Lowers a body and adds its alternatives to the rule of the name. -/
def Definition.lower (d : Definition) (body : Body) (l : Lowering) : Lowering where
  taken := (lowerBody d.name l body).2.taken
  rules := (lowerBody d.name l body).2.rules.extend d.name
    ((lowerBody d.name l body).1.map .unweighted)

inductive Lowers : List Definition → Lowering → Lowering → Prop where
  | nil (l : Lowering) : Lowers [] l l
  | cons {d : Definition} {rest : List Definition} {body : Body} {l l' : Lowering}
      (spells : SpellsBody d.body body) (later : Lowers rest (d.lower body l) l') :
      Lowers (d :: rest) l l'

section Lowers
variable {d : Definition} {body : Body} {l l' : Lowering}

theorem Definition.rules_lower : (d.lower body l).rules =
    (lowerBody d.name l body).2.rules.extend d.name ((lowerBody d.name l body).1.map .unweighted) := rfl

theorem agrees_of_lower {given : List String} {rules : Rules}
    (agrees : Agrees given (d.lower body l) rules) (named : d.name ∈ given) :
    Agrees given (lowerBody d.name l body).2 rules := by
  intro other taken fresh
  refine (agrees other taken fresh).trans (Rules.get?_extend_other _ ?_)
  rintro rfl
  exact fresh named

theorem define_of_spells (spells : SpellsBody d.body body) :
    define d l = (.ok (), d.lower body l) := by
  unfold define
  rw [read_eq_done_iff.mpr ⟨rfl, spells⟩]
  rfl

/-- A body that can be read is read to its end, so that no definition is refused for what is left. -/
theorem define_of_done {after : List Char} (read : Ebnf.read d.body = .done body after) :
    SpellsBody d.body body ∧ define d l = (.ok (), d.lower body l) :=
  have spells := (read_eq_done_iff.mp read).2
  ⟨spells, define_of_spells spells⟩

theorem define_of_failed {why : LineFault} {complete : List Item}
    (read : Ebnf.read d.body = .failed why complete) :
    define d l = (.error (.line d.line why), (lowerSequence d.name l complete).2) := by
  unfold define
  rw [read]

theorem exists_of_define (step : define d l = (.ok (), l')) :
    ∃ body, SpellsBody d.body body ∧ l' = d.lower body l := by
  cases read : Ebnf.read d.body with
  | failed fault complete =>
    rw [define_of_failed read] at step
    cases step
  | done body after =>
    obtain ⟨spells, made⟩ := define_of_done (l := l) read
    rw [made] at step
    cases step
    exact ⟨body, spells, rfl⟩

theorem lowers_of_defineAll {definitions : List Definition} {notices notices' : List Notice}
    (run : defineAll l notices definitions = (.ok (), l', notices')) : Lowers definitions l l' := by
  induction definitions generalizing l notices with
  | nil =>
    cases run
    exact .nil _
  | cons d rest ih =>
    rw [defineAll] at run
    split at run
    · cases run
    · rename_i next step
      obtain ⟨body, spells, rfl⟩ := exists_of_define step
      exact .cons spells (ih run)

end Lowers

section Run
variable {given : List String} {done : List Definition} {l : Lowering}

/-- The alternatives of the given names mean what the definitions read so far mean. -/
structure Lowered (given : List String) (done : List Definition) (l : Lowering) : Prop where
  inside : given ⊆ l.taken
  words : ∀ rules, Agrees given l rules → ∀ name ∈ given, ∀ env w,
    (∃ e ∈ (l.rules.get? name).getD [], w ∈ rules.languageGiven given env e.symbols) ↔
      w ∈ spelled done env name

theorem lowered_start (given : List String) : Lowered given [] ⟨given, []⟩ := by
  refine ⟨List.Subset.refl given, ?_⟩
  intro rules _ name _ env w
  constructor
  · rintro ⟨e, none, -⟩
    cases none
  · rintro ⟨d, none, -⟩
    cases none

theorem Lowered.define {d : Definition} {body : Body} (lowered : Lowered given done l)
    (named : d.name ∈ given) (spells : SpellsBody d.body body)
    (known : ∀ name ∈ bodyNames body, name ∈ given) :
    Lowered given (done ++ [d]) (d.lower body l) := by
  have extends_ := extends_lowerBody d.name l body
  refine ⟨fun name known => extends_.taken (lowered.inside known), ?_⟩
  intro rules agrees name inside env w
  have earlier := agrees_of_lower agrees named
  have before := lowered.words rules (earlier.of_extends extends_) name inside env w
  rw [mem_spelled_concat spells, ← before, ← extends_.kept name (lowered.inside inside)]
  by_cases same : d.name = name
  · subst same
    have each := lowerBody_language env d.name l body lowered.inside known earlier
    rw [d.rules_lower, Rules.exists_extend_self, mem_bodyLanguage, ← exists_mem_of_map_eq each (w ∈ ·)]
    simp [Expansion.unweighted]
  · rw [d.rules_lower, Rules.get?_extend_other _ same]
    simp [same]

theorem Lowers.lowered {l' : Lowering} {rest : List Definition} (lowers : Lowers rest l l')
    (lowered : Lowered given done l) (named : ∀ d ∈ rest, d.name ∈ given)
    (within : Within given rest) : Lowered given (done ++ rest) l' := by
  induction lowers generalizing done with
  | nil =>
    rw [List.append_nil]
    exact lowered
  | @cons d rest body _ _ spells _ ih =>
    obtain ⟨here, later⟩ := List.forall_mem_cons.mp named
    obtain ⟨known, within⟩ := List.forall_mem_cons.mp within
    rw [List.append_cons]
    exact ih (lowered.define here spells (known body spells)) later within

theorem Lowered.expanded_eq (lowered : Lowered given done l) (env : Environment) :
    ∀ name ∈ given, l.rules.expanded given env l.rules name = spelled done env name := by
  intro name inside
  ext w
  exact lowered.words l.rules (fun _ _ _ => rfl) name inside env w

theorem Lowered.derived_solves (lowered : Lowered given done l)
    (named : ∀ d ∈ done, d.name ∈ given) : Solves done (l.rules.derived given) := by
  refine Rules.derived_solves lowered.expanded_eq ?_
  intro env name outside
  refine eq_zero_of_notMem ?_
  rintro w ⟨d, among, rfl, -⟩
  exact outside (named d among)

theorem Lowered.derived_le (lowered : Lowered given done l) {env : Environment}
    (solves : Solves done env) : l.rules.derived given ≤ env :=
  Rules.derived_le lowered.expanded_eq solves

end Run

theorem defineAll_ok_iff {definitions : List Definition} {l : Lowering} {notices : List Notice} :
    (defineAll l notices definitions).1 = .ok () ↔
      ∀ d ∈ definitions, ∃ body, SpellsBody d.body body := by
  induction definitions generalizing l notices with
  | nil =>
    constructor
    · intro _ d none
      cases none
    · intro _
      rfl
  | cons d rest ih =>
    rw [defineAll, List.forall_mem_cons]
    cases read : Ebnf.read d.body with
    | failed fault complete =>
      rw [define_of_failed read]
      constructor
      · intro accepted
        cases accepted
      · rintro ⟨⟨body, spells⟩, -⟩
        rw [read_eq_done_iff.mpr ⟨rfl, spells⟩] at read
        cases read
    | done body after =>
      obtain ⟨spells, made⟩ := define_of_done (l := l) read
      rw [made]
      exact ih.trans ⟨fun later => ⟨⟨body, spells⟩, later⟩, fun both => both.2⟩

section Meaning
variable {text : String} {definitions : List Definition}

theorem parse_eq (found : definitions? text.toList = .ok definitions) :
    (parse text).outcome = (defineAll ⟨definitions.map Definition.name, []⟩ [] definitions).1 ∧
      (parse text).rules =
        (defineAll ⟨definitions.map Definition.name, []⟩ [] definitions).2.1.rules := by
  unfold parse
  rw [found]
  cases run : defineAll ⟨definitions.map Definition.name, []⟩ [] definitions with
  | mk outcome rest =>
    simp only [run]
    cases outcome with
    | error fault => exact ⟨rfl, rfl⟩
    | ok _ => exact ⟨rfl, rfl⟩

theorem parse_ok_iff (found : definitions? text.toList = .ok definitions) :
    (parse text).outcome = .ok () ↔ ∀ d ∈ definitions, ∃ body, SpellsBody d.body body := by
  rw [(parse_eq found).1]
  exact defineAll_ok_iff

theorem outcome_load (accepted : (parse text).outcome = .ok ())
    (asked : Option String) : (load text asked).outcome =
      (Grammar.build? (parse text).rules ((parse text).startFor asked)).mapError .grammar := by
  have answered : (parse text).report.outcome = .ok (parse text) := by
    rw [Parse.report, accepted]
    rfl
  rw [← Grammar.build_outcome]
  exact Report.outcome_bind answered fun p => p.build asked

theorem lowers_parse (found : definitions? text.toList = .ok definitions)
    (accepted : (parse text).outcome = .ok ()) :
    ∃ l, (parse text).rules = l.rules ∧
      Lowers definitions ⟨definitions.map Definition.name, []⟩ l := by
  obtain ⟨outcome, rules⟩ := parse_eq found
  rw [accepted] at outcome
  exact ⟨_, rules, lowers_of_defineAll (Prod.ext outcome.symm rfl)⟩

theorem lowered_parse (found : definitions? text.toList = .ok definitions)
    (accepted : (parse text).outcome = .ok ())
    (within : Within (definitions.map Definition.name) definitions) :
    ∃ l, (parse text).rules = l.rules ∧ Lowered (definitions.map Definition.name) definitions l := by
  obtain ⟨l, rules, lowers⟩ := lowers_parse found accepted
  exact ⟨l, rules, lowers.lowered (lowered_start _) (fun d => List.mem_map_of_mem) within⟩

/-- The rules that an accepted text is parsed into derive from every name that the text defines
its language in the least solution. -/
theorem parse_isLeast (found : definitions? text.toList = .ok definitions)
    (accepted : (parse text).outcome = .ok ())
    (within : Within (definitions.map Definition.name) definitions) :
    ∃ least, IsLeast {env | Solves definitions env} least ∧
      ∀ name ∈ definitions.map Definition.name, ∀ w,
        (parse text).rules.Derives [.nonterminal name] w ↔ w ∈ least name := by
  obtain ⟨l, same, lowered⟩ := lowered_parse found accepted within
  refine ⟨l.rules.derived (definitions.map Definition.name), ⟨?_, ?_⟩, ?_⟩
  · exact lowered.derived_solves fun d inside => List.mem_map_of_mem inside
  · intro env solves
    exact lowered.derived_le solves
  · intro name inside w
    rw [same, Rules.mem_derived]
    exact ⟨fun derives => ⟨inside, derives⟩, fun both => both.2⟩

end Meaning

theorem eq_ok_of_toOption {α ε : Type} {result : Except ε α} {value : α}
    (found : result.toOption = some value) : result = .ok value := by
  cases result with
  | error fault => cases found
  | ok other =>
    cases found
    rfl

/-- Nested constructs, a comment, a continuation line and a name that is defined twice. -/
def nestedText : String :=
  "<s> ::= [<a>] ('x' | \"y\"+)* # end\n | \x7b<a>\x7d\n<a> ::= 'a'\n<a> ::= (<s> 'b')"

def nestedDefinitions : List Definition :=
  [⟨"s", "[<a>] ('x' | \"y\"+)* | \x7b<a>\x7d".toList, 1⟩, ⟨"a", "'a'".toList, 3⟩,
    ⟨"a", "(<s> 'b')".toList, 4⟩]

theorem parse_isLeast_nested : definitions? nestedText.toList = .ok nestedDefinitions ∧
    (parse nestedText).outcome = .ok () ∧ Within ["s", "a", "a"] nestedDefinitions ∧
      ∃ least, IsLeast {env | Solves nestedDefinitions env} least ∧
        ∀ name ∈ ["s", "a", "a"], ∀ w,
          (parse nestedText).rules.Derives [.nonterminal name] w ↔ w ∈ least name := by
  have found : definitions? nestedText.toList = .ok nestedDefinitions :=
    eq_ok_of_toOption (by decide +kernel)
  have accepted : (parse nestedText).outcome = .ok () := eq_ok_of_toOption (by decide +kernel)
  have within : Within ["s", "a", "a"] nestedDefinitions := by decide +kernel
  exact ⟨found, accepted, within, parse_isLeast found accepted within⟩

end GrammarSampler.GrammarText
