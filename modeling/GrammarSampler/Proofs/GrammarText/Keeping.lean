import GrammarSampler.Proofs.Ebnf.Keeping
import GrammarSampler.Proofs.Ebnf.Standing
import GrammarSampler.Proofs.GrammarText.Hygiene

/-!
What becomes of the alternatives of a grammar text. Each name that the text defines keeps them all, in
the order of its definitions, and gets no others; what is made up for constructs lies beside them.
-/
namespace GrammarSampler.GrammarText
open Ebnf

/-- The alternatives that the definitions of a name write, one body after the other. -/
inductive Written (name : String) : List Definition → Body → Prop where
  | none : Written name [] []
  | own {d : Definition} {rest : List Definition} {here later : Body} (named : d.name = name)
      (spells : SpellsBody d.body here) (tail : Written name rest later) :
      Written name (d :: rest) (here ++ later)
  | other {d : Definition} {rest : List Definition} {body : Body} (apart : d.name ≠ name)
      (tail : Written name rest body) : Written name (d :: rest) body

section Written
variable {name : String} {done : List Definition} {d : Definition} {body here : Body}

theorem Written.concat_own (written : Written name done body) (named : d.name = name)
    (spells : SpellsBody d.body here) : Written name (done ++ [d]) (body ++ here) := by
  induction written with
  | none =>
    have single := Written.own named spells .none
    rwa [List.append_nil] at single
  | own first spelled tail ih =>
    rw [List.append_assoc]
    exact .own first spelled ih
  | other apart tail ih => exact .other apart ih

theorem Written.concat_other (written : Written name done body) (apart : d.name ≠ name) :
    Written name (done ++ [d]) body := by
  induction written with
  | none => exact .other apart .none
  | own first spelled tail ih => exact .own first spelled ih
  | other first tail ih => exact .other first ih

end Written

/-- What holds while definitions are lowered: a name given has what its definitions so far write. -/
structure Kept (given : List String) (done rest : List Definition) (l : Lowering) : Prop where
  tidy : Tidy given (rest.map Definition.name) l
  entries : ∀ rules, Agrees given l rules → ∀ name ∈ given, ∃ body lowered,
    Written name done body ∧ BodyStands rules given body lowered ∧
      (l.rules.get? name).getD [] = lowered.map .unweighted

section Run
variable {given : List String} {done rest : List Definition} {l l' : Lowering}

theorem kept_start (definitions : List Definition) :
    Kept (definitions.map Definition.name) [] definitions ⟨definitions.map Definition.name, []⟩ :=
  ⟨.start _, fun _ _ _ _ => ⟨[], [], .none, .nil, rfl⟩⟩

theorem Kept.define {d : Definition} {body : Body} (kept : Kept given done (d :: rest) l)
    (named : d.name ∈ given) (spells : SpellsBody d.body body) :
    Kept given (done ++ [d]) rest (d.lower body l) := by
  have extends_ := extends_lowerBody d.name l body
  have lowered := Tidy.of_made (made_lowerBody d.name l body) kept.tidy
  constructor
  · refine lowered.extend (lowered.inside named) (fun free => absurd named free) ?_
    intro other waits
    exact List.mem_cons.mp waits
  · intro rules agrees name known
    have earlier := agrees_of_lower agrees named
    obtain ⟨before, symbols, written, stands, same⟩ :=
      kept.entries rules (earlier.of_extends extends_) name known
    rw [← extends_.kept name (kept.tidy.inside known)] at same
    by_cases own : d.name = name
    · subst own
      refine ⟨before ++ body, symbols ++ (lowerBody d.name l body).1,
        written.concat_own rfl spells,
        stands.append (stands_lowerBody d.name l body kept.tidy.inside earlier), ?_⟩
      rw [List.map_append, ← same]
      exact Rules.getD_extend_self _ _ _
    · refine ⟨before, symbols, written.concat_other own, stands, ?_⟩
      rw [← same]
      exact congrArg (·.getD []) (Rules.get?_extend_other _ own)

theorem Lowers.kept (lowers : Lowers rest l l') (kept : Kept given done rest l)
    (named : ∀ d ∈ rest, d.name ∈ given) : Kept given (done ++ rest) [] l' := by
  induction lowers generalizing done with
  | nil =>
    rw [List.append_nil]
    exact kept
  | cons spells _ ih =>
    obtain ⟨here, later⟩ := List.forall_mem_cons.mp named
    rw [List.append_cons]
    exact ih (kept.define here spells) later

end Run

/-- An accepted text is parsed into one rule for each name that it defines and one for each name made
up beside these. A name that is defined has one alternative for each of those that its definitions
write, in their order, and no others. -/
theorem parse_keeps {text : String} (accepted : (parse text).outcome = .ok ()) :
    ∃ definitions made, definitions? text.toList = .ok definitions ∧
      (parse text).rules.Keeps (definitions.map Definition.name) made ∧
      ∀ name ∈ definitions.map Definition.name, ∃ body lowered, Written name definitions body ∧
        BodyStands (parse text).rules (definitions.map Definition.name) body lowered ∧
          (parse text).rules.get? name = some (lowered.map .unweighted) := by
  obtain ⟨definitions, found⟩ := exists_definitions accepted
  obtain ⟨l, rules, lowers⟩ := lowers_parse found accepted
  have kept := lowers.kept (kept_start definitions) fun d => List.mem_map_of_mem
  obtain ⟨made, keeps⟩ := kept.tidy.keeps
  rw [rules]
  refine ⟨definitions, made, found, keeps, ?_⟩
  intro name defined
  obtain ⟨body, lowered, written, stands, same⟩ := kept.entries _ (fun _ _ _ => rfl) name defined
  refine ⟨body, lowered, written, stands, ?_⟩
  obtain ⟨alternatives, rule⟩ := Option.isSome_iff_exists.mp
    ((Entries.get?_isSome_iff name _).mpr ((keeps.keys name).mpr (.inl defined)))
  rw [rule] at same ⊢
  exact congrArg some same

end GrammarSampler.GrammarText
