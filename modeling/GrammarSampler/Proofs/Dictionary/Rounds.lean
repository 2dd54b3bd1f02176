import GrammarSampler.Proofs.Dictionary.Meaning

/-!
The rounds in which a queue is worked off. What the alternatives of a name derive grows by what its
definitions say, and the groups queued on the way are definitions of their own. Since groups hold no
groups, the second round is the last.
-/
namespace GrammarSampler.Dictionary
open Ebnf (Environment)

def Definition.groupCount (d : Definition) : Nat := (d.alternatives.map Part.groupCountAll).sum

structure Definition.Queued (d : Definition) (p : Pending) : Prop where
  name : p.name = d.name
  named : IsName d.name
  each : List.Forall₂ Prepared d.alternatives p.alternatives

def Group.definition (g : Group) : Definition := ⟨g.name, [g.parts]⟩

section Spelled
variable {env : Environment} {name : String}

theorem spelled_cons (d : Definition) (rest : List Definition) :
    spelled (d :: rest) env name = spelled [d] env name + spelled rest env name := by
  ext w
  rw [Language.mem_add]
  constructor
  · rintro ⟨other, inside, found⟩
    rcases List.mem_cons.mp inside with rfl | later
    · exact .inl ⟨other, List.mem_singleton_self other, found⟩
    · exact .inr ⟨other, later, found⟩
  · rintro (⟨other, inside, found⟩ | ⟨other, later, found⟩)
    · rw [List.mem_singleton.mp inside] at found
      exact ⟨d, List.mem_cons_self, found⟩
    · exact ⟨other, List.mem_cons_of_mem d later, found⟩

theorem spelled_eq_zero {definitions : List Definition}
    (apart : ∀ d ∈ definitions, d.name ≠ name) : spelled definitions env name = 0 := by
  refine Ebnf.eq_zero_of_notMem ?_
  rintro w ⟨d, inside, named, -⟩
  exact apart d inside named

theorem spelled_groups {groups : List Group} (distinct : (groups.map Group.name).Nodup) {g : Group}
    (inside : g ∈ groups) :
    spelled (groups.map Group.definition) env g.name = Part.languageAll env g.parts := by
  ext w
  constructor
  · rintro ⟨d, among, named, parts, chosen, word⟩
    obtain ⟨other, inside', rfl⟩ := List.mem_map.mp among
    obtain rfl : other = g := List.inj_on_of_nodup_map distinct inside' inside named
    rwa [List.mem_singleton.mp chosen] at word
  · intro word
    exact ⟨g.definition, List.mem_map_of_mem inside, rfl, g.parts, List.mem_singleton_self _, word⟩

end Spelled

theorem Flattening.Waits.queued {f : Flattening} {g : Group} (waits : f.Waits g) :
    g.definition.Queued g.pending where
  name := rfl
  named := waits.named
  each := .cons ⟨rfl, waits.good, nofun⟩ .nil

theorem Flattening.Waits.groupCount_eq {f : Flattening} {g : Group} (waits : f.Waits g) :
    g.definition.groupCount = 0 := by
  have none : Part.groupCountAll g.parts = 0 := by
    have flat := waits.flat
    generalize g.parts = parts at flat
    induction parts with
    | nil => rfl
    | cons part rest ih =>
      obtain ⟨first, others⟩ := List.forall_mem_cons.mp flat
      rw [Part.groupCountAll, ih others]
      exact first
  simp [Definition.groupCount, Group.definition, none]

/-- What the alternatives of names derive has grown by what the definitions say. -/
def Grows (open_ : List String) (f f' : Flattening) (groups : List Group)
    (definitions : List Definition) : Prop :=
  ∀ given env rules, Fits given open_ env f f' groups rules → ∀ name ∈ open_,
    rules.expanded given env f'.rules name =
      rules.expanded given env f.rules name + spelled definitions (rules.reading given env) name

section Extend
variable {rules made : Rules} {given : List String} {env : Environment} {name : String}

theorem expanded_congr {made' : Rules} (same : made'.get? name = made.get? name) :
    rules.expanded given env made' name = rules.expanded given env made name := by
  unfold Rules.expanded
  rw [same]

theorem mem_spelled_single {d : Definition} {w : List Char} :
    w ∈ spelled [d] env d.name ↔ ∃ parts ∈ d.alternatives, w ∈ Part.languageAll env parts := by
  constructor
  · rintro ⟨other, inside, -, found⟩
    rwa [List.mem_singleton.mp inside] at found
  · intro found
    exact ⟨d, List.mem_singleton_self d, rfl, found⟩

theorem expanded_extend_self {d : Definition} {expansions : List Expansion}
    (means : expansions.map (fun e => rules.languageGiven given env e.symbols) =
      d.alternatives.map (Part.languageAll (rules.reading given env))) :
    rules.expanded given env (made.extend d.name expansions) d.name =
      rules.expanded given env made d.name + spelled [d] (rules.reading given env) d.name := by
  ext w
  rw [Language.mem_add, mem_spelled_single, ← Ebnf.exists_mem_of_map_eq means (w ∈ ·)]
  exact Rules.exists_extend_self

end Extend

section Rounds
variable {open_ : List String} {f f' : Flattening} {groups : List Group}

theorem Step.extend (step : Step [] f f' groups) (known : open_ ⊆ f.taken) {name : String}
    (among : name ∈ open_) (expansions : List Expansion) :
    Step open_ f { f' with rules := f'.rules.extend name expansions } groups where
  taken := step.taken
  kept other inside apart := by
    have different : name ≠ other := fun same => apart (same ▸ among)
    exact (Rules.get?_extend_other _ different).trans (step.kept other inside List.not_mem_nil)
  ruled other alternatives found := by
    by_cases same : name = other
    · exact step.taken (known (same ▸ among))
    · exact step.ruled other alternatives ((Rules.get?_extend_other _ same).symm.trans found)
  queue := step.queue
  distinct := step.distinct
  fresh := step.fresh
  waiting g inside := by
    have waits := step.waiting g inside
    have different : name ≠ g.name := fun same => step.fresh g inside (known (same ▸ among))
    exact { waits with unruled := (Rules.get?_extend_other _ different).trans waits.unruled }

theorem exists_flattenRule {d : Definition} {p : Pending} (queued : d.Queued p) (ruled : f.Ruled)
    (known : open_ ⊆ f.taken) (among : d.name ∈ open_) :
    ∃ f' groups, flattenRule f p = .ok f' ∧ Step open_ f f' groups ∧
      groups.length = d.groupCount ∧ Grows open_ f f' groups [d] := by
  obtain ⟨expansions, f', groups, run, step, count, means⟩ :=
    exists_flattenAlternatives queued.named ruled queued.each
  refine ⟨{ f' with rules := f'.rules.extend d.name expansions }, groups, ?_,
    step.extend known among expansions, count, ?_⟩
  · rw [flattenRule, queued.name, run]
    rfl
  · intro given env rules fits name inside
    have kept := step.kept name (known inside) List.not_mem_nil
    have earlier : Stands open_ f'.rules rules := by
      intro other apart alternatives found
      have different : d.name ≠ other := fun same => apart (same ▸ among)
      exact fits.stands other apart alternatives
        ((Rules.get?_extend_other _ different).trans found)
    rw [← expanded_congr kept]
    by_cases same : d.name = name
    · subst same
      exact expanded_extend_self (means given open_ env rules { fits with stands := earlier })
    · have none : spelled [d] (rules.reading given env) name = 0 :=
        spelled_eq_zero fun other single => List.mem_singleton.mp single ▸ same
      rw [none, add_zero]
      exact expanded_congr (Rules.get?_extend_other _ same)

theorem exists_foldlM {definitions : List Definition} {queue : List Pending}
    (queued : List.Forall₂ Definition.Queued definitions queue) (ruled : f.Ruled)
    (known : open_ ⊆ f.taken) (among : ∀ d ∈ definitions, d.name ∈ open_) :
    ∃ f' groups, queue.foldlM flattenRule f = .ok f' ∧ Step open_ f f' groups ∧
      groups.length = (definitions.map Definition.groupCount).sum ∧
        Grows open_ f f' groups definitions := by
  induction queued generalizing f with
  | nil =>
    refine ⟨f, [], rfl, .refl ruled, rfl, ?_⟩
    intro given env rules _ name _
    rw [spelled_eq_zero fun _ none => absurd none List.not_mem_nil, add_zero]
  | @cons d p definitions queue here later ih =>
    obtain ⟨f', groups, run, first, count, head⟩ :=
      exists_flattenRule here ruled known (among d List.mem_cons_self)
    obtain ⟨f'', more, rest, second, count', tail⟩ := ih first.ruled
      (List.Subset.trans known first.taken) fun other inside =>
        among other (List.mem_cons_of_mem d inside)
    refine ⟨f'', groups ++ more, ?_, first.trans known second, ?_, ?_⟩
    · rw [List.foldlM_cons, run]
      exact rest
    · rw [List.length_append, count, count', List.map_cons, List.sum_cons]
    · intro given env rules fits name inside
      obtain ⟨before, behind⟩ := fits.split first second
      rw [tail _ _ _ behind name inside, head _ _ _ before name inside, spelled_cons d definitions,
        add_assoc]

theorem drain_succ (n : Nat) (f : Flattening) :
    drain (n + 1) f = f.queue.foldlM flattenRule { f with queue := [] } >>= drain n := by
  rw [drain]
  split
  · rename_i empty
    obtain ⟨taken, rules, queue⟩ := f
    obtain rfl : queue = [] := List.isEmpty_iff.mp empty
    cases n <;> rfl
  · rfl

theorem exists_groupRound (waits : ∀ g ∈ groups, f.Waits g) (ruled : f.Ruled)
    (known : open_ ⊆ f.taken) (among : ∀ g ∈ groups, g.name ∈ open_) :
    ∃ f', (groups.map Group.pending).foldlM flattenRule f = .ok f' ∧ Step open_ f f' [] ∧
      Grows open_ f f' [] (groups.map Group.definition) := by
  have queued : List.Forall₂ Definition.Queued (groups.map Group.definition)
      (groups.map Group.pending) := by
    rw [List.forall₂_map_left_iff, List.forall₂_map_right_iff, List.forall₂_same]
    exact fun g inside => (waits g inside).queued
  obtain ⟨f', more, run, step, count, grows⟩ := exists_foldlM queued ruled known (by
    intro d inside
    obtain ⟨g, listed, rfl⟩ := List.mem_map.mp inside
    exact among g listed)
  have zero : ((groups.map Group.definition).map Definition.groupCount).sum = 0 := by
    refine List.sum_eq_zero_iff_forall_eq_nat.mpr ?_
    intro n inside
    obtain ⟨d, defined, rfl⟩ := List.mem_map.mp inside
    obtain ⟨g, listed, rfl⟩ := List.mem_map.mp defined
    exact (waits g listed).groupCount_eq
  obtain rfl : more = [] := List.length_eq_zero_iff.mp (count.trans zero)
  exact ⟨f', run, step, grows⟩

variable {given : List String} {env : Environment}

theorem suits_groups (waits : ∀ g ∈ groups, f.Waits g)
    (distinct : (groups.map Group.name).Nodup) (apart : ∀ g ∈ groups, g.name ∉ given)
    (among : ∀ g ∈ groups, g.name ∈ open_) (fits : Fits given open_ env f f' [] f'.rules)
    (grows : Grows open_ f f' [] (groups.map Group.definition)) :
    Suits (f'.rules.reading given env) groups := by
  intro g inside
  have grown := grows given env f'.rules fits g.name (among g inside)
  rw [Rules.expanded_eq_zero (waits g inside).unruled, zero_add, spelled_groups distinct inside,
    Rules.expanded_self (apart g inside)] at grown
  exact grown

/-- The rounds come to an end, and then the alternatives of each name derive what its definitions
say. -/
theorem exists_drain {definitions : List Definition} {queue : List Pending}
    (queued : List.Forall₂ Definition.Queued definitions queue)
    (among : ∀ d ∈ definitions, d.name ∈ given) :
    ∃ f, drain rounds ⟨given, [], queue⟩ = .ok f ∧ ∀ env, ∀ name ∈ given,
      f.rules.expanded given env f.rules name =
        spelled definitions (f.rules.reading given env) name := by
  have start : Flattening.Ruled ⟨given, [], []⟩ := fun _ _ none => nomatch none
  obtain ⟨f, groups, run, first, -, grows⟩ :=
    @exists_foldlM given ⟨given, [], []⟩ definitions queue queued start (List.Subset.refl _) among
  have waits : ∀ g ∈ groups, Flattening.Waits { f with queue := [] } g :=
    fun g inside => { first.waiting g inside with }
  have listed : ∀ g ∈ groups, g.name ∈ given ++ groups.map Group.name :=
    fun g inside => List.mem_append_right _ (List.mem_map_of_mem inside)
  have known : given ++ groups.map Group.name ⊆ f.taken := by
    refine List.append_subset.mpr ⟨first.taken, ?_⟩
    intro name inside
    obtain ⟨g, here, rfl⟩ := List.mem_map.mp inside
    exact (first.waiting g here).taken
  obtain ⟨f', run', second, grows'⟩ := exists_groupRound waits first.ruled known listed
  refine ⟨f', ?_, ?_⟩
  · have pending : f.queue = groups.map Group.pending := by
      rw [first.queue, List.nil_append]
    have done : f'.queue = [] := second.queue
    rw [rounds, drain_succ]
    dsimp only
    rw [run]
    change drain 1 f = _
    rw [drain_succ, pending, run']
    change drain 0 f' = _
    rw [drain, done]
    rfl
  · intro env name inside
    have apart : ∀ g ∈ groups, g.name ∉ given := first.fresh
    have later : Fits given (given ++ groups.map Group.name) env { f with queue := [] } f' []
        f'.rules :=
      ⟨List.subset_append_left _ _, known, fun _ _ _ found => found, nofun⟩
    have suits := suits_groups waits first.distinct apart listed later grows'
    have stands : Stands given f.rules f'.rules := by
      intro other free alternatives found
      refine second.stands first.ruled later.stands other ?_ alternatives found
      rw [List.mem_append, not_or]
      refine ⟨free, ?_⟩
      intro grouped
      obtain ⟨g, here, rfl⟩ := List.mem_map.mp grouped
      rw [(first.waiting g here).unruled] at found
      cases found
    have grown := grows' given env f'.rules later name (List.mem_append_left _ inside)
    have none : spelled (groups.map Group.definition) (f'.rules.reading given env) name = 0 := by
      refine spelled_eq_zero ?_
      intro d defined same
      obtain ⟨g, here, rfl⟩ := List.mem_map.mp defined
      have own : g.name = name := same
      exact apart g here (own ▸ inside)
    have whole := grows given env f'.rules ⟨List.Subset.refl _, List.Subset.refl _, stands, suits⟩
      name inside
    rw [grown, none, add_zero, whole, Rules.expanded_eq_zero rfl, zero_add]

end Rounds
end GrammarSampler.Dictionary
