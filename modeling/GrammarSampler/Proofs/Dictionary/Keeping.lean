import GrammarSampler.Proofs.Dictionary.Standing

/-!
What becomes of the alternatives of a dictionary. Each name that it defines keeps them all, with their
weights and in the order of its keys, and gets no others. A group waits for the second round, in which
its rule is made once.
-/
namespace GrammarSampler.Dictionary
open Ebnf (Tidy)

/-- An alternative is a text, alone or with options of which one may be a weight. -/
inductive Writes : Json → List Char × Option Number → Prop where
  | bare (text : String) : Writes (.text text) (text.toList, none)
  | unweighted {text : String} {options : Entries Json}
      (absent : options.get? "weight" = none ∨ options.get? "weight" = some .null) :
      Writes (.list [.text text, .object options]) (text.toList, none)
  | weighted {text : String} {options : Entries Json} {n : Number}
      (weight : options.get? "weight" = some (.number n)) :
      Writes (.list [.text text, .object options]) (text.toList, some n)

inductive Offers : Json → List (List Char × Option Number) → Prop where
  | list {items : List Json} {alternatives : List (List Char × Option Number)}
      (each : List.Forall₂ Writes items alternatives) : Offers (.list items) alternatives
  | keys (members : Entries Json) :
      Offers (.object members) (members.keys.map fun key => (key.toList, none))

structure Announces (member : String × Json) (p : Pending) : Prop where
  name : p.name = bareName member.1
  offers : Offers member.2 p.alternatives

section Announces
variable {key : String}

theorem writes_of_alternative {value : Json} {item : List Char × Option Number}
    (read : (alternative key value).outcome = .ok item) : Writes value item := by
  unfold alternative at read
  split at read
  · cases read
    exact .bare _
  · rename_i text options
    obtain ⟨_, -, read⟩ := Report.bind_eq_ok_iff.mp read
    obtain ⟨weight, found, read⟩ := Report.bind_eq_ok_iff.mp read
    cases read
    have found : weight? key options = .ok weight := found
    unfold weight? at found
    split at found
    · rename_i none
      cases found
      exact .unweighted (.inl none)
    · rename_i none
      cases found
      exact .unweighted (.inr none)
    · rename_i n number
      cases found
      exact .weighted number
    · cases found
  · cases read

theorem writes_of_allAlternatives {items : List Json}
    {alternatives : List (List Char × Option Number)}
    (read : (allAlternatives key items).outcome = .ok alternatives) :
    List.Forall₂ Writes items alternatives := by
  induction items generalizing alternatives with
  | nil =>
    cases read
    exact .nil
  | cons value rest ih =>
    rw [allAlternatives] at read
    obtain ⟨first, one, read⟩ := Report.bind_eq_ok_iff.mp read
    obtain ⟨later, others, read⟩ := Report.bind_eq_ok_iff.mp read
    cases read
    exact .cons (writes_of_alternative one) (ih others)

theorem eq_of_writes_texts {keys : List String} {alternatives : List (List Char × Option Number)}
    (each : List.Forall₂ Writes (keys.map .text) alternatives) :
    alternatives = keys.map fun key => (key.toList, none) := by
  induction keys generalizing alternatives with
  | nil =>
    cases each
    rfl
  | cons key keys ih =>
    cases each with
    | cons here later =>
      cases here
      rw [ih later]
      rfl

theorem offers_of_read {value : Json} {items : List Json}
    {alternatives : List (List Char × Option Number)} (listed : alternatives? key value = .ok items)
    (read : (allAlternatives key items).outcome = .ok alternatives) : Offers value alternatives := by
  have each := writes_of_allAlternatives read
  unfold alternatives? at listed
  split at listed
  · cases listed
  · cases listed
    exact .list each
  · rename_i members
    cases listed
    have texts : members.map (fun member => Json.text member.1) = (Entries.keys members).map .text := by
      simp [Entries.keys]
    rw [texts] at each
    rw [eq_of_writes_texts each]
    exact .keys members
  · cases listed

theorem announces_of_entries {members : Entries Json} {queue : List Pending}
    (read : (entries members).outcome = .ok queue) : List.Forall₂ Announces members queue := by
  induction members generalizing queue with
  | nil =>
    cases read
    exact .nil
  | cons member members ih =>
    obtain ⟨key, value⟩ := member
    rw [entries] at read
    obtain ⟨items, listed, read⟩ := Report.bind_eq_ok_iff.mp read
    obtain ⟨alternatives, each, read⟩ := Report.bind_eq_ok_iff.mp read
    obtain ⟨later, rest, read⟩ := Report.bind_eq_ok_iff.mp read
    cases read
    exact .cons ⟨rfl, offers_of_read listed each⟩ (ih rest)

end Announces

/-- What the rule of a name gets from a queue: the alternatives that wait under this name, one after
the other. -/
inductive Gathered (rules : Rules) (given : List String) (name : String) :
    List Pending → List Expansion → Prop where
  | none : Gathered rules given name [] []
  | own {p : Pending} {rest : List Pending} {here later : List Expansion} (named : p.name = name)
      (each : List.Forall₂ (EntryStands rules given) p.alternatives here)
      (tail : Gathered rules given name rest later) :
      Gathered rules given name (p :: rest) (here ++ later)
  | other {p : Pending} {rest : List Pending} {entry : List Expansion} (apart : p.name ≠ name)
      (tail : Gathered rules given name rest entry) : Gathered rules given name (p :: rest) entry

section Gathered
variable {rules : Rules} {given : List String} {name : String} {queue : List Pending}
variable {entry : List Expansion}

theorem Gathered.eq_nil (gathered : Gathered rules given name queue entry)
    (apart : ∀ p ∈ queue, p.name ≠ name) : entry = [] := by
  induction gathered with
  | none => rfl
  | own named _ _ _ => exact absurd named (apart _ List.mem_cons_self)
  | other _ _ ih => exact ih fun p inside => apart p (List.mem_cons_of_mem _ inside)

theorem Gathered.of_once (gathered : Gathered rules given name queue entry) (free : name ∉ given)
    (once : queue.Pairwise fun p q => p.name ∉ given → p.name ≠ q.name) {p : Pending}
    (inside : p ∈ queue) (named : p.name = name) :
    List.Forall₂ (EntryStands rules given) p.alternatives entry := by
  induction gathered with
  | none => cases inside
  | @own q rest here later same each tail ih =>
    obtain ⟨first, others⟩ := List.pairwise_cons.mp once
    have apart : ∀ r ∈ rest, r.name ≠ name :=
      fun r among => Ne.symm (same ▸ first r among (same ▸ free))
    rcases List.mem_cons.mp inside with rfl | among
    · rwa [tail.eq_nil apart, List.append_nil]
    · exact absurd named (apart p among)
  | other apart tail ih =>
    rcases List.mem_cons.mp inside with rfl | among
    · exact absurd named apart
    · exact ih (List.pairwise_cons.mp once).2 among

end Gathered

section Rounds
variable {given : List String} {ahead : List Pending} {rules : Rules} {f f' : Flattening}

theorem Orderly.extend {p : Pending} {rest : List Pending} {expansions : List Expansion}
    (orderly : Orderly given (p :: rest) f)
    (weights : List.Forall₂ (fun item e => Expansion.weight e = item.2) p.alternatives expansions) :
    Orderly given rest { f with rules := f.rules.extend p.name expansions } where
  tidy := by
    refine orderly.tidy.extend (orderly.known p List.mem_cons_self) ?_ ?_
    · intro free e inside
      obtain ⟨-, text, single⟩ := orderly.waits p List.mem_cons_self free
      rw [single] at weights
      cases weights with
      | cons here none =>
        cases none
        rw [List.mem_singleton.mp inside]
        exact here
    · intro other waits
      exact List.mem_cons.mp waits
  known q inside := orderly.known q (List.mem_cons_of_mem p inside)
  waits q inside free := by
    obtain ⟨unruled, single⟩ := orderly.waits q (List.mem_cons_of_mem p inside) free
    refine ⟨?_, single⟩
    intro ruled
    rcases Entries.mem_keys_put.mp ruled with same | old
    · exact (List.pairwise_cons.mp orderly.once).1 q inside (same ▸ free) same.symm
    · exact unruled old
  once := (List.pairwise_cons.mp orderly.once).2
  free := orderly.free

theorem Final.of_extend {p : Pending} {rest : List Pending} {expansions : List Expansion}
    (orderly : Orderly given (p :: rest) f)
    (final : Final rules given { f with rules := f.rules.extend p.name expansions }) :
    Final rules given f where
  kept name free alternatives found := by
    refine final.kept name free alternatives ((Rules.get?_extend_other _ ?_).trans found)
    rintro rfl
    refine (orderly.waits p List.mem_cons_self free).1 ((Entries.get?_isSome_iff _ _).mp ?_)
    rw [found]
    rfl
  met := final.met

/-- A round leaves everything in order. The rule of each name has grown by what was gathered for it,
whatever else is made later. -/
theorem Makes.gathers (makes : Makes ahead f f') (orderly : Orderly given (ahead ++ f.queue) f) :
    Orderly given f'.queue f' ∧ ∀ rules, Final rules given f' → Final rules given f ∧
      ∀ name ∈ f.taken, ∃ entry, Gathered rules given name ahead entry ∧
        (f'.rules.get? name).getD [] = (f.rules.get? name).getD [] ++ entry := by
  induction makes with
  | nil =>
    refine ⟨orderly, fun rules final => ⟨final, fun name _ => ⟨[], .none, ?_⟩⟩⟩
    rw [List.append_nil]
  | @cons p rest expansions f f₁ f' rule _ ih =>
    have between := rule.moves.orderly orderly
    obtain ⟨orderly', later⟩ := ih (between.extend rule.weights)
    refine ⟨orderly', fun rules final => ?_⟩
    obtain ⟨final₂, gathers⟩ := later rules final
    have final₁ := final₂.of_extend between
    refine ⟨final₁.of_moves rule.moves orderly, ?_⟩
    intro name known
    obtain ⟨entry, gathered, grown⟩ := gathers name (rule.moves.taken_subset known)
    by_cases same : p.name = name
    · subst same
      refine ⟨expansions ++ entry, .own rfl (rule.stands orderly final₁) gathered, ?_⟩
      rw [grown, Rules.getD_extend_self, rule.moves.get?_eq known, List.append_assoc]
    · refine ⟨entry, .other same gathered, ?_⟩
      rw [grown, Rules.get?_extend_other _ same, rule.moves.get?_eq known]

theorem final_of_groups (orderly : Orderly given f.queue f)
    (final : Final rules given { f with queue := [] })
    (gathers : ∀ name ∈ f.taken, ∃ entry, Gathered rules given name f.queue entry ∧
      (rules.get? name).getD [] = (f.rules.get? name).getD [] ++ entry) : Final rules given f where
  kept := final.kept
  met p inside := by
    have free := orderly.free p inside
    obtain ⟨unruled, text, single⟩ := orderly.waits p inside free
    obtain ⟨entry, gathered, grown⟩ := gathers p.name (orderly.known p inside)
    have none : f.rules.get? p.name = none := by
      rw [← Option.not_isSome_iff_eq_none, Entries.get?_isSome_iff]
      exact unruled
    have each := gathered.of_once free orderly.once inside rfl
    rw [none, Option.getD_none, List.nil_append] at grown
    rw [single] at each
    cases each with
    | @cons _ e _ _ here rest =>
      cases rest
      refine ⟨text, e.symbols, single, ?_, here.text⟩
      have weight : e.weight = Option.none := here.weight
      have plain : Expansion.unweighted e.symbols = e := by rw [Expansion.unweighted, ← weight]
      cases found : rules.get? p.name with
      | none =>
        rw [found] at grown
        cases grown
      | some alternatives =>
        rw [found, Option.getD_some] at grown
        rw [plain, grown]

theorem orderly_start (queue : List Pending) :
    Orderly (queue.map Pending.name) queue ⟨queue.map Pending.name, [], []⟩ where
  tidy := .start _
  known _ inside := List.mem_map_of_mem inside
  waits _ inside free := absurd (List.mem_map_of_mem inside) free
  once := by
    refine List.pairwise_of_forall_mem_list ?_
    intro p inside _ _ free
    exact absurd (List.mem_map_of_mem inside) free
  free := List.forall_mem_nil _

/-- The rounds leave everything in order, and each name in the queue has what was gathered for it. -/
theorem drain_gathers {queue : List Pending}
    (run : drain rounds ⟨queue.map Pending.name, [], queue⟩ = .ok f) :
    Orderly (queue.map Pending.name) [] f ∧
      ∀ name ∈ queue.map Pending.name, ∃ entry,
        Gathered f.rules (queue.map Pending.name) name queue entry ∧
          (f.rules.get? name).getD [] = entry := by
  obtain ⟨f₁, first, second, done⟩ := exists_of_drain run
  have begun : Orderly (queue.map Pending.name) (queue ++ []) ⟨queue.map Pending.name, [], []⟩ := by
    rw [List.append_nil]
    exact orderly_start queue
  obtain ⟨between, gathers⟩ := first.gathers begun
  have groups : Orderly (queue.map Pending.name) (f₁.queue ++ []) { f₁ with queue := [] } := by
    rw [List.append_nil]
    exact { between with free := List.forall_mem_nil _ }
  obtain ⟨last, gathers'⟩ := second.gathers groups
  rw [done] at last
  refine ⟨last, ?_⟩
  have ended : Final f.rules (queue.map Pending.name) f := by
    refine ⟨fun _ _ _ found => found, ?_⟩
    rw [done]
    exact List.forall_mem_nil _
  obtain ⟨final, grown'⟩ := gathers' f.rules ended
  obtain ⟨-, grown⟩ := gathers f.rules (final_of_groups between final grown')
  intro name inside
  obtain ⟨entry, gathered, same⟩ := grown name inside
  obtain ⟨more, gathered', same'⟩ := grown' name (between.tidy.inside inside)
  have none : more = [] := gathered'.eq_nil fun p waits own => between.free p waits (own ▸ inside)
  refine ⟨entry, gathered, ?_⟩
  rw [same', none, List.append_nil]
  exact same

end Rounds

/-- An accepted dictionary is converted into one rule for each name that it defines and one for each
name made up beside these. A name that is defined has one alternative for each of those that are given
for it, with its weight and in their order, and no others. -/
theorem rules_keep {members : Entries Json} {rules : Rules}
    (accepted : (Dictionary.rules members).outcome = .ok rules) :
    ∃ queue made, List.Forall₂ Announces members queue ∧
      rules.Keeps (members.keys.map bareName) made ∧
      ∀ name ∈ members.keys.map bareName, ∃ entry,
        Gathered rules (members.keys.map bareName) name queue entry ∧
          rules.get? name = some entry := by
  rw [Dictionary.rules] at accepted
  obtain ⟨queue, read, run⟩ := Report.bind_eq_ok_iff.mp accepted
  obtain ⟨f, converted, made⟩ := Report.bind_eq_ok_iff.mp run
  cases made
  have converted : drain rounds ⟨members.keys.map bareName, [], queue⟩ = .ok f := converted
  rw [← names_entries read] at converted ⊢
  obtain ⟨orderly, gathers⟩ := drain_gathers converted
  obtain ⟨made, keeps⟩ : ∃ made, f.rules.Keeps (queue.map Pending.name) made := orderly.tidy.keeps
  refine ⟨queue, made, announces_of_entries read, keeps, ?_⟩
  intro name inside
  obtain ⟨entry, gathered, same⟩ := gathers name inside
  obtain ⟨alternatives, rule⟩ := Option.isSome_iff_exists.mp
    ((Entries.get?_isSome_iff name _).mpr ((keeps.keys name).mpr (.inl inside)))
  refine ⟨entry, gathered, ?_⟩
  rw [rule] at same ⊢
  exact congrArg some same

end GrammarSampler.Dictionary
