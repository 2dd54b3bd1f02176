import GrammarSampler.Proofs.Dictionary.Keeping
import GrammarSampler.Proofs.Ebnf.Linking

/-!
Which dictionaries make a grammar: one whose alternatives are well formed, of which each name has at
least one, and which uses only names that it defines, is built. What is made up on the way refers to
names in use only.
-/
namespace GrammarSampler.Dictionary
open Ebnf (Environment Linked Links Refers Times links_of_refers links_times mem_of_le)

def Known (taken : List String) (item : List Char × Option Number) : Prop :=
  ∃ parts, Prepared parts item ∧ Part.namesAll parts ⊆ taken

structure Pending.Sound (taken : List String) (p : Pending) : Prop where
  named : IsName p.name
  some : p.alternatives ≠ []
  known : ∀ item ∈ p.alternatives, Known taken item

structure Flattening.Sound (f : Flattening) : Prop where
  linked : Linked f.lowering
  waits : ∀ p ∈ f.queue, p.Sound f.taken

/-- What a step needs and leaves: names stay in use, the flattening stays sound, and what has been
made refers to names in use. -/
structure Leads (f f' : Flattening) (names : List String) : Prop where
  taken : f.taken ⊆ f'.taken
  still : f'.Sound
  names : names ⊆ f'.taken

section Parts
variable {taken taken' : List String} {f f' f'' : Flattening} {names more : List String}
variable {hint : String}

theorem Pending.Sound.mono {p : Pending} (sound : p.Sound taken) (more : taken ⊆ taken') :
    p.Sound taken' where
  named := sound.named
  some := sound.some
  known item inside := by
    obtain ⟨parts, prepared, within⟩ := sound.known item inside
    exact ⟨parts, prepared, List.Subset.trans within more⟩

theorem Leads.append (first : Leads f f' names) (second : Leads f' f'' more) :
    Leads f f'' (names ++ more) where
  taken := List.Subset.trans first.taken second.taken
  still := second.still
  names := List.append_subset.mpr ⟨List.Subset.trans first.names second.taken, second.names⟩

theorem Leads.trans (first : Leads f f' names) (second : Leads f' f'' more) : Leads f f'' more where
  taken := List.Subset.trans first.taken second.taken
  still := second.still
  names := second.names

theorem leads_liftGroup (named : IsName hint) (sound : f.Sound) {parts : List Part}
    (good : Part.AllWellFormed parts) (known : Part.namesAll parts ⊆ f.taken) :
    Leads f (f.lift hint parts) [Fresh.name f.taken hint] where
  taken := List.subset_cons_self _ _
  still := by
    refine ⟨sound.linked.take _, ?_⟩
    intro p inside
    rcases List.mem_append.mp inside with old | new
    · exact (sound.waits p old).mono (List.subset_cons_self _ _)
    · rw [List.mem_singleton.mp new]
      refine ⟨isName_fresh f.taken named, List.cons_ne_nil _ _, ?_⟩
      intro item single
      rw [List.mem_singleton.mp single]
      exact ⟨parts, ⟨rfl, good, nofun⟩, List.subset_cons_of_subset _ known⟩
  names := List.cons_subset_cons _ (List.nil_subset _)

mutual
theorem leads_lift (named : IsName hint) : ∀ (part : Part) (f : Flattening), f.Sound →
    part.WellFormed → part.names ⊆ f.taken →
      Leads f (part.lift hint f).2 (part.lift hint f).1.names
  | .literal _, _, sound, _, known => ⟨List.Subset.refl _, sound, known⟩
  | .reference _ _, _, sound, _, known => ⟨List.Subset.refl _, sound, known⟩
  | .group parts _ _, f, sound, good, known => by
    have inner := leads_liftAll named parts f sound good.2 known
    exact inner.trans
      (leads_liftGroup named inner.still (Part.wellFormed_liftAll named f good.2) inner.names)

theorem leads_liftAll (named : IsName hint) : ∀ (parts : List Part) (f : Flattening), f.Sound →
    Part.AllWellFormed parts → Part.namesAll parts ⊆ f.taken →
      Leads f (Part.liftAll hint f parts).2 (Part.namesAll (Part.liftAll hint f parts).1)
  | [], _, sound, _, known => ⟨List.Subset.refl _, sound, known⟩
  | part :: rest, f, sound, good, known => by
    obtain ⟨here, later⟩ := List.append_subset.mp known
    have head := leads_lift named part f sound good.1 here
    have tail := leads_liftAll named rest _ head.still good.2.2 (List.Subset.trans later head.taken)
    exact head.append tail
end

theorem leads_resolve (sound : f.Sound) {name : String} (known : name ∈ f.taken)
    (signs : List Times) :
    Leads f (Part.resolve hint f name signs).2 [(Part.resolve hint f name signs).1] := by
  induction signs generalizing f name with
  | nil => exact ⟨List.Subset.refl _, sound, by simpa [Part.resolve] using known⟩
  | cons times signs ih =>
    have fresh : Fresh.name f.taken hint ∈ (f.settle hint name times).taken := List.mem_cons_self
    have next : (f.settle hint name times).Sound := by
      have links := @Linked.define hint f.lowering
        (fun fresh => times.expansions fresh [.nonterminal name]) sound.linked
        (links_times times (Refers.single (List.mem_cons_of_mem _ known)) List.mem_cons_self)
      refine ⟨links, ?_⟩
      intro p waits
      exact (sound.waits p waits).mono (List.subset_cons_self _ _)
    have first : Leads f (f.settle hint name times) [Fresh.name f.taken hint] :=
      ⟨List.subset_cons_self _ _, next, by simpa using fresh⟩
    exact first.trans (ih next fresh)

theorem leads_settleAll (sound : f.Sound) {parts : List Part}
    (known : Part.namesAll parts ⊆ f.taken) :
    Leads f (Part.settleAll hint f parts).2 (Part.namesAll (Part.settleAll hint f parts).1) := by
  induction parts generalizing f with
  | nil => exact ⟨List.Subset.refl _, sound, known⟩
  | cons part rest ih =>
    obtain ⟨here, later⟩ := List.append_subset.mp known
    have head : Leads f (part.settle hint f).2 (part.settle hint f).1.names := by
      cases part with
      | literal c => exact ⟨List.Subset.refl _, sound, here⟩
      | reference name signs =>
        exact leads_resolve sound (here (List.mem_singleton_self name)) signs
      | group parts first more => exact ⟨List.Subset.refl _, sound, here⟩
    exact head.append (ih head.still (List.Subset.trans later head.taken))

theorem refers_flush (read : List Char) : Refers taken (flush read) := by
  cases read with
  | nil => exact fun _ none => absurd none List.not_mem_nil
  | cons c read => simp [Refers, flush]

theorem refers_tokensFrom {parts : List Part} {fuel : Nat} {read : List Char}
    (settled : ∀ part ∈ parts, part.IsSettled ∧ part.WellFormed)
    (enough : (Part.writeAll parts).length ≤ fuel) (known : Part.namesAll parts ⊆ taken) :
    Refers taken (tokensFrom fuel read (Part.writeAll parts)) := by
  induction parts generalizing fuel read with
  | nil =>
    cases fuel <;> exact refers_flush read
  | cons part rest ih =>
    obtain ⟨⟨plain, good⟩, later⟩ := List.forall_mem_cons.mp settled
    obtain ⟨here, others⟩ := List.append_subset.mp known
    rw [Part.writeAll, List.length_append] at enough
    cases part with
    | literal c =>
      obtain ⟨spare, rfl⟩ : ∃ spare, fuel = spare + 1 :=
        ⟨fuel - 1, by simp [Part.write] at enough; omega⟩
      have apart : c ≠ '<' := by
        have clear : isPlain c = true := good
        rintro rfl
        exact absurd clear (by decide)
      rw [Part.writeAll, Part.write, List.singleton_append, tokensFrom, if_neg apart]
      exact ih later (by simp [Part.write] at enough; omega) others
    | reference name signs =>
      obtain rfl : signs = [] := plain
      obtain ⟨spare, rfl⟩ : ∃ spare, fuel = spare + 1 :=
        ⟨fuel - 1, by simp [Part.write, bracketed] at enough; omega⟩
      have tail := @ih spare [] later (by simp [Part.write, bracketed] at enough; omega) others
      rw [Part.writeAll, Part.write, List.map_nil, List.append_nil, tokensFrom_bracketed good.isToken]
      exact (refers_flush read).append
        ((Refers.single (here (List.mem_singleton_self name))).append tail)
    | group parts first more => exact plain.elim

end Parts

section Rounds
variable {f f' : Flattening} {hint : String}

theorem leads_flatten? (named : IsName hint) (sound : f.Sound) {item : List Char × Option Number}
    (known : Known f.taken item) {symbols : List Symbol}
    (run : flatten? hint item.1 f = .ok (symbols, f')) :
    Leads f f' [] ∧ Refers f'.taken symbols := by
  obtain ⟨parts, prepared, within⟩ := known
  rw [prepared.written, flatten?_writeAll named prepared.good] at run
  cases run
  have lifted := leads_liftAll named parts f sound prepared.good within
  have settled := @leads_settleAll _ hint lifted.still _ lifted.names
  have all := lifted.trans settled
  exact ⟨⟨all.taken, all.still, List.nil_subset _⟩,
    refers_tokensFrom (isSettled_flattenAll named prepared.good f) (Nat.le_refl _) all.names⟩

theorem Flattens.leads {items : List (List Char × Option Number)} {expansions : List Expansion}
    (flattens : Flattens hint items f expansions f') (named : IsName hint) (sound : f.Sound)
    (known : ∀ item ∈ items, Known f.taken item) :
    Leads f f' [] ∧ ∀ e ∈ expansions, Refers f'.taken e.symbols := by
  induction flattens with
  | nil => exact ⟨⟨List.Subset.refl _, sound, List.nil_subset _⟩, List.forall_mem_nil _⟩
  | @cons item items symbols expansions f f₁ f' text _ ih =>
    obtain ⟨here, later⟩ := List.forall_mem_cons.mp known
    obtain ⟨first, refers⟩ := leads_flatten? named sound here text
    have still : ∀ item ∈ items, Known f₁.taken item := by
      intro item inside
      obtain ⟨parts, prepared, within⟩ := later item inside
      exact ⟨parts, prepared, List.Subset.trans within first.taken⟩
    obtain ⟨second, each⟩ := ih first.still still
    exact ⟨first.trans second, List.forall_mem_cons.mpr ⟨refers.mono second.taken, each⟩⟩

theorem Flattens.leads_rule {p : Pending} {expansions : List Expansion}
    (flattens : Flattens p.name p.alternatives f expansions f') (sound : f.Sound)
    (waits : p.Sound f.taken) :
    Leads f { f' with rules := f'.rules.extend p.name expansions } [] := by
  obtain ⟨leads, refers⟩ := flattens.leads waits.named sound waits.known
  refine ⟨leads.taken, ⟨leads.still.linked.extend ⟨?_, ?_⟩, leads.still.waits⟩, List.nil_subset _⟩
  · rintro rfl
    have lengths := flattens.weights.length_eq
    exact waits.some (List.length_eq_zero_iff.mp lengths)
  · intro e chosen name inside
    exact refers e chosen name (Expansion.mem_references.mp inside)

theorem sound_of_makes {ahead : List Pending} (makes : Makes ahead f f') (sound : f.Sound)
    (waits : ∀ p ∈ ahead, p.Sound f.taken) : f'.Sound := by
  induction makes with
  | nil => exact sound
  | cons rule _ ih =>
    obtain ⟨here, later⟩ := List.forall_mem_cons.mp waits
    have leads := rule.leads_rule sound here
    exact ih leads.still fun q inside => (later q inside).mono leads.taken

theorem sound_round (makes : Makes f.queue { f with queue := [] } f') (sound : f.Sound) : f'.Sound :=
  sound_of_makes makes ⟨sound.linked, List.forall_mem_nil _⟩ sound.waits

theorem sound_drain (run : drain rounds f = .ok f') (sound : f.Sound) : f'.Sound := by
  obtain ⟨f₁, first, second, -⟩ := exists_of_drain run
  exact sound_round second (sound_round first sound)

end Rounds

section Building
variable {members : Entries Json} {definitions : List Definition} {queue : List Pending}

theorem exists_of_forall₂ {α β : Type} {related : α → β → Prop} {xs : List α} {ys : List β}
    (each : List.Forall₂ related xs ys) {y : β} (inside : y ∈ ys) : ∃ x ∈ xs, related x y := by
  obtain ⟨i, bound, rfl⟩ := List.mem_iff_getElem.mp inside
  have bound' : i < xs.length := each.length_eq ▸ bound
  exact ⟨xs[i], List.getElem_mem bound', each.get bound' bound⟩

theorem Definition.Queued.sound_pending {d : Definition} {p : Pending} (queued : d.Queued p)
    (some : d.alternatives ≠ []) {given : List String}
    (known : ∀ parts ∈ d.alternatives, ∀ name ∈ Part.namesAll parts, name ∈ given) :
    p.Sound given where
  named := queued.name ▸ queued.named
  some := by
    intro none
    have lengths := queued.each.length_eq
    rw [none] at lengths
    exact some (List.length_eq_zero_iff.mp lengths)
  known item inside := by
    obtain ⟨parts, chosen, prepared⟩ := exists_of_forall₂ queued.each inside
    exact ⟨parts, prepared, known parts chosen⟩

theorem wellFormed_drain (queued : List.Forall₂ Definition.Queued definitions queue)
    (names : queue.map Pending.name = definitions.map Definition.name)
    (closed : Closed definitions) (some : ∀ d ∈ definitions, d.alternatives ≠ [])
    {f : Flattening} (run : drain rounds ⟨queue.map Pending.name, [], queue⟩ = .ok f)
    {start : String} (inside : start ∈ queue.map Pending.name) : Grammar.WellFormed f.rules start := by
  have sound : Flattening.Sound ⟨queue.map Pending.name, [], queue⟩ := by
    refine ⟨(fun _ _ none => nomatch none), ?_⟩
    intro p waits
    obtain ⟨d, among, here⟩ := exists_of_forall₂ queued waits
    refine here.sound_pending (some d among) ?_
    rw [names]
    exact closed d among
  exact (drain_gathers run).1.tidy.wellFormed (sound_drain run sound).linked inside

theorem spelled_le {env : Environment}
    (holds : ∀ d ∈ definitions, ∀ parts ∈ d.alternatives, Part.languageAll env parts ≤ env d.name)
    (name : String) : spelled definitions env name ≤ env name := by
  rintro w ⟨d, inside, rfl, parts, chosen, word⟩
  exact mem_of_le (holds d inside parts chosen) word

/-- A dictionary that is well formed and closed is built with any of its names as the start. What
its rules derive lies within all languages that hold what its alternatives say of them. -/
theorem exists_load (written : List.Forall₂ Defines members definitions)
    (closed : Closed definitions) (some : ∀ d ∈ definitions, d.alternatives ≠ []) {key : String}
    (inside : bareName key ∈ definitions.map Definition.name) :
    ∃ g, (load members (.text key)).outcome = .ok g ∧ g.start = bareName key ∧
      ∀ env,
        (∀ d ∈ definitions, ∀ parts ∈ d.alternatives, Part.languageAll env parts ≤ env d.name) →
        ∀ w, g.rules.Derives [.nonterminal g.start] w → w ∈ env g.start := by
  obtain ⟨queue, read, queued⟩ := exists_entries written
  obtain ⟨f, drained, words⟩ := @exists_drain (definitions.map Definition.name) definitions queue
    queued fun d among => List.mem_map_of_mem among
  have names := names_eq written
  have waiting : queue.map Pending.name = definitions.map Definition.name :=
    (names_entries read).trans names
  have wellFormed := wellFormed_drain queued waiting closed some (waiting.symm ▸ drained)
    (waiting.symm ▸ inside)
  rw [← names] at drained
  have converted : (Dictionary.rules members).outcome = .ok f.rules := by
    rw [Dictionary.rules, Report.outcome_bind read, Report.outcome_bind (a := f) drained]
    rfl
  refine ⟨⟨f.rules, bareName key, (Cost.estimate f.rules).table⟩, ?_, rfl, ?_⟩
  · rw [load, Report.outcome_bind converted, Report.outcome_bind (a := bareName key) rfl]
    exact Grammar.build_outcome_eq_ok wellFormed
  · intro env holds w derives
    have means : ∀ env, ∀ name ∈ definitions.map Definition.name,
        f.rules.expanded (definitions.map Definition.name) env f.rules name =
          spelled definitions env name := by
      intro env name known
      rw [words env name known]
      exact closed.spelled_congr (fun other among => Rules.reading_given among) name
    exact Rules.derived_le_of_le means (fun name _ => spelled_le holds name) _ ⟨inside, derives⟩

end Building
end GrammarSampler.Dictionary
