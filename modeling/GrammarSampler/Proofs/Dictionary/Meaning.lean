import GrammarSampler.Proofs.Dictionary.Rewriting
import GrammarSampler.Proofs.Ebnf.Lowering

/-!
Flattening keeps the meaning. In all rules that keep the rules made so far, the tokens of a
flattened text derive the language of its parts, as long as the names of the groups taken out of it
stand for what is in the groups.
-/
namespace GrammarSampler

namespace Rules

/-- What the names of derivations with given languages stand for. -/
def reading (rules : Rules) (given : List String) (env : Ebnf.Environment) : Ebnf.Environment :=
  fun name => rules.languageGiven given env [.nonterminal name]

theorem reading_given {rules : Rules} {given : List String} {env : Ebnf.Environment} {name : String}
    (inside : name ∈ given) : rules.reading given env name = env name :=
  languageGiven_given inside

end Rules

namespace Dictionary
open Ebnf (Times Lowering Environment)

section Tokens
variable {rules : Rules} {given : List String} {env : Environment}

theorem singleton_mul_singleton (u v : List Char) :
    ({u} : Language Char) * {v} = {u ++ v} := Set.image2_singleton

theorem languageGiven_flush (read : List Char) :
    rules.languageGiven given env (flush read) = {read.reverse} := by
  cases read with
  | nil => exact Rules.languageGiven_nil
  | cons c read =>
    have one := @Rules.languageGiven_terminal rules given env (String.ofList (c :: read).reverse)
    rwa [String.toList_ofList] at one

theorem tokensFrom_bracketed {name : String} (token : IsToken name) (fuel : Nat)
    (read rest : List Char) :
    tokensFrom (fuel + 1) read (bracketed name ++ rest) =
      flush read ++ .nonterminal name :: tokensFrom fuel [] rest := by
  have found := @nameAt?_eq name rest token
  rw [bracketed, List.cons_append, List.append_assoc, List.singleton_append, tokensFrom, if_pos rfl,
    found]
  dsimp only
  rw [String.ofList_toList]

theorem languageGiven_tokensFrom {parts : List Part} {fuel : Nat} {read : List Char}
    (settled : ∀ part ∈ parts, part.IsSettled ∧ part.WellFormed)
    (enough : (Part.writeAll parts).length ≤ fuel) :
    rules.languageGiven given env (tokensFrom fuel read (Part.writeAll parts)) =
      {read.reverse} * Part.languageAll (rules.reading given env) parts := by
  induction parts generalizing fuel read with
  | nil =>
    rw [Part.languageAll, mul_one, ← @languageGiven_flush rules given env]
    cases fuel <;> rfl
  | cons part rest ih =>
    obtain ⟨⟨plain, good⟩, later⟩ := List.forall_mem_cons.mp settled
    rw [Part.writeAll, List.length_append] at enough
    rw [Part.languageAll, ← mul_assoc]
    cases part with
    | literal c =>
      obtain ⟨spare, rfl⟩ : ∃ spare, fuel = spare + 1 :=
        ⟨fuel - 1, by simp [Part.write] at enough; omega⟩
      have apart : c ≠ '<' := by
        have clear : isPlain c = true := good
        rintro rfl
        exact absurd clear (by decide)
      have tail := @ih spare (c :: read) later (by simp [Part.write] at enough; omega)
      rw [Part.writeAll, Part.write, List.singleton_append, tokensFrom, if_neg apart, tail,
        Part.language, singleton_mul_singleton, List.reverse_cons]
    | reference name signs =>
      obtain rfl : signs = [] := plain
      obtain ⟨spare, rfl⟩ : ∃ spare, fuel = spare + 1 :=
        ⟨fuel - 1, by simp [Part.write, bracketed] at enough; omega⟩
      have tail := @ih spare [] later (by simp [Part.write, bracketed] at enough; omega)
      have one : ({([] : List Char).reverse} : Language Char) = 1 := Language.one_def.symm
      rw [one, one_mul] at tail
      rw [Part.writeAll, Part.write, List.map_nil, List.append_nil, tokensFrom_bracketed good.isToken,
        Rules.languageGiven_append, languageGiven_flush, ← List.singleton_append,
        Rules.languageGiven_append, tail, ← mul_assoc]
      rfl
    | group parts first more => exact plain.elim

theorem languageGiven_tokens {parts : List Part}
    (settled : ∀ part ∈ parts, part.IsSettled ∧ part.WellFormed) :
    rules.languageGiven given env (tokens (Part.writeAll parts)) =
      Part.languageAll (rules.reading given env) parts := by
  have all := @languageGiven_tokensFrom rules given env parts _ [] settled (Nat.le_refl _)
  have one : ({([] : List Char).reverse} : Language Char) = 1 := Language.one_def.symm
  rwa [one, one_mul] at all

end Tokens

def Flattening.Ruled (f : Flattening) : Prop :=
  ∀ name alternatives, f.rules.get? name = some alternatives → name ∈ f.taken

/-- A group in a queue has its name, but no rule yet. -/
structure Flattening.Waits (f : Flattening) (g : Group) : Prop where
  taken : g.name ∈ f.taken
  unruled : f.rules.get? g.name = none
  named : IsName g.name
  flat : ∀ part ∈ g.parts, part.IsFlat
  good : Part.AllWellFormed g.parts

/-- What flattening does to what was there before it: it queues some groups under fresh names, and
only the rules of names that are open may change. -/
structure Step (open_ : List String) (f f' : Flattening) (groups : List Group) : Prop where
  taken : f.taken ⊆ f'.taken
  kept : ∀ name ∈ f.taken, name ∉ open_ → f'.rules.get? name = f.rules.get? name
  ruled : f'.Ruled
  queue : f'.queue = f.queue ++ groups.map Group.pending
  distinct : (groups.map Group.name).Nodup
  fresh : ∀ g ∈ groups, g.name ∉ f.taken
  waiting : ∀ g ∈ groups, f'.Waits g

namespace Step
variable {open_ : List String} {f f' f'' : Flattening} {groups more : List Group}

theorem refl (ruled : f.Ruled) : Step open_ f f [] where
  taken := List.Subset.refl _
  kept _ _ _ := rfl
  ruled := ruled
  queue := (List.append_nil _).symm
  distinct := List.nodup_nil
  fresh := nofun
  waiting := nofun

theorem trans (first : Step open_ f f' groups) (known : open_ ⊆ f.taken)
    (second : Step open_ f' f'' more) : Step open_ f f'' (groups ++ more) where
  taken := List.Subset.trans first.taken second.taken
  kept name inside apart := by
    rw [second.kept name (first.taken inside) apart, first.kept name inside apart]
  ruled := second.ruled
  queue := by rw [second.queue, first.queue, List.map_append, List.append_assoc]
  distinct := by
    rw [List.map_append, List.nodup_append]
    refine ⟨first.distinct, second.distinct, ?_⟩
    intro name early other late same
    obtain ⟨g, inside, rfl⟩ := List.mem_map.mp early
    obtain ⟨h, inside', rfl⟩ := List.mem_map.mp late
    exact second.fresh h inside' (same ▸ (first.waiting g inside).taken)
  fresh g inside := by
    rcases List.mem_append.mp inside with early | late
    · exact first.fresh g early
    · exact fun before => second.fresh g late (first.taken before)
  waiting g inside := by
    rcases List.mem_append.mp inside with early | late
    · have waits := first.waiting g early
      have apart : g.name ∉ open_ := fun among => first.fresh g early (known among)
      refine ⟨second.taken waits.taken, ?_, waits.named, waits.flat, waits.good⟩
      rw [second.kept g.name waits.taken apart, waits.unruled]
    · exact second.waiting g late

theorem mono {larger : List String} (step : Step open_ f f' groups) (more : open_ ⊆ larger) :
    Step larger f f' groups :=
  { step with kept := fun name inside apart => step.kept name inside fun among => apart (more among) }

end Step

/-- The rules made so far for names that are not open stand. -/
def Stands (open_ : List String) (made rules : Rules) : Prop :=
  ∀ name ∉ open_, ∀ alternatives, made.get? name = some alternatives →
    rules.get? name = some alternatives

theorem Step.stands {open_ : List String} {f f' : Flattening} {groups : List Group} {rules : Rules}
    (step : Step open_ f f' groups) (ruled : f.Ruled) (stands : Stands open_ f'.rules rules) :
    Stands open_ f.rules rules := by
  intro name apart alternatives found
  refine stands name apart alternatives ?_
  rw [step.kept name (ruled name alternatives found) apart, found]

def Suits (env : Environment) (groups : List Group) : Prop :=
  ∀ g ∈ groups, env g.name = Part.languageAll env g.parts

theorem suits_append {env : Environment} {groups more : List Group} :
    Suits env (groups ++ more) ↔ Suits env groups ∧ Suits env more := List.forall_mem_append

section Lift
variable {hint : String}

theorem step_liftGroup (named : IsName hint) {f : Flattening} (ruled : f.Ruled) {parts : List Part}
    (flat : ∀ part ∈ parts, part.IsFlat) (good : Part.AllWellFormed parts) :
    Step [] f (f.lift hint parts) [⟨Fresh.name f.taken hint, parts⟩] where
  taken := List.subset_cons_self _ _
  kept _ _ _ := rfl
  ruled name alternatives found := List.mem_cons_of_mem _ (ruled name alternatives found)
  queue := rfl
  distinct := List.nodup_singleton _
  fresh g inside := by
    rw [List.mem_singleton.mp inside]
    exact Fresh.name_notMem f.taken hint
  waiting g inside := by
    rw [List.mem_singleton.mp inside]
    refine ⟨List.mem_cons_self, ?_, isName_fresh f.taken named, flat, good⟩
    cases found : f.rules.get? (Fresh.name f.taken hint) with
    | none => exact found
    | some alternatives =>
      exact absurd (ruled _ alternatives found) (Fresh.name_notMem f.taken hint)

mutual
theorem exists_lift (named : IsName hint) : ∀ (part : Part) (f : Flattening), f.Ruled →
    part.WellFormed → ∃ groups, Step [] f (part.lift hint f).2 groups ∧
      groups.length = part.groupCount ∧ ∀ env, Suits env groups →
        (part.lift hint f).1.language env = part.language env
  | .literal _, f, ruled, _ => ⟨[], .refl ruled, rfl, fun _ _ => rfl⟩
  | .reference _ _, f, ruled, _ => ⟨[], .refl ruled, rfl, fun _ _ => rfl⟩
  | .group parts first more, f, ruled, good => by
    obtain ⟨groups, step, count, inner⟩ := exists_liftAll named parts f ruled good.2
    have last := step_liftGroup named step.ruled (Part.isFlat_liftAll hint f parts)
      (Part.wellFormed_liftAll named f good.2)
    refine ⟨_, step.trans (List.nil_subset _) last, ?_, ?_⟩
    · rw [List.length_append, count]
      rfl
    · intro env suits
      obtain ⟨before, own⟩ := suits_append.mp suits
      have content := own _ (List.mem_singleton_self _)
      rw [Part.language, ← inner env before, ← content]
      rfl

theorem exists_liftAll (named : IsName hint) : ∀ (parts : List Part) (f : Flattening), f.Ruled →
    Part.AllWellFormed parts → ∃ groups, Step [] f (Part.liftAll hint f parts).2 groups ∧
      groups.length = Part.groupCountAll parts ∧ ∀ env, Suits env groups →
        Part.languageAll env (Part.liftAll hint f parts).1 = Part.languageAll env parts
  | [], f, ruled, _ => ⟨[], .refl ruled, rfl, fun _ _ => rfl⟩
  | part :: rest, f, ruled, good => by
    obtain ⟨groups, step, count, head⟩ := exists_lift named part f ruled good.1
    obtain ⟨more, step', count', tail⟩ := exists_liftAll named rest _ step.ruled good.2.2
    refine ⟨_, step.trans (List.nil_subset _) step', ?_, ?_⟩
    · rw [List.length_append, count, count', Part.groupCountAll]
    · intro env suits
      obtain ⟨before, behind⟩ := suits_append.mp suits
      rw [Part.languageAll, ← head env before, ← tail env behind]
      rfl
end

end Lift

section Settle
variable {hint : String} {f : Flattening}

theorem step_settleSign (ruled : f.Ruled) (name : String) (times : Times) :
    Step [] f (f.settle hint name times) [] := by
  have extends_ := Ebnf.extends_define f.lowering hint
    fun fresh => times.expansions fresh [.nonterminal name]
  refine ⟨extends_.taken, fun name inside _ => extends_.kept name inside, ?_,
    (List.append_nil _).symm, List.nodup_nil, nofun, nofun⟩
  intro other alternatives found
  rcases Entries.get?_put_eq_some_iff.mp found with ⟨rfl, -⟩ | ⟨-, old⟩
  · exact List.mem_cons_self
  · exact List.mem_cons_of_mem _ (ruled other alternatives old)

theorem step_resolve (ruled : f.Ruled) (name : String) (signs : List Times) :
    Step [] f (Part.resolve hint f name signs).2 [] := by
  induction signs generalizing f name with
  | nil => exact .refl ruled
  | cons times signs ih =>
    have first := @step_settleSign hint f ruled name times
    exact first.trans (List.nil_subset _) (ih first.ruled _)

theorem step_settle (ruled : f.Ruled) (part : Part) : Step [] f (part.settle hint f).2 [] := by
  cases part with
  | literal c => exact .refl ruled
  | reference name signs => exact step_resolve ruled name signs
  | group parts first more => exact .refl ruled

theorem step_settleAll (ruled : f.Ruled) (parts : List Part) :
    Step [] f (Part.settleAll hint f parts).2 [] := by
  induction parts generalizing f with
  | nil => exact .refl ruled
  | cons part rest ih =>
    have first := @step_settle hint f ruled part
    exact first.trans (List.nil_subset _) (ih first.ruled)

variable {given open_ : List String} {rules : Rules} (env : Environment)

theorem reading_resolve (inside : given ⊆ open_) (known : open_ ⊆ f.taken) (ruled : f.Ruled)
    (name : String) (signs : List Times)
    (stands : Stands open_ (Part.resolve hint f name signs).2.rules rules) :
    rules.reading given env (Part.resolve hint f name signs).1 =
      signed signs (rules.reading given env name) := by
  induction signs generalizing f name with
  | nil => rfl
  | cons times signs ih =>
    have first := @step_settleSign hint f ruled name times
    have later := (@step_resolve hint _ first.ruled (Fresh.name f.taken hint) signs).mono
      (List.nil_subset open_)
    have free : Fresh.name f.taken hint ∉ open_ :=
      fun among => Fresh.name_notMem f.taken hint (known among)
    have found := later.stands first.ruled stands _ free _ (Entries.get?_put_self _ _ _)
    have own : rules.reading given env (Fresh.name f.taken hint) =
        times.language (rules.reading given env name) :=
      Rules.languageGiven_times (fun among => free (inside among)) found
    have all := ih (List.Subset.trans known first.taken) first.ruled _ stands
    rw [own] at all
    exact all

theorem language_settle (inside : given ⊆ open_) (known : open_ ⊆ f.taken) (ruled : f.Ruled)
    {part : Part} (flat : part.IsFlat) (stands : Stands open_ (part.settle hint f).2.rules rules) :
    (part.settle hint f).1.language (rules.reading given env) =
      part.language (rules.reading given env) := by
  cases part with
  | literal c => rfl
  | reference name signs => exact reading_resolve env inside known ruled name signs stands
  | group parts first more => exact absurd flat (Nat.succ_ne_zero _)

theorem languageAll_settleAll (inside : given ⊆ open_) (known : open_ ⊆ f.taken) (ruled : f.Ruled)
    {parts : List Part} (flat : ∀ part ∈ parts, part.IsFlat)
    (stands : Stands open_ (Part.settleAll hint f parts).2.rules rules) :
    Part.languageAll (rules.reading given env) (Part.settleAll hint f parts).1 =
      Part.languageAll (rules.reading given env) parts := by
  induction parts generalizing f with
  | nil => rfl
  | cons part rest ih =>
    have first := @step_settle hint f ruled part
    have later := (@step_settleAll hint _ first.ruled rest).mono (List.nil_subset open_)
    obtain ⟨here, others⟩ := List.forall_mem_cons.mp flat
    have head := language_settle env inside known ruled here (later.stands first.ruled stands)
    have tail := ih (List.Subset.trans known first.taken) first.ruled others stands
    rw [Part.languageAll, ← head, ← tail]
    rfl

end Settle

/-- Rules that keep those made by a step, over languages that suit the groups queued by it. -/
structure Fits (given open_ : List String) (env : Environment) (f f' : Flattening)
    (groups : List Group) (rules : Rules) : Prop where
  inside : given ⊆ open_
  known : open_ ⊆ f.taken
  stands : Stands open_ f'.rules rules
  suits : Suits (rules.reading given env) groups

theorem Fits.split {given open_ : List String} {env : Environment} {f f' f'' : Flattening}
    {groups more : List Group} {rules : Rules}
    (fits : Fits given open_ env f f'' (groups ++ more) rules) (first : Step open_ f f' groups)
    (second : Step open_ f' f'' more) :
    Fits given open_ env f f' groups rules ∧ Fits given open_ env f' f'' more rules := by
  obtain ⟨before, behind⟩ := suits_append.mp fits.suits
  exact ⟨⟨fits.inside, fits.known, second.stands first.ruled fits.stands, before⟩,
    ⟨fits.inside, List.Subset.trans fits.known first.taken, fits.stands, behind⟩⟩

section Texts
variable {hint : String} {f : Flattening}

theorem exists_flattenAll (named : IsName hint) (ruled : f.Ruled) {parts : List Part}
    (good : Part.AllWellFormed parts) :
    ∃ groups, Step [] f (Part.flattenAll hint f parts).2 groups ∧
      groups.length = Part.groupCountAll parts ∧
        ∀ given open_ env rules,
          Fits given open_ env f (Part.flattenAll hint f parts).2 groups rules →
            rules.languageGiven given env
                (tokens (Part.writeAll (Part.flattenAll hint f parts).1)) =
              Part.languageAll (rules.reading given env) parts := by
  obtain ⟨groups, first, count, lifted⟩ := exists_liftAll named parts f ruled good
  have second := @step_settleAll hint _ first.ruled (Part.liftAll hint f parts).1
  have both := first.trans (List.nil_subset _) second
  rw [List.append_nil] at both
  refine ⟨groups, both, count, ?_⟩
  intro given open_ env rules fits
  have settled := languageAll_settleAll env fits.inside
    (List.Subset.trans fits.known first.taken) first.ruled (Part.isFlat_liftAll hint f parts)
    fits.stands
  rw [languageGiven_tokens (isSettled_flattenAll named good f)]
  exact settled.trans (lifted _ fits.suits)

structure Prepared (parts : List Part) (item : List Char × Option Number) : Prop where
  written : item.1 = Part.writeAll parts
  good : Part.AllWellFormed parts
  weight : ∀ n, item.2 = some n → n.isPositive = true

theorem symbols?_map (symbols : List Symbol) :
    DraftItem.symbols? (symbols.map .symbol) = .ok symbols := by
  unfold DraftItem.symbols?
  induction symbols with
  | nil => rfl
  | cons symbol rest ih =>
    rw [List.map_cons, List.mapM_cons, ih]
    rfl

theorem ofDraft_symbols (symbols : List Symbol) {weight : Option Number}
    (positive : ∀ n, weight = some n → n.isPositive = true) :
    Expansion.ofDraft (symbols.map .symbol) weight = .ok ⟨symbols, weight⟩ := by
  unfold Expansion.ofDraft
  rw [symbols?_map]
  cases weight with
  | none => rfl
  | some n =>
    change (if n.isPositive then Except.ok (⟨symbols, some n⟩ : Expansion) else _) = _
    rw [if_pos (positive n rfl)]

theorem exists_flattenAlternatives (named : IsName hint) (ruled : f.Ruled)
    {alternatives : List (List Part)} {items : List (List Char × Option Number)}
    (prepared : List.Forall₂ Prepared alternatives items) :
    ∃ expansions f' groups, flattenAlternatives hint f items = .ok (expansions, f') ∧
      Step [] f f' groups ∧ groups.length = (alternatives.map Part.groupCountAll).sum ∧
        ∀ given open_ env rules, Fits given open_ env f f' groups rules →
          expansions.map (fun e => rules.languageGiven given env e.symbols) =
            alternatives.map (Part.languageAll (rules.reading given env)) := by
  induction prepared generalizing f with
  | nil => exact ⟨[], f, [], rfl, .refl ruled, rfl, fun _ _ _ _ _ => rfl⟩
  | @cons parts item alternatives items here later ih =>
    obtain ⟨groups, first, count, head⟩ := exists_flattenAll named ruled here.good
    obtain ⟨expansions, f', more, run, second, count', tail⟩ := ih first.ruled
    have all := first.trans (List.nil_subset _) second
    refine ⟨⟨tokens (Part.writeAll (Part.flattenAll hint f parts).1), item.2⟩ :: expansions, f',
      groups ++ more, ?_, all, ?_, ?_⟩
    · have text := flatten?_writeAll named here.good f
      have one := ofDraft_symbols (tokens (Part.writeAll (Part.flattenAll hint f parts).1))
        here.weight
      rw [← here.written] at text
      rw [flattenAlternatives, text]
      change (Expansion.ofDraft _ item.2 >>= fun e => _) = _
      rw [one]
      change (flattenAlternatives hint _ items >>= fun later => _) = _
      rw [run]
      rfl
    · rw [List.length_append, count, count', List.map_cons, List.sum_cons]
    · intro given open_ env rules fits
      obtain ⟨before, behind⟩ := fits.split (first.mono (List.nil_subset _))
        (second.mono (List.nil_subset _))
      rw [List.map_cons, List.map_cons, ← head _ _ _ _ before, ← tail _ _ _ _ behind]

end Texts
end Dictionary
end GrammarSampler
