import GrammarSampler.Proofs.Dictionary.Courses
import GrammarSampler.Proofs.Ebnf.References

/-!
Names that a dictionary uses but does not define, whatever its texts are. A name in angle brackets
stays whole while groups and operators are replaced, until it is a symbol; the names made up are
those of the dictionary with one or two numbers behind them.
-/
namespace GrammarSampler.Dictionary
open Ebnf (Times Lowering)

section Infix
variable {α : Type} {c d : α} {w v a b : List α}

theorem infix_of_notMem (absent : c ∉ w) (inside : w <:+: a ++ c :: b) : w <:+: a ∨ w <:+: b := by
  rcases List.infix_append_iff.mp inside with before | behind | ⟨left, right, rfl, suffix_, prefix_⟩
  · exact .inl before
  · rcases List.infix_cons_iff.mp behind with first | later
    · cases w with
      | nil => exact .inr List.nil_infix
      | cons e w =>
        obtain ⟨rfl, -⟩ := List.cons_prefix_cons.mp first
        exact absurd List.mem_cons_self absent
    · exact .inr later
  · cases right with
    | nil =>
      rw [List.append_nil]
      exact .inl suffix_.isInfix
    | cons e right =>
      obtain ⟨rfl, -⟩ := List.cons_prefix_cons.mp prefix_
      exact absurd (List.mem_append_right _ List.mem_cons_self) absent

theorem infix_of_head (absent : c ∉ a) (inside : c :: w <:+: a ++ b) : c :: w <:+: b := by
  induction a with
  | nil => exact inside
  | cons e a ih =>
    rcases List.infix_cons_iff.mp inside with first | later
    · obtain ⟨rfl, -⟩ := List.cons_prefix_cons.mp first
      exact absurd List.mem_cons_self absent
    · exact ih (fun here => absent (List.mem_cons_of_mem e here)) later

/-- A piece that begins with the only `c` in it lies before another `c`, begins there or lies behind. -/
theorem infix_cases (once : c ∉ w) (inside : c :: w <:+: a ++ c :: b) :
    c :: w <:+: a ∨ w <+: b ∨ c :: w <:+: b := by
  rcases List.infix_append_iff.mp inside with before | behind | ⟨left, right, parts, suffix_, prefix_⟩
  · exact .inl before
  · rcases List.infix_cons_iff.mp behind with first | later
    · exact .inr (.inl (List.cons_prefix_cons.mp first).2)
    · exact .inr (.inr later)
  · cases right with
    | nil =>
      rw [List.append_nil] at parts
      exact .inl (parts ▸ suffix_.isInfix)
    | cons e right =>
      obtain ⟨rfl, first⟩ := List.cons_prefix_cons.mp prefix_
      cases left with
      | nil =>
        injection parts with _ rest
        exact .inr (.inl (rest ▸ first))
      | cons f left =>
        injection parts with _ rest
        exact absurd (rest ▸ List.mem_append_right left List.mem_cons_self) once

end Infix

section Mentioned
variable {name : String} (named : IsName name)
include named

theorem notMem_bracketed {c : Char} (outside : isPlain c = false) (open_ : c ≠ '<') (close : c ≠ '>') :
    c ∉ bracketed name := by
  intro inside
  rw [bracketed, List.mem_cons, List.mem_append, List.mem_singleton] at inside
  rcases inside with rfl | inner | rfl
  · exact open_ rfl
  · rw [(named.2 c inner).1] at outside
    cases outside
  · exact close rfl

theorem mention_group {m : Match} {text : List Char} (cuts : m.Cuts '(' ')' isGroupChar text)
    (inside : bracketed name <:+: text) (fresh : List Char) :
    bracketed name <:+: m.before ++ fresh ++ m.sign :: m.after ∨ bracketed name <:+: m.inner := by
  rw [cuts.text_eq] at inside
  rcases infix_of_notMem (notMem_bracketed named rfl (by decide) (by decide)) inside with
    before | behind
  · left
    rw [List.append_assoc]
    exact before.trans (List.infix_append' [] _ _)
  · rcases infix_of_notMem (notMem_bracketed named rfl (by decide) (by decide)) behind with
      inner | after
    · exact .inr inner
    · exact .inl (after.trans (List.suffix_append _ _).isInfix)

end Mentioned

section Tokens
variable {name : String} (token : IsToken name)
include token

theorem mention_sign {m : Match} {text : List Char} (cuts : m.Cuts '<' '>' isNameChar text)
    (inside : bracketed name <:+: text) (fresh : List Char) :
    bracketed name <:+: m.before ++ fresh ++ m.after ∨ String.ofList m.inner = name := by
  rw [cuts.text_eq] at inside
  have once : '<' ∉ name.toList ++ ['>'] := by
    intro here
    rcases List.mem_append.mp here with inner | last
    · exact absurd (token.2 '<' inner) (by decide)
    · exact absurd (List.mem_singleton.mp last) (by decide)
  have sign : m.sign ≠ '<' := by
    intro same
    have found := cuts.sign
    rw [same] at found
    cases found
  -- The match has no other opening bracket, so a name that reaches into it begins with it.
  rcases infix_cases once inside with before | here | behind
  · left
    rw [List.append_assoc]
    exact before.trans (List.prefix_append _ _).isInfix
  · right
    obtain ⟨rest, whole⟩ := here
    have taken := congrArg (List.takeWhile isNameChar) whole
    rw [List.append_assoc, List.takeWhile_append_of_pos token.2,
      List.takeWhile_append_of_pos cuts.inner] at taken
    have stops : ∀ later, ('>' :: later).takeWhile isNameChar = [] := fun _ => rfl
    rw [List.singleton_append, stops, stops, List.append_nil, List.append_nil] at taken
    rw [← taken, String.ofList_toList]
  · left
    have absent : '<' ∉ m.inner ++ ['>', m.sign] := by
      intro here
      rcases List.mem_append.mp here with inner | last
      · exact absurd (cuts.inner '<' inner) (by decide)
      · simp [sign.symm] at last
    have after := infix_of_head absent (b := m.after) (by simpa using behind)
    exact after.trans (List.suffix_append _ _).isInfix

theorem mem_tokensFrom {fuel : Nat} {read text : List Char} (enough : text.length ≤ fuel)
    (inside : bracketed name <:+: text) : Symbol.nonterminal name ∈ tokensFrom fuel read text := by
  induction fuel generalizing read text with
  | zero =>
    obtain rfl : text = [] := List.length_eq_zero_iff.mp (by omega)
    exact absurd (List.infix_nil.mp inside) (List.cons_ne_nil _ _)
  | succ fuel ih =>
    cases text with
    | nil => exact absurd (List.infix_nil.mp inside) (List.cons_ne_nil _ _)
    | cons c text =>
      rw [List.length_cons] at enough
      rcases List.infix_cons_iff.mp inside with ⟨rest, here⟩ | later
      · rw [← here, tokensFrom_bracketed token]
        exact List.mem_append_right _ List.mem_cons_self
      · rw [tokensFrom]
        split
        · split
          · rename_i used rest found
            obtain ⟨rfl, -, plain⟩ := nameAt?_eq_some found
            have absent : '<' ∉ used ++ ['>'] := by
              intro here
              rcases List.mem_append.mp here with inner | last
              · exact absurd (plain '<' inner) (by decide)
              · exact absurd (List.mem_singleton.mp last) (by decide)
            have behind := infix_of_head absent (b := rest) (by simpa [bracketed] using later)
            rw [List.length_append, List.length_cons] at enough
            exact List.mem_append_right _ (List.mem_cons_of_mem _ (ih (by omega) behind))
          · exact ih (by omega) later
        · exact ih (by omega) later

end Tokens

def Pending.Mentions (p : Pending) (name : String) : Prop :=
  ∃ item ∈ p.alternatives, bracketed name <:+: item.1

def Flattening.Mentions (f : Flattening) (name : String) : Prop :=
  f.rules.Mentions name ∨ ∃ p ∈ f.queue, p.Mentions name

/-- All names taken are of a kind, some names are among them, and only names taken have rules or wait
for them. -/
structure Flattening.Within (kind : String → Prop) (base : List String) (f : Flattening) : Prop where
  taken : ∀ name ∈ f.taken, kind name
  kept : base ⊆ f.taken
  ruled : ∀ name ∈ f.rules.keys, name ∈ f.taken
  queued : ∀ p ∈ f.queue, p.name ∈ f.taken

/-- A conversion keeps the names to their kind, and what was mentioned before or in its input is
mentioned afterwards or in its output. -/
structure Converts (kind : String → Prop) (base : List String) (f f' : Flattening)
    (input output : String → Prop) : Prop where
  within : f.Within kind base → f'.Within kind base
  mentions : f.Within kind base → ∀ name, IsName name → input name ∨ f.Mentions name →
    output name ∨ f'.Mentions name

namespace Converts
variable {kind input between output : String → Prop} {base : List String} {f f' f'' : Flattening}

theorem same (weaker : ∀ name, input name → output name) : Converts kind base f f input output := by
  constructor
  · intro within
    exact within
  · intro _ name _ mentions
    exact mentions.imp_left (weaker name)

theorem trans (first : Converts kind base f f' input between)
    (second : Converts kind base f' f'' between output) : Converts kind base f f'' input output := by
  constructor
  · intro within
    exact second.within (first.within within)
  · intro within name named mentions
    exact second.mentions (first.within within) name named (first.mentions within name named mentions)

theorem beside (step : Converts kind base f f' input output) (other : String → Prop) :
    Converts kind base f f' (fun name => input name ∨ other name) fun name =>
      output name ∨ other name := by
  constructor
  · exact step.within
  · rintro within name named ((inside | kept) | mentioned)
    · exact (step.mentions within name named (.inl inside)).imp_left .inl
    · exact .inl (.inr kept)
    · exact (step.mentions within name named (.inr mentioned)).imp_left .inl

end Converts

section Conversion
variable {kind : String → Prop} {base : List String} {hint : String} {text text' : List Char}
variable {f f' : Flattening}

theorem kind_name (numbered : ∀ k, kind (Fresh.candidate hint k)) (within : f.Within kind base) :
    ∀ name ∈ Fresh.name f.taken hint :: f.taken, kind name := by
  intro name inside
  rcases List.mem_cons.mp inside with rfl | old
  · obtain ⟨k, -, same⟩ := Fresh.exists_candidate f.taken hint
    exact same ▸ numbered k
  · exact within.taken name old

theorem converts_postpone (numbered : ∀ k, kind (Fresh.candidate hint k)) {m : Match}
    (cuts : m.Cuts '(' ')' isGroupChar text) (fresh : List Char) :
    Converts kind base f (f.postpone hint m.inner) (fun name => bracketed name <:+: text) fun name =>
      bracketed name <:+: m.before ++ fresh ++ m.sign :: m.after := by
  constructor
  · intro within
    refine ⟨kind_name numbered within, List.subset_cons_of_subset _ within.kept, ?_, ?_⟩
    · intro name inside
      exact List.mem_cons_of_mem _ (within.ruled name inside)
    · intro p inside
      rcases List.mem_append.mp inside with old | new
      · exact List.mem_cons_of_mem _ (within.queued p old)
      · rw [List.mem_singleton.mp new]
        exact List.mem_cons_self
  · rintro - name named (inside | ruled | ⟨p, waits, inside⟩)
    · rcases mention_group named cuts inside fresh with kept | inner
      · exact .inl kept
      · exact .inr (.inr ⟨_, List.mem_append_right _ (List.mem_singleton_self _), _,
          List.mem_singleton_self _, inner⟩)
    · exact .inr (.inl ruled)
    · exact .inr (.inr ⟨p, List.mem_append_left _ waits, inside⟩)

theorem converts_settle (numbered : ∀ k, kind (Fresh.candidate hint k)) {m : Match}
    (cuts : m.Cuts '<' '>' isNameChar text) (times : Times) (fresh : List Char) :
    Converts kind base f (f.settle hint (String.ofList m.inner) times)
      (fun name => bracketed name <:+: text) fun name =>
        bracketed name <:+: m.before ++ fresh ++ m.after := by
  constructor
  · intro within
    refine ⟨kind_name numbered within, List.subset_cons_of_subset _ within.kept, ?_, ?_⟩
    · intro name inside
      rcases Entries.mem_keys_put.mp inside with rfl | old
      · exact List.mem_cons_self
      · exact List.mem_cons_of_mem _ (within.ruled name old)
    · intro p inside
      exact List.mem_cons_of_mem _ (within.queued p inside)
  · rintro within name named (inside | ruled | waits)
    · rcases mention_sign named.isToken cuts inside fresh with kept | rfl
      · exact .inl kept
      · have refers : Symbol.nonterminal (String.ofList m.inner) ∈
            [Symbol.nonterminal (String.ofList m.inner)] := List.mem_singleton_self _
        obtain ⟨e, chosen, refers⟩ := times.exists_expansion refers (Fresh.name f.taken hint)
        exact .inr (.inl (Rules.mentions_put_self chosen refers))
    · refine .inr (.inl (ruled.put fun inside => ?_))
      exact Fresh.name_notMem f.taken hint (within.ruled _ inside)
    · exact .inr (.inr waits)

theorem Lifts.converts (lifts : Lifts hint text f text' f')
    (numbered : ∀ k, kind (Fresh.candidate hint k)) :
    Converts kind base f f' (fun name => bracketed name <:+: text) fun name =>
      bracketed name <:+: text' := by
  induction lifts with
  | done => exact .same fun _ => id
  | group leftmost _ ih =>
    exact (converts_postpone numbered (findGroup?_eq_some leftmost) _).trans ih

theorem Settles.converts (settles : Settles hint text f text' f')
    (numbered : ∀ k, kind (Fresh.candidate hint k)) :
    Converts kind base f f' (fun name => bracketed name <:+: text) fun name =>
      bracketed name <:+: text' := by
  induction settles with
  | done => exact .same fun _ => id
  | sign leftmost _ _ ih =>
    exact (converts_settle numbered (findSignedName?_eq_some leftmost) _ _).trans ih

theorem converts_flatten? {symbols : List Symbol} (numbered : ∀ k, kind (Fresh.candidate hint k))
    (run : flatten? hint text f = .ok (symbols, f')) :
    Converts kind base f f' (fun name => bracketed name <:+: text) fun name =>
      Symbol.nonterminal name ∈ symbols := by
  obtain ⟨plain, f₁, bare, lifts, settles, rfl⟩ := exists_of_flatten? run
  have converted : Converts kind base f f' (fun name => bracketed name <:+: text) _ :=
    (lifts.converts numbered).trans (settles.converts numbered)
  constructor
  · exact converted.within
  · intro within name named mentions
    exact (converted.mentions within name named mentions).imp_left
      (mem_tokensFrom named.isToken (Nat.le_refl _))

end Conversion

section Rounds
variable {kind : String → Prop} {base : List String} {f f' : Flattening}

theorem Flattens.converts {hint : String} {items : List (List Char × Option Number)}
    {expansions : List Expansion} (flattens : Flattens hint items f expansions f')
    (numbered : ∀ k, kind (Fresh.candidate hint k)) :
    Converts kind base f f' (fun name => ∃ item ∈ items, bracketed name <:+: item.1)
      fun name => ∃ e ∈ expansions, name ∈ e.references := by
  induction flattens with
  | nil =>
    apply Converts.same
    rintro name ⟨item, none, -⟩
    cases none
  | @cons item items symbols expansions f f₁ f' text _ ih =>
    have head : Converts kind base f f₁ (fun name => bracketed name <:+: item.1)
        fun name => name ∈ Expansion.references ⟨symbols, item.2⟩ := by
      simp only [Expansion.mem_references]
      exact converts_flatten? numbered text
    have both := (head.beside fun name => ∃ item ∈ items, bracketed name <:+: item.1).trans
      ((Converts.same fun _ => Or.symm).trans
        (ih.beside fun name => name ∈ Expansion.references ⟨symbols, item.2⟩))
    refine (Converts.same ?_).trans (both.trans (.same ?_))
    · intro name
      exact (List.exists_mem_cons_iff _ _ _).mp
    · intro name refers
      exact (List.exists_mem_cons_iff _ _ _).mpr refers.symm

theorem Flattens.converts_rule {p : Pending} {expansions : List Expansion}
    (flattens : Flattens p.name p.alternatives f expansions f')
    (numbered : ∀ k, kind (Fresh.candidate p.name k)) (known : p.name ∈ base) :
    Converts kind base f { f' with rules := f'.rules.extend p.name expansions } p.Mentions
      fun _ => False := by
  have all : Converts kind base f f' p.Mentions fun name => ∃ e ∈ expansions, name ∈ e.references :=
    flattens.converts numbered
  constructor
  · intro within
    have now := all.within within
    refine ⟨now.taken, now.kept, ?_, now.queued⟩
    intro name inside
    rcases Entries.mem_keys_put.mp inside with rfl | old
    · exact now.kept known
    · exact now.ruled name old
  · intro within name named mentions
    right
    rcases all.mentions within name named mentions with ⟨e, chosen, refers⟩ | ruled | waits
    · exact .inl (Rules.mentions_extend_self chosen refers)
    · exact .inl ruled.extend
    · exact .inr waits

theorem Makes.converts {queue : List Pending} (makes : Makes queue f f')
    (numbered : ∀ p ∈ queue, ∀ k, kind (Fresh.candidate p.name k))
    (known : ∀ p ∈ queue, p.name ∈ base) :
    Converts kind base f f' (fun name => ∃ p ∈ queue, p.Mentions name) fun _ => False := by
  induction makes with
  | nil =>
    apply Converts.same
    rintro name ⟨p, none, -⟩
    cases none
  | @cons p queue _ _ _ _ rule _ ih =>
    obtain ⟨numbered, others⟩ := List.forall_mem_cons.mp numbered
    obtain ⟨known, known'⟩ := List.forall_mem_cons.mp known
    have head := (rule.converts_rule numbered known).beside fun name => ∃ p ∈ queue, p.Mentions name
    refine (Converts.same ?_).trans (head.trans ((Converts.same ?_).trans (ih others known')))
    · intro name
      exact (List.exists_mem_cons_iff _ _ _).mp
    · intro name waits
      exact waits.resolve_left id

def Numbered (given : List String) : Nat → String → Prop
  | 0, name => name ∈ given
  | n + 1, name => ∃ first k, Numbered given n first ∧ name = Fresh.candidate first k

/-- A round puts at most one more number behind the names, and nothing that is mentioned gets lost. -/
theorem within_round {given : List String} {n : Nat} (within : f.Within (Numbered given n) base)
    (makes : Makes f.queue { f with queue := [] } f') :
    f'.Within (Numbered given (n + 1)) f.taken ∧
      ∀ name, IsName name → f.Mentions name → f'.Mentions name := by
  have numbered : ∀ name ∈ f.taken, ∀ k, Numbered given (n + 1) (Fresh.candidate name k) := by
    intro name inside k
    exact ⟨name, k, within.taken name inside, rfl⟩
  have begun : Flattening.Within (Numbered given (n + 1)) f.taken { f with queue := [] } := by
    refine ⟨?_, List.Subset.refl _, within.ruled, List.forall_mem_nil _⟩
    intro name inside
    exact numbered name inside 0
  have converted := makes.converts (fun p waits => numbered p.name (within.queued p waits))
    within.queued
  refine ⟨converted.within begun, ?_⟩
  intro name named mentions
  rcases mentions with ruled | waits
  · exact (converted.mentions begun name named (.inr (.inl ruled))).resolve_left id
  · exact (converted.mentions begun name named (.inl waits)).resolve_left id

/-- After the rounds, only given names with up to two numbers have rules, and what a text mentioned is
referred to by a rule. -/
theorem drained {given : List String} {queue : List Pending} (known : ∀ p ∈ queue, p.name ∈ given)
    (run : drain rounds ⟨given, [], queue⟩ = .ok f) :
    (∀ name ∈ f.rules.keys, Numbered given 2 name) ∧
      ∀ name, IsName name → (∃ p ∈ queue, p.Mentions name) → f.rules.Mentions name := by
  obtain ⟨f₁, first, second, done⟩ := exists_of_drain run
  have start : Flattening.Within (Numbered given 0) given ⟨given, [], queue⟩ :=
    ⟨fun _ inside => inside, List.Subset.refl _, List.forall_mem_nil _, known⟩
  obtain ⟨between, once⟩ := within_round start first
  obtain ⟨last, twice⟩ := within_round between second
  constructor
  · intro name inside
    exact last.taken name (last.ruled name inside)
  · intro name named mentioned
    rcases twice name named (once name named (.inr mentioned)) with ruled | ⟨p, waits, -⟩
    · exact ruled
    · rw [done] at waits
      cases waits

end Rounds

theorem names_entries {members : Entries Json} {queue : List Pending}
    (read : (entries members).outcome = .ok queue) :
    queue.map Pending.name = members.keys.map bareName := by
  induction members generalizing queue with
  | nil =>
    cases read
    rfl
  | cons member members ih =>
    obtain ⟨key, value⟩ := member
    rw [entries] at read
    obtain ⟨items, -, read⟩ := Report.bind_eq_ok_iff.mp read
    obtain ⟨alternatives, -, read⟩ := Report.bind_eq_ok_iff.mp read
    obtain ⟨later, rest, read⟩ := Report.bind_eq_ok_iff.mp read
    cases read
    exact congrArg (bareName key :: ·) (ih rest)

/-- A name that stands in an accepted dictionary in angle brackets and is not defined there is bound
by a made up rule only if it is a name of the dictionary with one or two numbers behind it. Otherwise
no grammar is built. -/
theorem rules_undefined {members : Entries Json} {rules : Rules}
    (accepted : (Dictionary.rules members).outcome = .ok rules) :
    ∃ queue, (entries members).outcome = .ok queue ∧
      ∀ name, IsName name → (∃ p ∈ queue, p.Mentions name) → name ∉ members.keys.map bareName →
        (name ∈ rules.keys → ∃ first ∈ members.keys.map bareName, ∃ j, 0 < j ∧
          (name = Fresh.candidate first j ∨
            ∃ k, 0 < k ∧ name = Fresh.candidate (Fresh.candidate first j) k)) ∧
        (name ∉ rules.keys → ∀ start, ∃ fault, Grammar.build? rules start = .error fault) := by
  rw [Dictionary.rules] at accepted
  obtain ⟨queue, read, run⟩ := Report.bind_eq_ok_iff.mp accepted
  obtain ⟨f, converted, made⟩ := Report.bind_eq_ok_iff.mp run
  cases made
  have known : ∀ p ∈ queue, p.name ∈ members.keys.map bareName := by
    intro p waits
    rw [← names_entries read]
    exact List.mem_map_of_mem waits
  obtain ⟨made, mentioned⟩ := drained known converted
  refine ⟨queue, read, ?_⟩
  intro name named refers undefined
  constructor
  · intro inside
    obtain ⟨middle, k, ⟨first, j, among, rfl⟩, same⟩ := made name inside
    refine ⟨first, among, ?_⟩
    cases j with
    | zero =>
      cases k with
      | zero => exact absurd (same ▸ among) undefined
      | succ k => exact ⟨k + 1, Nat.succ_pos k, .inl same⟩
    | succ j =>
      refine ⟨j + 1, Nat.succ_pos j, ?_⟩
      cases k with
      | zero => exact .inl same
      | succ k => exact .inr ⟨k + 1, Nat.succ_pos k, same⟩
  · intro absent start
    exact (mentioned name named refers).build?_eq_error absent start

end GrammarSampler.Dictionary
