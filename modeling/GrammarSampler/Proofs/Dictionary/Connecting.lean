import GrammarSampler.Proofs.Dictionary.Keeping
import GrammarSampler.Proofs.Dictionary.Solid
import GrammarSampler.Proofs.GrammarText.Language
import Mathlib.Logic.Relation

/-!
How the names made up for a dictionary hang together with the names that it defines. On the way from a
text to its symbols a name that was put into it is only text itself, which is searched again and cut
at groups and operators. If the name stays whole, references lead from the rule that it was made for
to it; if it holds a blank, no other rule refers to it.
-/
namespace GrammarSampler
open Relation (ReflTransGen)

namespace Rules
variable {rules : Rules} {start rule name used : String} {alternatives : List Expansion}

theorem Reaches.exists_other (reaches : rules.Reaches start name) (apart : start ≠ name) :
    ∃ other ≠ name, name ∈ rules.successors other := by
  induction reaches with
  | start => exact absurd rfl apart
  | @step before used _ next ih =>
    by_cases same : before = used
    · subst same
      exact ih apart
    · exact ⟨before, same, next⟩

theorem successors_put_other (apart : rule ≠ name) :
    successors (rules.put rule alternatives) name = rules.successors name := by
  rw [successors, Entries.get?_put_other _ _ apart, successors]

theorem mem_successors_extend_self {e : Expansion} (chosen : e ∈ alternatives)
    (refers : used ∈ e.references) : used ∈ (rules.extend rule alternatives).successors rule :=
  (mem_successors (Entries.get?_put_self _ _ _)).mpr ⟨e, List.mem_append_right _ chosen, refers⟩

theorem successors_extend (next : used ∈ rules.successors name) :
    used ∈ (rules.extend rule alternatives).successors name := by
  by_cases same : rule = name
  · subst same
    obtain ⟨e, chosen, refers⟩ := List.mem_flatMap.mp next
    exact (mem_successors (Entries.get?_put_self _ _ _)).mpr
      ⟨e, List.mem_append_left _ chosen, refers⟩
  · rw [extend, successors_put_other same]
    exact next

end Rules

namespace Dictionary
open Ebnf (Times)

/-- A name made up tells by its numbers for which rule it was made: for that of a given name, or for
that of a group which was made for such a rule itself. -/
inductive MadeFor (given : List String) (first : String) : String → Prop where
  | here (among : first ∈ given) (k : Nat) : MadeFor given first (Fresh.candidate first (k + 1))
  | within {outer : String} (made : MadeFor given first outer) (new : outer ∉ given) (k : Nat) :
      MadeFor given first (Fresh.candidate outer (k + 1))

namespace MadeFor
variable {given : List String} {first second name : String}

theorem exists_hint (made : MadeFor given first name) :
    ∃ hint k, name = Fresh.candidate hint (k + 1) ∧
      (hint = first ∧ first ∈ given ∨ hint ∉ given ∧ MadeFor given first hint) := by
  cases made with
  | here among k => exact ⟨first, k, rfl, .inl ⟨rfl, among⟩⟩
  | within made new k => exact ⟨_, k, rfl, .inr ⟨new, made⟩⟩

theorem mem_given (made : MadeFor given first name) : first ∈ given := by
  induction made with
  | here among _ => exact among
  | within _ _ _ ih => exact ih

theorem unique (made : MadeFor given first name) (other : MadeFor given second name) :
    first = second := by
  induction made with
  | here among k =>
    obtain ⟨hint, j, same, origin⟩ := other.exists_hint
    obtain ⟨rfl, -⟩ := Fresh.candidate_succ_inj same
    rcases origin with ⟨rfl, -⟩ | ⟨new, -⟩
    · rfl
    · exact absurd among new
  | within _ new k ih =>
    obtain ⟨hint, j, same, origin⟩ := other.exists_hint
    obtain ⟨rfl, -⟩ := Fresh.candidate_succ_inj same
    rcases origin with ⟨rfl, among⟩ | ⟨-, made⟩
    · exact absurd among new
    · exact ih made

theorem solid (made : MadeFor given first name) (unbroken : Unbroken first) : Solid name := by
  induction made with
  | here _ k => exact unbroken.numbered k
  | within _ _ k ih => exact ih.toUnbroken.numbered k

theorem subset (made : MadeFor given first name) : first.toList ⊆ name.toList := by
  induction made with
  | here _ k =>
    rw [Fresh.toList_candidate_succ]
    exact List.subset_append_left _ _
  | within _ _ k ih =>
    rw [Fresh.toList_candidate_succ]
    exact List.subset_append_of_subset_left _ ih

theorem of_fresh {taken : List String} {hint : String} (known : hint ∈ taken)
    (origin : hint ∉ given → MadeFor given first hint) (own : hint ∈ given → hint = first) :
    MadeFor given first (Fresh.name taken hint) := by
  obtain ⟨k, same⟩ := Fresh.exists_numbered known
  rw [same]
  by_cases among : hint ∈ given
  · obtain rfl := own among
    exact .here among k
  · exact .within (origin among) among k

end MadeFor

def Waiting (queue : List Pending) (a b : String) : Prop := ∃ p ∈ queue, p.name = a ∧ p.Mentions b

/-- How whole names lead to each other while rules are made: by the rules, by the texts that wait and by
what is at hand. -/
structure Flattening.Leads (hand : String → String → Prop) (f : Flattening) (a b : String) : Prop where
  source : Unbroken a
  target : Solid b
  way : b ∈ f.rules.successors a ∨ Waiting f.queue a b ∨ hand a b

/-- What holds while rules are made: only names in use have rules or wait for them, all symbols were
read, and each whole name that was made up is led to from the name that it was made for. -/
structure Connected (given : List String) (hand : String → String → Prop) (f : Flattening) : Prop where
  ruled : ∀ name ∈ f.rules.keys, name ∈ f.taken
  queued : ∀ p ∈ f.queue, p.name ∈ f.taken
  read : AllRead f.rules
  made : ∀ name ∈ f.taken, name ∉ given → ∃ first, MadeFor given first name ∧
    (Unbroken first → ReflTransGen (f.Leads hand) first name)

/-- What is at hand when the rule of a name is made: what mentions other names, and the rest. -/
def Beside (hint : String) (mentions : String → Prop) (rest : String → String → Prop)
    (a b : String) : Prop :=
  a = hint ∧ mentions b ∨ rest a b

section Steps
variable {given : List String} {hint : String} {hand hand' rest : String → String → Prop}
variable {f f' : Flattening} {m : Match} {text : List Char}

theorem Connected.take (connected : Connected given hand f) (known : hint ∈ f.taken)
    (taken : f'.taken = Fresh.name f.taken hint :: f.taken)
    (kept : ∀ a b, f.Leads hand a b → ReflTransGen (f'.Leads hand') a b)
    (linked : Unbroken hint → f'.Leads hand' hint (Fresh.name f.taken hint)) :
    ∀ name ∈ f'.taken, name ∉ given → ∃ first, MadeFor given first name ∧
      (Unbroken first → ReflTransGen (f'.Leads hand') first name) := by
  intro name inside new
  rw [taken] at inside
  rcases List.mem_cons.mp inside with rfl | old
  · by_cases among : hint ∈ given
    · refine ⟨hint, .of_fresh known (absurd among) fun _ => rfl, ?_⟩
      intro unbroken
      exact .single (linked unbroken)
    · obtain ⟨first, made, path⟩ := connected.made hint known among
      refine ⟨first, .of_fresh known (fun _ => made) fun own => absurd own among, ?_⟩
      intro unbroken
      have before := (path unbroken).lift' id kept
      exact before.tail (linked (made.solid unbroken).toUnbroken)
  · obtain ⟨first, made, path⟩ := connected.made name old new
    exact ⟨first, made, fun unbroken => (path unbroken).lift' id kept⟩

theorem Connected.keep (connected : Connected given hand f) (taken : f'.taken = f.taken)
    (ruled : ∀ name ∈ f'.rules.keys, name ∈ f'.taken) (queued : ∀ p ∈ f'.queue, p.name ∈ f'.taken)
    (read : AllRead f'.rules) (kept : ∀ a b, f.Leads hand a b → f'.Leads hand' a b) :
    Connected given hand' f' := by
  refine ⟨ruled, queued, read, ?_⟩
  intro name inside new
  obtain ⟨first, made, path⟩ := connected.made name (taken ▸ inside) new
  exact ⟨first, made, fun unbroken => ReflTransGen.mono kept _ _ (path unbroken)⟩

theorem Connected.imp (connected : Connected given hand f) (weaker : ∀ a b, hand a b → hand' a b) :
    Connected given hand' f := by
  refine connected.keep rfl connected.ruled connected.queued connected.read ?_
  intro a b ⟨source, target, way⟩
  exact ⟨source, target, way.imp_right (Or.imp_right (weaker a b))⟩

theorem Solid.of_fresh {taken : List String} (unbroken : Unbroken hint) (known : hint ∈ taken) :
    Solid (Fresh.name taken hint) := by
  obtain ⟨k, same⟩ := Fresh.exists_numbered known
  rw [same]
  exact unbroken.numbered k

theorem leads_fresh {taken : List String} (known : hint ∈ taken) (unbroken : Unbroken hint)
    (inside : bracketed (Fresh.name taken hint) <:+: text) :
    f.Leads (Beside hint (fun b => bracketed b <:+: text) rest) hint (Fresh.name taken hint) :=
  ⟨unbroken, .of_fresh unbroken known, .inr (.inr (.inl ⟨rfl, inside⟩))⟩

theorem Connected.postpone (known : hint ∈ f.taken) (cuts : m.Cuts '(' ')' isGroupChar text)
    (connected : Connected given (Beside hint (fun b => bracketed b <:+: text) rest) f) :
    Connected given (Beside hint (fun b => bracketed b <:+:
        m.before ++ bracketed (Fresh.name f.taken hint) ++ m.sign :: m.after) rest)
      (f.postpone hint m.inner) where
  ruled name inside := List.mem_cons_of_mem _ (connected.ruled name inside)
  queued p inside := by
    rcases List.mem_append.mp inside with old | new
    · exact List.mem_cons_of_mem _ (connected.queued p old)
    · rw [List.mem_singleton.mp new]
      exact List.mem_cons_self
  read := connected.read
  made := by
    have linked := fun unbroken => @leads_fresh hint rest (f.postpone hint m.inner) _ f.taken known
      unbroken (List.infix_append m.before _ (m.sign :: m.after))
    refine connected.take known rfl ?_ linked
    rintro a b ⟨source, target, ruled | ⟨p, waits, same, inside⟩ | ⟨rfl, inside⟩ | other⟩
    · exact .single ⟨source, target, .inl ruled⟩
    · exact .single ⟨source, target, .inr (.inl ⟨p, List.mem_append_left _ waits, same, inside⟩)⟩
    · rcases target.mention_group cuts inside with before | inner | after
      · refine .single ⟨source, target, .inr (.inr (.inl ⟨rfl, ?_⟩))⟩
        rw [List.append_assoc]
        exact before.trans (List.prefix_append _ _).isInfix
      · refine (ReflTransGen.single (linked source)).tail
          ⟨(linked source).target.toUnbroken, target, ?_⟩
        exact .inr (.inl ⟨_, List.mem_append_right _ (List.mem_singleton_self _), rfl, _,
          List.mem_singleton_self _, inner⟩)
      · refine .single ⟨source, target, .inr (.inr (.inl ⟨rfl, ?_⟩))⟩
        exact after.trans ((List.suffix_cons _ _).trans (List.suffix_append _ _)).isInfix
    · exact .single ⟨source, target, .inr (.inr (.inr other))⟩

theorem Connected.settle (known : hint ∈ f.taken) (cuts : m.Cuts '<' '>' isNameChar text)
    (times : Times)
    (connected : Connected given (Beside hint (fun b => bracketed b <:+: text) rest) f) :
    Connected given (Beside hint (fun b => bracketed b <:+:
        m.before ++ bracketed (Fresh.name f.taken hint) ++ m.after) rest)
      (f.settle hint (String.ofList m.inner) times) where
  ruled name inside := by
    rcases Entries.mem_keys_put.mp inside with rfl | old
    · exact List.mem_cons_self
    · exact List.mem_cons_of_mem _ (connected.ruled name old)
  queued p inside := List.mem_cons_of_mem _ (connected.queued p inside)
  read := by
    refine connected.read.put (readFor_times ?_ times _)
    exact ⟨by simpa using cuts.some, by simpa using cuts.inner⟩
  made := by
    have linked := fun unbroken => @leads_fresh hint rest
      (f.settle hint (String.ofList m.inner) times) _ f.taken known unbroken
      (List.infix_append m.before _ m.after)
    refine connected.take known rfl ?_ linked
    rintro a b ⟨source, target, ruled | waits | ⟨rfl, inside⟩ | other⟩
    · have apart : Fresh.name f.taken hint ≠ a := by
        rintro rfl
        exact Fresh.name_notMem f.taken hint (connected.ruled _ (Rules.mem_keys_of_successor ruled))
      exact .single ⟨source, target, .inl ((Rules.successors_put_other apart).symm ▸ ruled)⟩
    · exact .single ⟨source, target, .inr (.inl waits)⟩
    · rcases mention_sign target.isToken cuts inside (bracketed (Fresh.name f.taken a)) with
        kept | rfl
      · exact .single ⟨source, target, .inr (.inr (.inl ⟨rfl, kept⟩))⟩
      · refine (ReflTransGen.single (linked source)).tail
          ⟨(linked source).target.toUnbroken, target, ?_⟩
        obtain ⟨e, chosen, refers⟩ := times.exists_expansion (List.mem_singleton_self _)
          (Fresh.name f.taken a)
        exact .inl ((Rules.mem_successors (Entries.get?_put_self _ _ _)).mpr ⟨e, chosen, refers⟩)
    · exact .single ⟨source, target, .inr (.inr (.inr other))⟩

end Steps

section Texts
variable {given : List String} {hint : String} {rest : String → String → Prop}
variable {f f' : Flattening} {text text' : List Char}

theorem Lifts.connected (lifts : Lifts hint text f text' f') (known : hint ∈ f.taken)
    (connected : Connected given (Beside hint (fun b => bracketed b <:+: text) rest) f) :
    Connected given (Beside hint (fun b => bracketed b <:+: text') rest) f' := by
  induction lifts with
  | done => exact connected
  | group leftmost _ ih =>
    exact ih (List.mem_cons_of_mem _ known) (connected.postpone known (findGroup?_eq_some leftmost))

theorem Settles.connected (settles : Settles hint text f text' f') (known : hint ∈ f.taken)
    (connected : Connected given (Beside hint (fun b => bracketed b <:+: text) rest) f) :
    Connected given (Beside hint (fun b => bracketed b <:+: text') rest) f' := by
  induction settles with
  | done => exact connected
  | sign leftmost _ _ ih =>
    exact ih (List.mem_cons_of_mem _ known)
      (connected.settle known (findSignedName?_eq_some leftmost) _)

theorem connected_flatten? {symbols : List Symbol} (run : flatten? hint text f = .ok (symbols, f'))
    (known : hint ∈ f.taken)
    (connected : Connected given (Beside hint (fun b => bracketed b <:+: text) rest) f) :
    Connected given (Beside hint (fun b => Symbol.nonterminal b ∈ symbols) rest) f' ∧
      ∀ symbol ∈ symbols, IsRead symbol := by
  obtain ⟨plain, f₁, bare, lifts, settles, rfl⟩ := exists_of_flatten? run
  have between := lifts.connected known connected
  have last := settles.connected (lifts.moves.taken_subset known) between
  refine ⟨?_, isRead_tokens _⟩
  refine last.keep rfl last.ruled last.queued last.read ?_
  rintro a b ⟨source, target, ruled | waits | ⟨same, inside⟩ | other⟩
  · exact ⟨source, target, .inl ruled⟩
  · exact ⟨source, target, .inr (.inl waits)⟩
  · exact ⟨source, target, .inr (.inr (.inl
      ⟨same, mem_tokensFrom target.isToken (Nat.le_refl _) inside⟩))⟩
  · exact ⟨source, target, .inr (.inr (.inr other))⟩

theorem Flattens.connected {items : List (List Char × Option Number)} {expansions : List Expansion}
    (flattens : Flattens hint items f expansions f') (known : hint ∈ f.taken)
    (connected : Connected given
      (Beside hint (fun b => ∃ item ∈ items, bracketed b <:+: item.1) rest) f) :
    Connected given (Beside hint (fun b => ∃ e ∈ expansions, b ∈ e.references) rest) f' ∧
      ∀ e ∈ expansions, ReadFor hint e := by
  induction flattens generalizing rest with
  | nil =>
    refine ⟨connected.imp ?_, List.forall_mem_nil _⟩
    rintro a b (⟨-, item, none, -⟩ | other)
    · cases none
    · exact .inr other
  | @cons item items symbols expansions f f₁ f' text _ ih =>
    have texts : Connected given (Beside hint (fun b => bracketed b <:+: item.1)
        (Beside hint (fun b => ∃ item ∈ items, bracketed b <:+: item.1) rest)) f := by
      refine connected.imp ?_
      rintro a b (⟨own, other, among, inside⟩ | beside)
      · rcases List.mem_cons.mp among with rfl | later
        · exact .inl ⟨own, inside⟩
        · exact .inr (.inl ⟨own, other, later, inside⟩)
      · exact .inr (.inr beside)
    obtain ⟨first, read⟩ := connected_flatten? text known texts
    have left : Connected given (Beside hint (fun b => ∃ item ∈ items, bracketed b <:+: item.1)
        (Beside hint (fun b => Symbol.nonterminal b ∈ symbols) rest)) f₁ := by
      refine first.imp ?_
      rintro a b (here | later | beside)
      · exact .inr (.inl here)
      · exact .inl later
      · exact .inr (.inr beside)
    obtain ⟨last, read'⟩ := ih ((moves_flatten? text).taken_subset known) left
    refine ⟨last.imp ?_, List.forall_mem_cons.mpr ⟨?_, read'⟩⟩
    · rintro a b (⟨own, other, among, refers⟩ | ⟨own, inside⟩ | beside)
      · exact .inl ⟨own, other, List.mem_cons_of_mem _ among, refers⟩
      · exact .inl ⟨own, _, List.mem_cons_self, Expansion.mem_references.mpr inside⟩
      · exact .inr beside
    · intro symbol inside
      exact .inr (read symbol inside)

end Texts

section Rounds
variable {given : List String} {rest : String → String → Prop} {f f' : Flattening}

theorem Flattens.connected_rule {p : Pending} {expansions : List Expansion}
    (flattens : Flattens p.name p.alternatives f expansions f') (known : p.name ∈ f.taken)
    (connected : Connected given (Beside p.name p.Mentions rest) f) :
    Connected given rest { f' with rules := f'.rules.extend p.name expansions } := by
  obtain ⟨last, read⟩ := flattens.connected known connected
  refine last.keep rfl ?_ last.queued (last.read.extend read) ?_
  · intro name inside
    rcases Entries.mem_keys_put.mp inside with rfl | old
    · exact flattens.moves.taken_subset known
    · exact last.ruled name old
  · rintro a b ⟨source, target, ruled | waits | ⟨rfl, e, chosen, refers⟩ | other⟩
    · exact ⟨source, target, .inl (Rules.successors_extend ruled)⟩
    · exact ⟨source, target, .inr (.inl waits)⟩
    · exact ⟨source, target, .inl (Rules.mem_successors_extend_self chosen refers)⟩
    · exact ⟨source, target, .inr (.inr other)⟩

theorem Makes.connected {ahead : List Pending} (makes : Makes ahead f f')
    (known : ∀ p ∈ ahead, p.name ∈ f.taken) (connected : Connected given (Waiting ahead) f) :
    Connected given (Waiting []) f' := by
  induction makes with
  | nil => exact connected
  | @cons p ahead _ _ f₁ _ rule _ ih =>
    obtain ⟨here, others⟩ := List.forall_mem_cons.mp known
    refine ih (fun q waits => rule.moves.taken_subset (others q waits))
      (rule.connected_rule here (connected.imp ?_))
    rintro a b ⟨q, waits, named, inside⟩
    rcases List.mem_cons.mp waits with rfl | later
    · exact .inl ⟨named.symm, inside⟩
    · exact .inr ⟨q, later, named, inside⟩

theorem connected_round (makes : Makes f.queue { f with queue := [] } f')
    (connected : Connected given (Waiting []) f) : Connected given (Waiting []) f' := by
  refine makes.connected connected.queued ?_
  refine connected.keep rfl connected.ruled (List.forall_mem_nil _) connected.read ?_
  rintro a b ⟨source, target, ruled | waits | ⟨p, none, -⟩⟩
  · exact ⟨source, target, .inl ruled⟩
  · exact ⟨source, target, .inr (.inr waits)⟩
  · cases none

theorem connected_start {queue : List Pending} (known : ∀ p ∈ queue, p.name ∈ given) :
    Connected given (Waiting []) ⟨given, [], queue⟩ where
  ruled := List.forall_mem_nil _
  queued := known
  read := by simp [AllRead, Entries.get?]
  made _ inside new := absurd inside new

theorem connected_drain {queue : List Pending} (known : ∀ p ∈ queue, p.name ∈ given)
    (run : drain rounds ⟨given, [], queue⟩ = .ok f) :
    Connected given (Waiting []) f ∧ f.queue = [] := by
  obtain ⟨f₁, first, second, done⟩ := exists_of_drain run
  exact ⟨connected_round second (connected_round first (connected_start known)), done⟩

theorem reaches_of_leads (done : f.queue = []) {a b : String}
    (path : ReflTransGen (f.Leads (Waiting [])) a b) : f.rules.Reaches a b := by
  induction path with
  | refl => exact .start
  | tail _ next ih =>
    rcases next.way with ruled | ⟨p, waits, -⟩ | ⟨p, none, -⟩
    · exact .step ih ruled
    · rw [done] at waits
      cases waits
    · cases none

end Rounds

/-- An accepted dictionary is converted into the rules of its names and of names made up, each of which
was made for the rule of one given name. If this name stays whole, references lead from its rule to the
name made up, which another rule refers to, and no literal text holds it in its brackets. If it holds
a blank or an angle bracket, no other rule leads to the name made up. -/
theorem rules_connected {members : Entries Json} {rules : Rules}
    (accepted : (Dictionary.rules members).outcome = .ok rules) :
    ∃ made, rules.Keeps (members.keys.map bareName) made ∧ ∀ name ∈ made,
      ∃ first, MadeFor (members.keys.map bareName) first name ∧
        (∀ other, MadeFor (members.keys.map bareName) other name → other = first) ∧
        (Unbroken first → rules.Reaches first name ∧
          (∃ other ≠ name, name ∈ rules.successors other) ∧ ¬ rules.Spells (bracketed name)) ∧
        ((∃ c ∈ first.toList, isNameChar c = false) → ∀ other ≠ name, ¬ rules.Reaches other name) := by
  obtain ⟨-, made, -, keeps, -⟩ := rules_keep accepted
  refine ⟨made, keeps, ?_⟩
  rw [Dictionary.rules] at accepted
  obtain ⟨queue, read, run⟩ := Report.bind_eq_ok_iff.mp accepted
  obtain ⟨f, converted, same⟩ := Report.bind_eq_ok_iff.mp run
  cases same
  have known : ∀ p ∈ queue, p.name ∈ members.keys.map bareName := by
    intro p waits
    rw [← names_entries read]
    exact List.mem_map_of_mem waits
  obtain ⟨connected, done⟩ := connected_drain known converted
  intro name inside
  have new := keeps.apart name inside
  obtain ⟨first, own, path⟩ :=
    connected.made name (connected.ruled name ((keeps.keys name).mpr (.inr inside))) new
  refine ⟨first, own, fun other also => also.unique own, ?_, ?_⟩
  · intro unbroken
    have reaches := reaches_of_leads done (path unbroken)
    have apart : first ≠ name := by
      rintro rfl
      exact new own.mem_given
    exact ⟨reaches, reaches.exists_other apart,
      connected.read.not_spells (own.solid unbroken).isToken⟩
  · rintro ⟨c, among, outside⟩ other apart reaches
    have torn : ¬ IsToken name := by
      intro token
      rw [token.2 c (own.subset among)] at outside
      cases outside
    obtain ⟨last, apart', next⟩ := reaches.exists_other apart
    exact apart' (connected.read.eq_of_successor torn next)

/-- A name with a parenthesis that can be taken for that of a group, but is not. -/
def roundMembers : Entries Json := [("<f(x)>", .list [.text "<f(x)>+(y"])]

def roundRules : Rules :=
  [("f(x)-1", [.unweighted [.nonterminal "f(x)"],
      .unweighted [.nonterminal "f(x)", .nonterminal "f(x)-1"]]),
    ("f(x)", [.unweighted [.nonterminal "f(x)-1", .terminal "(y"]])]

def blankMembers : Entries Json := [("<a b>", .list [.text "(x)?"])]

def blankRules : Rules :=
  [("a b", [.unweighted [.terminal "<a b-1>?"]]), ("a b-1", [.unweighted [.terminal "x"]])]

theorem rules_connected_round :
    ((Dictionary.rules roundMembers).outcome = .ok roundRules ∧ roundRules.Reaches "f(x)" "f(x)-1" ∧
      (∃ other ≠ "f(x)-1", "f(x)-1" ∈ roundRules.successors other) ∧
      ¬ roundRules.Spells (bracketed "f(x)-1")) ∧
    (Dictionary.rules blankMembers).outcome = .ok blankRules ∧
      ∀ other ≠ "a b-1", ¬ blankRules.Reaches other "a b-1" := by
  have round : (Dictionary.rules roundMembers).outcome = .ok roundRules :=
    GrammarText.eq_ok_of_toOption (by decide +kernel)
  have blank : (Dictionary.rules blankMembers).outcome = .ok blankRules :=
    GrammarText.eq_ok_of_toOption (by decide +kernel)
  have roundNames : roundMembers.keys.map bareName = ["f(x)"] := by decide +kernel
  have blankNames : blankMembers.keys.map bareName = ["a b"] := by decide +kernel
  refine ⟨⟨round, ?_⟩, blank, ?_⟩
  · obtain ⟨made, keeps, connected⟩ := rules_connected round
    rw [roundNames] at keeps connected
    have inside : "f(x)-1" ∈ made :=
      ((keeps.keys "f(x)-1").mp (by decide +kernel)).resolve_left (by decide)
    obtain ⟨first, -, unique, whole, -⟩ := connected "f(x)-1" inside
    obtain rfl := unique "f(x)" (.here (by decide) 0)
    exact whole (by decide +kernel)
  · obtain ⟨made, keeps, connected⟩ := rules_connected blank
    rw [blankNames] at keeps connected
    have inside : "a b-1" ∈ made :=
      ((keeps.keys "a b-1").mp (by decide +kernel)).resolve_left (by decide)
    obtain ⟨first, -, unique, -, torn⟩ := connected "a b-1" inside
    obtain rfl := unique "a b" (.here (by decide) 0)
    exact torn ⟨' ', by decide +kernel, rfl⟩

/-- What is made up for a name that holds a blank is read as literal text, and no rule refers to it. -/
theorem rules_torn :
    (Dictionary.rules blankMembers).outcome = .ok blankRules ∧ "a b-1" ∈ blankRules.keys ∧
      "a b-1" ∉ blankMembers.keys.map bareName ∧ "a b-1" ∉ blankRules.allReferences ∧
      blankRules.Spells (bracketed "a b-1") := by
  refine ⟨GrammarText.eq_ok_of_toOption (by decide +kernel), by decide +kernel, by decide +kernel,
    by decide +kernel, ?_⟩
  exact ⟨"a b", _, rfl, _, List.mem_cons_self, _, List.mem_cons_self, by decide +kernel⟩

end Dictionary
end GrammarSampler
