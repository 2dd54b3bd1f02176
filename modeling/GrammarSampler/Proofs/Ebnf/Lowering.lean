import GrammarSampler.Ebnf.Lowering
import GrammarSampler.Proofs.Ebnf.Fresh
import GrammarSampler.Proofs.Grammar.Given

/-!
Lowering keeps the meaning. The symbols that an item is lowered to derive the language of the item,
over any languages for the names of the text, in all rules that agree with those made for fresh
names. Since fresh names are free, later lowerings keep these.
-/
namespace GrammarSampler.Ebnf

structure Extends (l l' : Lowering) : Prop where
  taken : l.taken ⊆ l'.taken
  kept : ∀ name ∈ l.taken, l'.rules.get? name = l.rules.get? name

theorem Extends.refl (l : Lowering) : Extends l l := ⟨fun _ inside => inside, fun _ _ => rfl⟩

theorem Extends.trans {l l' l'' : Lowering} (first : Extends l l') (second : Extends l' l'') :
    Extends l l'' := by
  refine ⟨fun name inside => second.taken (first.taken inside), fun name inside => ?_⟩
  rw [second.kept name (first.taken inside), first.kept name inside]

def Agrees (given : List String) (l : Lowering) (rules : Rules) : Prop :=
  ∀ name ∈ l.taken, name ∉ given → rules.get? name = l.rules.get? name

theorem Agrees.of_extends {given : List String} {l l' : Lowering} {rules : Rules}
    (agrees : Agrees given l' rules) (extends_ : Extends l l') : Agrees given l rules := by
  intro name inside fresh
  rw [agrees name (extends_.taken inside) fresh, extends_.kept name inside]

section Steps
variable (l : Lowering) (hint : String)

theorem extends_define (alternatives : String → List Expansion) :
    Extends l (l.define hint alternatives).2 := by
  refine ⟨fun name inside => List.mem_cons_of_mem _ inside, fun name inside => ?_⟩
  have apart : Fresh.name l.taken hint ≠ name := by
    rintro rfl
    exact Fresh.name_notMem l.taken hint inside
  exact Entries.get?_put_other _ _ apart

theorem inline_eq (alternatives : List (List Symbol)) :
    (∃ only, alternatives = [only] ∧ l.inline hint alternatives = (only, l)) ∨
      l.inline hint alternatives =
        ([.nonterminal (l.define hint fun _ => alternatives.map .unweighted).1],
          (l.define hint fun _ => alternatives.map .unweighted).2) := by
  unfold Lowering.inline
  split
  · exact .inl ⟨_, rfl, rfl⟩
  · exact .inr rfl

theorem extends_inline (alternatives : List (List Symbol)) :
    Extends l (l.inline hint alternatives).2 := by
  rcases inline_eq l hint alternatives with ⟨only, -, same⟩ | same
  · rw [same]
    exact .refl l
  · rw [same]
    exact extends_define l hint fun _ => alternatives.map .unweighted

mutual
theorem extends_lowerItem : ∀ (l : Lowering) (item : Item), Extends l (lowerItem hint l item).2
  | l, .literal _ => .refl l
  | l, .reference _ => .refl l
  | l, .group alternatives => (extends_lowerBody l alternatives).trans (extends_inline _ hint _)
  | l, .repeated item times => (extends_lowerItem l item).trans
    (extends_define _ hint fun name => times.expansions name (lowerItem hint l item).1)

theorem extends_lowerSequence :
    ∀ (l : Lowering) (items : List Item), Extends l (lowerSequence hint l items).2
  | l, [] => .refl l
  | l, item :: rest => (extends_lowerItem l item).trans (extends_lowerSequence _ rest)

theorem extends_lowerBody :
    ∀ (l : Lowering) (body : List (List Item)), Extends l (lowerBody hint l body).2
  | l, [] => .refl l
  | l, sequence :: rest => (extends_lowerSequence l sequence).trans (extends_lowerBody _ rest)
end

end Steps

theorem exists_mem_of_map_eq {α β γ : Type} {f : α → γ} {g : β → γ} {xs : List α} {ys : List β}
    (same : xs.map f = ys.map g) (holds : γ → Prop) :
    (∃ x ∈ xs, holds (f x)) ↔ ∃ y ∈ ys, holds (g y) := by
  calc (∃ x ∈ xs, holds (f x)) ↔ ∃ z ∈ xs.map f, holds z := by simp
    _ ↔ ∃ z ∈ ys.map g, holds z := by rw [same]
    _ ↔ ∃ y ∈ ys, holds (g y) := by simp

section Meaning
variable {rules : Rules} {given : List String} (env : Environment) {l : Lowering} (hint : String)

theorem define_rule {alternatives : String → List Expansion} (inside : given ⊆ l.taken)
    (agrees : Agrees given (l.define hint alternatives).2 rules) :
    (l.define hint alternatives).1 ∉ given ∧ rules.get? (l.define hint alternatives).1 =
      some (alternatives (l.define hint alternatives).1) := by
  have fresh : (l.define hint alternatives).1 ∉ given :=
    fun known => Fresh.name_notMem l.taken hint (inside known)
  have kept := agrees (l.define hint alternatives).1 List.mem_cons_self fresh
  exact ⟨fresh, kept.trans (Entries.get?_put_self _ _ _)⟩

theorem mem_inline {alternatives : List (List Symbol)} (inside : given ⊆ l.taken)
    (agrees : Agrees given (l.inline hint alternatives).2 rules) {w : List Char} :
    w ∈ rules.languageGiven given env (l.inline hint alternatives).1 ↔
      ∃ symbols ∈ alternatives, w ∈ rules.languageGiven given env symbols := by
  rcases inline_eq l hint alternatives with ⟨only, rfl, same⟩ | same
  · rw [same]
    simp
  · rw [same] at agrees ⊢
    obtain ⟨fresh, found⟩ := @define_rule rules given l hint
      (fun _ => alternatives.map .unweighted) inside agrees
    rw [Rules.mem_languageGiven_rule fresh found]
    simp [Expansion.unweighted]

mutual
theorem lowerItem_language : ∀ (l : Lowering) (item : Item), given ⊆ l.taken →
    (∀ name ∈ itemNames item, name ∈ given) → Agrees given (lowerItem hint l item).2 rules →
      rules.languageGiven given env (lowerItem hint l item).1 = itemLanguage env item
  | l, .literal text, _, _, _ => Rules.languageGiven_terminal text
  | l, .reference name, _, closed, _ =>
    Rules.languageGiven_given (closed name (List.mem_singleton_self name))
  | l, .group alternatives, inside, closed, agrees => by
    have inner := extends_lowerBody hint l alternatives
    have each := lowerBody_language l alternatives inside closed
      (agrees.of_extends (extends_inline _ hint _))
    ext w
    change w ∈ rules.languageGiven given env
      ((lowerBody hint l alternatives).2.inline hint (lowerBody hint l alternatives).1).1 ↔
        w ∈ bodyLanguage env alternatives
    rw [mem_inline env hint (fun name known => inner.taken (inside known)) agrees, mem_bodyLanguage]
    exact exists_mem_of_map_eq each (w ∈ ·)
  | l, .repeated item times, inside, closed, agrees => by
    have inner := extends_lowerItem hint l item
    have content := lowerItem_language l item inside closed (agrees.of_extends
      (extends_define _ hint fun name => times.expansions name (lowerItem hint l item).1))
    obtain ⟨fresh, found⟩ := @define_rule rules given _ hint
      (fun name => times.expansions name (lowerItem hint l item).1)
      (fun name known => inner.taken (inside known)) agrees
    rw [itemLanguage, ← content]
    exact Rules.languageGiven_times fresh found

theorem lowerSequence_language : ∀ (l : Lowering) (items : List Item), given ⊆ l.taken →
    (∀ name ∈ sequenceNames items, name ∈ given) →
      Agrees given (lowerSequence hint l items).2 rules →
        rules.languageGiven given env (lowerSequence hint l items).1 = sequenceLanguage env items
  | l, [], _, _, _ => Rules.languageGiven_nil
  | l, item :: rest, inside, closed, agrees => by
    have first := extends_lowerItem hint l item
    have head := lowerItem_language l item inside
      (fun name mem => closed name (List.mem_append_left _ mem))
      (agrees.of_extends (extends_lowerSequence hint _ rest))
    have tail := lowerSequence_language _ rest (fun name known => first.taken (inside known))
      (fun name mem => closed name (List.mem_append_right _ mem)) agrees
    rw [sequenceLanguage, ← head, ← tail]
    exact Rules.languageGiven_append _ _

theorem lowerBody_language : ∀ (l : Lowering) (body : List (List Item)), given ⊆ l.taken →
    (∀ name ∈ bodyNames body, name ∈ given) → Agrees given (lowerBody hint l body).2 rules →
      (lowerBody hint l body).1.map (rules.languageGiven given env) = body.map (sequenceLanguage env)
  | l, [], _, _, _ => rfl
  | l, sequence :: rest, inside, closed, agrees => by
    have first := extends_lowerSequence hint l sequence
    have head := lowerSequence_language l sequence inside
      (fun name mem => closed name (List.mem_append_left _ mem))
      (agrees.of_extends (extends_lowerBody hint _ rest))
    have tail := lowerBody_language _ rest (fun name known => first.taken (inside known))
      (fun name mem => closed name (List.mem_append_right _ mem)) agrees
    rw [List.map_cons, ← head, ← tail]
    rfl
end

end Meaning
end GrammarSampler.Ebnf
