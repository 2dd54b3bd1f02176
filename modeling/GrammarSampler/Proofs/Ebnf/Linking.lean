import GrammarSampler.Proofs.Ebnf.Keeping
import GrammarSampler.Proofs.Ebnf.Reader
import GrammarSampler.Proofs.Grammar.Built
import GrammarSampler.Proofs.Grammar.Mentions

/-!
References stay among the names in use. If a body uses only such names, then so do the symbols that it
is lowered to and all rules that are made for it; when every name in use has its rule, the rules are
well formed.
-/
namespace GrammarSampler.Ebnf

theorem SpellsBody.ne_nil {text : List Char} {body : Body} (spells : SpellsBody text body) :
    body ≠ [] := by
  obtain ⟨sequence, later, rfl⟩ := spells.exists_cons
  exact List.cons_ne_nil sequence later

/-- Alternatives that refer to known names only, of which there is one at least. -/
structure Links (taken : List String) (alternatives : List Expansion) : Prop where
  some : alternatives ≠ []
  known : ∀ e ∈ alternatives, ∀ name ∈ e.references, name ∈ taken

def Linked (l : Lowering) : Prop :=
  ∀ name alternatives, l.rules.get? name = some alternatives → Links l.taken alternatives

def Refers (taken : List String) (symbols : List Symbol) : Prop :=
  ∀ name, Symbol.nonterminal name ∈ symbols → name ∈ taken

section Links
variable {taken taken' : List String} {alternatives more : List Expansion} {symbols : List Symbol}
variable {l : Lowering} {name : String}

theorem Refers.mono (refers : Refers taken symbols) (more : taken ⊆ taken') : Refers taken' symbols :=
  fun name inside => more (refers name inside)

theorem Refers.append {later : List Symbol} (first : Refers taken symbols)
    (second : Refers taken later) : Refers taken (symbols ++ later) := by
  intro name inside
  rcases List.mem_append.mp inside with here | there
  · exact first name here
  · exact second name there

theorem Refers.single (known : name ∈ taken) : Refers taken [.nonterminal name] := by
  intro other inside
  cases List.mem_singleton.mp inside
  exact known

theorem links_of_refers {bodies : List (List Symbol)} (some : bodies ≠ [])
    (each : ∀ symbols ∈ bodies, Refers taken symbols) : Links taken (bodies.map .unweighted) where
  some := by simpa using some
  known e inside used refers := by
    obtain ⟨symbols, among, rfl⟩ := List.mem_map.mp inside
    exact each symbols among used (Expansion.mem_references.mp refers)

theorem links_times (times : Times) (refers : Refers taken symbols) (known : name ∈ taken) :
    Links taken (times.expansions name symbols) := by
  have again := refers.append (Refers.single known)
  have empty : Refers taken [] := fun _ none => absurd none List.not_mem_nil
  cases times with
  | optional =>
    exact @links_of_refers taken [[], symbols] (by simp) (by simpa using ⟨empty, refers⟩)
  | star =>
    exact @links_of_refers taken [[], symbols ++ [.nonterminal name]] (by simp)
      (by simpa using ⟨empty, again⟩)
  | plus =>
    exact @links_of_refers taken [symbols, symbols ++ [.nonterminal name]] (by simp)
      (by simpa using ⟨refers, again⟩)

theorem Links.mono (links : Links taken alternatives) (more : taken ⊆ taken') :
    Links taken' alternatives :=
  ⟨links.some, fun e inside name refers => more (links.known e inside name refers)⟩

theorem Linked.put (linked : Linked l) (links : Links l.taken alternatives) :
    Linked ⟨l.taken, l.rules.put name alternatives⟩ := by
  intro other new found
  rcases Entries.get?_put_eq_some_iff.mp found with ⟨rfl, rfl⟩ | ⟨-, old⟩
  · exact links
  · exact linked other new old

theorem Linked.take (linked : Linked l) (name : String) : Linked ⟨name :: l.taken, l.rules⟩ :=
  fun other alternatives found =>
    (linked other alternatives found).mono (List.subset_cons_self name l.taken)

theorem Linked.extend (linked : Linked l) (links : Links l.taken alternatives) :
    Linked ⟨l.taken, l.rules.extend name alternatives⟩ := by
  refine linked.put ⟨?_, ?_⟩
  · exact List.append_ne_nil_of_right_ne_nil _ links.some
  · intro e chosen used refers
    rcases Rules.mem_extended chosen with ⟨before, found, old⟩ | new
    · exact (linked name before found).known e old used refers
    · exact links.known e new used refers

theorem Tidy.wellFormed {given : List String} {start : String} (tidy : Tidy given [] l)
    (linked : Linked l) (inside : start ∈ given) : Grammar.WellFormed l.rules start := by
  have ruled : ∀ name ∈ l.taken, name ∈ l.rules.keys :=
    fun name known => (tidy.covered name known).resolve_right List.not_mem_nil
  have each : ∀ rule ∈ l.rules, Links l.taken rule.2 :=
    fun rule among => linked rule.1 rule.2 (Entries.get?_of_mem tidy.distinct among)
  refine ⟨ruled start (tidy.inside inside), fun rule among => (each rule among).some, ?_⟩
  intro name used
  obtain ⟨rule, among, refers⟩ := List.mem_flatMap.mp used
  obtain ⟨e, chosen, refers⟩ := List.mem_flatMap.mp refers
  exact ruled name ((each rule among).known e chosen name refers)

end Links

section Lowering
variable (hint : String) (given : List String)

def ItemLinks (item : Item) : Prop :=
  ∀ l, given ⊆ l.taken → Linked l → Linked (lowerItem hint l item).2 ∧
    Refers (lowerItem hint l item).2.taken (lowerItem hint l item).1

def SequenceLinks (items : List Item) : Prop :=
  ∀ l, given ⊆ l.taken → Linked l → Linked (lowerSequence hint l items).2 ∧
    Refers (lowerSequence hint l items).2.taken (lowerSequence hint l items).1

def BodyLinks (body : Body) : Prop :=
  ∀ l, given ⊆ l.taken → Linked l → Linked (lowerBody hint l body).2 ∧
    ∀ symbols ∈ (lowerBody hint l body).1, Refers (lowerBody hint l body).2.taken symbols

variable {hint given} {item : Item} {items : List Item} {body : Body}

theorem Linked.define {l : Lowering} {alternatives : String → List Expansion} (linked : Linked l)
    (links : Links (Fresh.name l.taken hint :: l.taken) (alternatives (Fresh.name l.taken hint))) :
    Linked (l.define hint alternatives).2 :=
  (linked.take _).put links

theorem links_repeated (times : Times) (links : ItemLinks hint given item) :
    ItemLinks hint given (.repeated item times) := by
  intro l inside linked
  obtain ⟨linked', refers⟩ := links l inside linked
  have known := refers.mono (List.subset_cons_self (Fresh.name (lowerItem hint l item).2.taken hint) _)
  have made := @Linked.define hint (lowerItem hint l item).2
    (fun name => times.expansions name (lowerItem hint l item).1) linked'
    (links_times times known List.mem_cons_self)
  exact ⟨made, Refers.single List.mem_cons_self⟩

theorem links_group (some : body ≠ []) (links : BodyLinks hint given body) :
    ItemLinks hint given (.group body) := by
  intro l inside linked
  obtain ⟨linked', refers⟩ := links l inside linked
  change Linked ((lowerBody hint l body).2.inline hint (lowerBody hint l body).1).2 ∧
    Refers ((lowerBody hint l body).2.inline hint (lowerBody hint l body).1).2.taken
      ((lowerBody hint l body).2.inline hint (lowerBody hint l body).1).1
  rcases inline_eq (lowerBody hint l body).2 hint (lowerBody hint l body).1 with
    ⟨only, single, same⟩ | same
  · rw [same]
    exact ⟨linked', refers only (single ▸ List.mem_singleton_self only)⟩
  · rw [same]
    have several : (lowerBody hint l body).1 ≠ [] := by
      intro none
      have lengths := length_lowerBody hint l body
      rw [none] at lengths
      exact some (List.length_eq_zero_iff.mp lengths.symm)
    have made := @Linked.define hint (lowerBody hint l body).2
      (fun _ => (lowerBody hint l body).1.map .unweighted) linked'
      (links_of_refers several fun symbols among =>
        (refers symbols among).mono (List.subset_cons_self _ _))
    exact ⟨made, Refers.single List.mem_cons_self⟩

theorem links_nil : SequenceLinks hint given [] :=
  fun _ _ linked => ⟨linked, fun _ none => absurd none List.not_mem_nil⟩

theorem links_cons (head : ItemLinks hint given item) (tail : SequenceLinks hint given items) :
    SequenceLinks hint given (item :: items) := by
  intro l inside linked
  obtain ⟨linked₁, here⟩ := head l inside linked
  have first := extends_lowerItem hint l item
  obtain ⟨linked₂, later⟩ := tail _ (List.Subset.trans inside first.taken) linked₁
  exact ⟨linked₂, (here.mono (extends_lowerSequence hint _ items).taken).append later⟩

theorem links_none : BodyLinks hint given [] :=
  fun _ _ linked => ⟨linked, fun _ none => absurd none List.not_mem_nil⟩

theorem links_alternative (head : SequenceLinks hint given items) (tail : BodyLinks hint given body) :
    BodyLinks hint given (items :: body) := by
  intro l inside linked
  obtain ⟨linked₁, here⟩ := head l inside linked
  have first := extends_lowerSequence hint l items
  obtain ⟨linked₂, later⟩ := tail _ (List.Subset.trans inside first.taken) linked₁
  refine ⟨linked₂, ?_⟩
  intro symbols among
  rcases List.mem_cons.mp among with rfl | rest
  · exact here.mono (extends_lowerBody hint _ body).taken
  · exact later symbols rest

mutual
theorem links_of_spellsElement : ∀ {text : List Char} {item : Item}, SpellsElement text item →
    (∀ name ∈ itemNames item, name ∈ given) → ItemLinks hint given item
  | _, _, .literal _ _, _ => fun _ _ linked => ⟨linked, by simp [Refers, lowerItem]⟩
  | _, _, .reference _ _, known => fun _ inside linked =>
    ⟨linked, Refers.single (inside (known _ (List.mem_singleton_self _)))⟩
  | _, _, .optional inner, known =>
    links_repeated .optional (links_group inner.ne_nil (links_of_spellsBody inner known))
  | _, _, .repetition inner, known =>
    links_repeated .star (links_group inner.ne_nil (links_of_spellsBody inner known))
  | _, _, .group inner, known => links_group inner.ne_nil (links_of_spellsBody inner known)

theorem links_of_spellsItem : ∀ {text : List Char} {item : Item}, SpellsItem text item →
    (∀ name ∈ itemNames item, name ∈ given) → ItemLinks hint given item
  | _, _, .plain element, known => links_of_spellsElement element known
  | _, _, .optional element, known => links_repeated .optional (links_of_spellsElement element known)
  | _, _, .star element, known => links_repeated .star (links_of_spellsElement element known)
  | _, _, .plus element, known => links_repeated .plus (links_of_spellsElement element known)

theorem links_of_spellsSequence : ∀ {text : List Char} {items : List Item},
    SpellsSequence text items → (∀ name ∈ sequenceNames items, name ∈ given) →
      SequenceLinks hint given items
  | _, _, .nil, _ => links_nil
  | _, _, .blank _ tail, known => links_of_spellsSequence tail known
  | _, _, .item head tail, known =>
    links_cons (links_of_spellsItem head fun name used => known name (List.mem_append_left _ used))
      (links_of_spellsSequence tail fun name used => known name (List.mem_append_right _ used))

theorem links_of_spellsBody : ∀ {text : List Char} {body : Body}, SpellsBody text body →
    (∀ name ∈ bodyNames body, name ∈ given) → BodyLinks hint given body
  | _, _, .last head, known =>
    links_alternative
      (links_of_spellsSequence head fun name used => known name (List.mem_append_left _ used))
      links_none
  | _, _, .bar head tail, known =>
    links_alternative
      (links_of_spellsSequence head fun name used => known name (List.mem_append_left _ used))
      (links_of_spellsBody tail fun name used => known name (List.mem_append_right _ used))
end

end Lowering
end GrammarSampler.Ebnf
