import GrammarSampler.Proofs.Ebnf.Lowering

/-!
Which symbols stand for an item. A construct that needs a rule is a name that no one has given, and
its rule is the one of that construct and no other. So it is told by the rules alone what a body was
lowered to, whatever was lowered before and after it.
-/
namespace GrammarSampler.Ebnf

section Standing
variable (rules : Rules) (given : List String)

mutual
inductive ItemStands : Item → List Symbol → Prop where
  | literal (text : String) : ItemStands (.literal text) [.terminal text]
  | reference (name : String) : ItemStands (.reference name) [.nonterminal name]
  | inline {sequence : List Item} {symbols : List Symbol} (only : SequenceStands sequence symbols) :
      ItemStands (.group [sequence]) symbols
  | group {alternatives : Body} {lowered : List (List Symbol)} {name : String}
      (several : alternatives.length ≠ 1) (each : BodyStands alternatives lowered)
      (new : name ∉ given) (rule : rules.get? name = some (lowered.map .unweighted)) :
      ItemStands (.group alternatives) [.nonterminal name]
  | repeated {item : Item} {times : Times} {content : List Symbol} {name : String}
      (inner : ItemStands item content) (new : name ∉ given)
      (rule : rules.get? name = some (times.expansions name content)) :
      ItemStands (.repeated item times) [.nonterminal name]

inductive SequenceStands : List Item → List Symbol → Prop where
  | nil : SequenceStands [] []
  | cons {item : Item} {items : List Item} {here later : List Symbol} (head : ItemStands item here)
      (tail : SequenceStands items later) : SequenceStands (item :: items) (here ++ later)

/-- One sequence of symbols for each alternative, in their order. -/
inductive BodyStands : Body → List (List Symbol) → Prop where
  | nil : BodyStands [] []
  | cons {sequence : List Item} {body : Body} {symbols : List Symbol} {lowered : List (List Symbol)}
      (head : SequenceStands sequence symbols) (tail : BodyStands body lowered) :
      BodyStands (sequence :: body) (symbols :: lowered)
end

variable {rules given}

theorem BodyStands.length_eq {body : Body} {lowered : List (List Symbol)}
    (stands : BodyStands rules given body lowered) : lowered.length = body.length := by
  induction body generalizing lowered with
  | nil =>
    cases stands
    rfl
  | cons sequence body ih =>
    cases stands with
    | cons head tail => exact congrArg (· + 1) (ih tail)

theorem BodyStands.append {body later : Body} {lowered more : List (List Symbol)}
    (first : BodyStands rules given body lowered) (second : BodyStands rules given later more) :
    BodyStands rules given (body ++ later) (lowered ++ more) := by
  induction body generalizing lowered with
  | nil =>
    cases first
    exact second
  | cons sequence body ih =>
    cases first with
    | cons head tail => exact .cons head (ih tail)

theorem itemStands_inline {l : Lowering} {hint : String} {alternatives : Body}
    {lowered : List (List Symbol)} (inside : given ⊆ l.taken)
    (agrees : Agrees given (l.inline hint lowered).2 rules)
    (each : BodyStands rules given alternatives lowered) :
    ItemStands rules given (.group alternatives) (l.inline hint lowered).1 := by
  by_cases single : alternatives.length = 1
  · obtain ⟨sequence, rfl⟩ := List.length_eq_one_iff.mp single
    cases each with
    | cons head tail =>
      cases tail
      exact .inline head
  · have several : lowered.length ≠ 1 := each.length_eq ▸ single
    rcases inline_eq l hint lowered with ⟨only, rfl, -⟩ | same
    · exact absurd rfl several
    · rw [same] at agrees ⊢
      obtain ⟨new, rule⟩ := @define_rule rules given l hint (fun _ => lowered.map .unweighted)
        inside agrees
      exact .group single each new rule

mutual
theorem stands_lowerItem (hint : String) : ∀ (l : Lowering) (item : Item), given ⊆ l.taken →
    Agrees given (lowerItem hint l item).2 rules →
      ItemStands rules given item (lowerItem hint l item).1
  | l, .literal text, _, _ => .literal text
  | l, .reference name, _, _ => .reference name
  | l, .group alternatives, inside, agrees => by
    have inner := extends_lowerBody hint l alternatives
    have each := stands_lowerBody hint l alternatives inside
      (agrees.of_extends (extends_inline _ hint _))
    exact itemStands_inline (List.Subset.trans inside inner.taken) agrees each
  | l, .repeated item times, inside, agrees => by
    have before := extends_lowerItem hint l item
    have content := stands_lowerItem hint l item inside (agrees.of_extends
      (extends_define _ hint fun name => times.expansions name (lowerItem hint l item).1))
    obtain ⟨new, rule⟩ := @define_rule rules given _ hint
      (fun name => times.expansions name (lowerItem hint l item).1)
      (List.Subset.trans inside before.taken) agrees
    exact .repeated content new rule

theorem stands_lowerSequence (hint : String) : ∀ (l : Lowering) (items : List Item),
    given ⊆ l.taken → Agrees given (lowerSequence hint l items).2 rules →
      SequenceStands rules given items (lowerSequence hint l items).1
  | l, [], _, _ => .nil
  | l, item :: rest, inside, agrees => by
    have first := extends_lowerItem hint l item
    exact .cons
      (stands_lowerItem hint l item inside (agrees.of_extends (extends_lowerSequence hint _ rest)))
      (stands_lowerSequence hint _ rest (List.Subset.trans inside first.taken) agrees)

theorem stands_lowerBody (hint : String) : ∀ (l : Lowering) (body : List (List Item)),
    given ⊆ l.taken → Agrees given (lowerBody hint l body).2 rules →
      BodyStands rules given body (lowerBody hint l body).1
  | l, [], _, _ => .nil
  | l, sequence :: rest, inside, agrees => by
    have first := extends_lowerSequence hint l sequence
    exact .cons
      (stands_lowerSequence hint l sequence inside (agrees.of_extends (extends_lowerBody hint _ rest)))
      (stands_lowerBody hint _ rest (List.Subset.trans inside first.taken) agrees)
end

end Standing
end GrammarSampler.Ebnf
