import GrammarSampler.Ebnf.Reader

/-!
How extended bodies are written. Blanks may stand between elements, but not between an element and
its sign.
-/
namespace GrammarSampler.Ebnf

inductive Quoted (quote : Char) : List Char → List Char → Prop where
  | nil : Quoted quote [] []
  | escaped {text cs : List Char} (c : Char) (tail : Quoted quote text cs) :
      Quoted quote ('\\' :: c :: text) (unescape c :: cs)
  | plain {text cs : List Char} {c : Char} (unescaped : c ≠ '\\') (open_ : c ≠ quote)
      (tail : Quoted quote text cs) : Quoted quote (c :: text) (c :: cs)

mutual
inductive SpellsElement : List Char → Item → Prop where
  | literal {quote : Char} {text cs : List Char} (either : quote = '"' ∨ quote = '\'')
      (quoted : Quoted quote text cs) :
      SpellsElement (quote :: text ++ [quote]) (.literal (String.ofList cs))
  | reference {text : List Char} (single : '>' ∉ text) (named : strip text ≠ []) :
      SpellsElement ('<' :: text ++ ['>']) (.reference (String.ofList (strip text)))
  | optional {text : List Char} {body : Body} (inner : SpellsBody text body) :
      SpellsElement ('[' :: text ++ [']']) (.repeated (.group body) .optional)
  | repetition {text : List Char} {body : Body} (inner : SpellsBody text body) :
      SpellsElement ('\x7b' :: text ++ ['\x7d']) (.repeated (.group body) .star)
  | group {text : List Char} {body : Body} (inner : SpellsBody text body) :
      SpellsElement ('(' :: text ++ [')']) (.group body)

inductive SpellsItem : List Char → Item → Prop where
  | plain {text : List Char} {item : Item} (element : SpellsElement text item) :
      SpellsItem text item
  | optional {text : List Char} {item : Item} (element : SpellsElement text item) :
      SpellsItem (text ++ ['?']) (.repeated item .optional)
  | star {text : List Char} {item : Item} (element : SpellsElement text item) :
      SpellsItem (text ++ ['*']) (.repeated item .star)
  | plus {text : List Char} {item : Item} (element : SpellsElement text item) :
      SpellsItem (text ++ ['+']) (.repeated item .plus)

inductive SpellsSequence : List Char → List Item → Prop where
  | nil : SpellsSequence [] []
  | blank {c : Char} {rest : List Char} {items : List Item} (blank : isBlank c = true)
      (tail : SpellsSequence rest items) : SpellsSequence (c :: rest) items
  | item {here rest : List Char} {item : Item} {items : List Item} (head : SpellsItem here item)
      (tail : SpellsSequence rest items) : SpellsSequence (here ++ rest) (item :: items)

inductive SpellsBody : List Char → Body → Prop where
  | last {text : List Char} {sequence : List Item} (head : SpellsSequence text sequence) :
      SpellsBody text [sequence]
  | bar {here rest : List Char} {sequence : List Item} {body : Body}
      (head : SpellsSequence here sequence) (tail : SpellsBody rest body) :
      SpellsBody (here ++ '|' :: rest) (sequence :: body)
end

theorem SpellsBody.blank {c : Char} {text : List Char} {body : Body} (blank : isBlank c = true)
    (h : SpellsBody text body) : SpellsBody (c :: text) body := by
  cases h with
  | last head => exact .last (.blank blank head)
  | bar head tail => exact .bar (.blank blank head) tail

theorem SpellsBody.item {here text : List Char} {item : Item} {sequence : List Item}
    {later : Body} (head : SpellsItem here item) (h : SpellsBody text (sequence :: later)) :
    SpellsBody (here ++ text) ((item :: sequence) :: later) := by
  cases h with
  | last tail => exact .last (.item head tail)
  | bar tail next =>
    rw [← List.append_assoc]
    exact .bar (.item head tail) next

theorem SpellsBody.exists_cons {text : List Char} {body : Body} (h : SpellsBody text body) :
    ∃ sequence later, body = sequence :: later := by
  cases h with
  | last head => exact ⟨_, _, rfl⟩
  | bar head tail => exact ⟨_, _, rfl⟩

end GrammarSampler.Ebnf
