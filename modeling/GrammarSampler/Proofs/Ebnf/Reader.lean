import GrammarSampler.Proofs.Ebnf.Syntax
import Mathlib.Data.List.TakeWhile

/-!
The reader accepts the bodies that are written as the syntax says, and reads the item that each
spells. What it has read so far waits in `Begun`, so the statements about it say how a body that
follows is put behind that.
-/
namespace GrammarSampler.Ebnf

section Texts
variable {quote : Char} {text rest : List Char}

theorem quotedText_plain {c : Char} (unescaped : c ≠ '\\') (open_ : c ≠ quote)
    (cs : List Char) : quotedText quote (c :: cs) =
      (quotedText quote cs).map fun (read, rest) => (c :: read, rest) := by
  rw [quotedText.eq_3 _ _ _ (fun _ _ same _ => unescaped same), if_neg open_]

theorem quotedText_close (unescaped : quote ≠ '\\') (cs : List Char) :
    quotedText quote (quote :: cs) = some ([], cs) := by
  rw [quotedText.eq_3 _ _ _ (fun _ _ same _ => unescaped same), if_pos rfl]

theorem quoted_of_quotedText {cs input : List Char}
    (read : quotedText quote input = some (cs, rest)) :
    ∃ text, input = text ++ quote :: rest ∧ Quoted quote text cs := by
  fun_induction quotedText quote input generalizing cs with
  | case1 => cases read
  | case2 c after ih =>
    obtain ⟨⟨later, rest'⟩, found, same⟩ := Option.map_eq_some_iff.mp read
    cases same
    obtain ⟨text, rfl, tail⟩ := ih found
    exact ⟨_, rfl, .escaped c tail⟩
  | case3 after _ =>
    cases read
    exact ⟨[], rfl, .nil⟩
  | case4 c after several other ih =>
    obtain ⟨⟨later, rest'⟩, found, same⟩ := Option.map_eq_some_iff.mp read
    cases same
    obtain ⟨text, rfl, tail⟩ := ih found
    refine ⟨c :: text, rfl, .plain ?_ other tail⟩
    rintro rfl
    cases text with
    | nil => exact several _ _ rfl rfl
    | cons first text => exact several _ _ rfl rfl

theorem quotedText_of_quoted {cs : List Char} (unescaped : quote ≠ '\\')
    (quoted : Quoted quote text cs) :
    quotedText quote (text ++ quote :: rest) = some (cs, rest) := by
  induction quoted with
  | nil => exact quotedText_close unescaped rest
  | escaped c tail ih =>
    rw [List.cons_append, List.cons_append, quotedText, ih]
    rfl
  | plain other open_ tail ih =>
    rw [List.cons_append, quotedText_plain other open_, ih]
    rfl

theorem reference_of_readReference {total : Nat} {input : List Char} {item : Item}
    (read : readReference total input = .done item rest) :
    ∃ text, input = text ++ '>' :: rest ∧ '>' ∉ text ∧ strip text ≠ [] ∧
      item = .reference (String.ofList (strip text)) := by
  have whole := @List.takeWhile_append_dropWhile _ (· ≠ '>') input
  have single : '>' ∉ input.takeWhile (· ≠ '>') := by
    intro inside
    simpa using List.mem_takeWhile_imp inside
  unfold readReference at read
  split at read
  · cases read
  · rename_i c after ending
    have closing := List.head?_dropWhile_not (· ≠ '>') input
    rw [ending] at whole closing
    obtain rfl : c = '>' := by simpa using closing
    split at read
    · cases read
    · rename_i name named
      cases read
      exact ⟨_, whole.symm, single, named, rfl⟩

theorem readReference_append {total : Nat} (single : '>' ∉ text) (named : strip text ≠ []) :
    readReference total (text ++ '>' :: rest) =
      .done (.reference (String.ofList (strip text))) rest := by
  have passes : ∀ c ∈ text, decide (c ≠ '>') = true := by
    intro c inside
    refine decide_eq_true ?_
    rintro rfl
    exact single inside
  have name : (text ++ '>' :: rest).takeWhile (· ≠ '>') = text := by
    rw [List.takeWhile_append_of_pos passes]
    simp
  have ending : (text ++ '>' :: rest).dropWhile (· ≠ '>') = '>' :: rest := by
    rw [List.dropWhile_append_of_pos passes]
    simp
  unfold readReference
  rw [name, ending]
  split
  · rename_i same
    cases same
  · rename_i same
    cases same
    split
    · rename_i unnamed
      exact absurd unnamed named
    · rfl

end Texts

/-- What was read so far, and a body behind it of which the first sequence goes on where that
stopped. -/
def Begun.close (b : Begun) (sequence : List Item) (later : Body) : Body :=
  b.prior.reverse ++ (b.current.reverse ++ sequence) :: later

section Begun
variable (b : Begun) (sequence : List Item) (later : Body)

theorem Begun.close_nil : b.close [] [] = b.body := by simp [close, body, nextAlternative]

theorem Begun.close_nextAlternative :
    b.nextAlternative.close sequence later = b.close [] (sequence :: later) := by
  simp [close, nextAlternative]

theorem Begun.close_add (item : Item) :
    (b.add item).close sequence later = b.close (item :: sequence) later := by simp [close, add]

theorem Begun.close_start : Begun.close ⟨[], []⟩ sequence later = sequence :: later := rfl

end Begun

theorem Times.ofChar?_eq_some {c : Char} {times : Times} (sign : Times.ofChar? c = some times) :
    c = '?' ∧ times = optional ∨ c = '*' ∧ times = star ∨ c = '+' ∧ times = plus := by
  unfold ofChar? at sign
  split at sign
  · exact .inl ⟨rfl, (Option.some.inj sign).symm⟩
  · exact .inr (.inl ⟨rfl, (Option.some.inj sign).symm⟩)
  · exact .inr (.inr ⟨rfl, (Option.some.inj sign).symm⟩)
  · cases sign

theorem signed_some (item : Item) {c : Char} {times : Times} (rest : List Char)
    (sign : Times.ofChar? c = some times) :
    signed item (c :: rest) = (.repeated item times, rest) := by simp [signed, sign]

theorem signed_none (item : Item) {c : Char} (rest : List Char)
    (unsigned : Times.ofChar? c = none) : signed item (c :: rest) = (item, c :: rest) := by
  simp [signed, unsigned]

theorem signed_length_le (item : Item) (rest : List Char) :
    (signed item rest).2.length ≤ rest.length := by
  cases rest with
  | nil => exact le_rfl
  | cons c after =>
    cases sign : Times.ofChar? c with
    | none => rw [signed_none item after sign]
    | some times =>
      rw [signed_some item after sign]
      exact Nat.le_succ _

theorem spellsItem_signed {text : List Char} {item : Item} (element : SpellsElement text item)
    (rest : List Char) : ∃ here, text ++ rest = here ++ (signed item rest).2 ∧
      SpellsItem here (signed item rest).1 := by
  cases rest with
  | nil => exact ⟨text, rfl, .plain element⟩
  | cons c after =>
    cases sign : Times.ofChar? c with
    | none =>
      rw [signed_none item after sign]
      exact ⟨text, rfl, .plain element⟩
    | some times =>
      rw [signed_some item after sign]
      rcases Times.ofChar?_eq_some sign with ⟨rfl, rfl⟩ | ⟨rfl, rfl⟩ | ⟨rfl, rfl⟩
      · exact ⟨text ++ ['?'], by simp, .optional element⟩
      · exact ⟨text ++ ['*'], by simp, .star element⟩
      · exact ⟨text ++ ['+'], by simp, .plus element⟩

theorem bracket?_eq_some {c closer : Char} {times : Option Times}
    (opens : bracket? c = some (closer, times)) :
    c = '[' ∧ closer = ']' ∧ times = some .optional ∨
      c = '\x7b' ∧ closer = '\x7d' ∧ times = some .star ∨
        c = '(' ∧ closer = ')' ∧ times = none := by
  unfold bracket? at opens
  split at opens
  · cases opens
    exact .inl ⟨rfl, rfl, rfl⟩
  · cases opens
    exact .inr (.inl ⟨rfl, rfl, rfl⟩)
  · cases opens
    exact .inr (.inr ⟨rfl, rfl, rfl⟩)
  · cases opens

theorem spellsElement_enclosed {c closer : Char} {times : Option Times}
    (opens : bracket? c = some (closer, times)) {text : List Char} {body : Body}
    (inner : SpellsBody text body) : SpellsElement (c :: text ++ [closer]) (enclosed body times) := by
  rcases bracket?_eq_some opens with ⟨rfl, rfl, rfl⟩ | ⟨rfl, rfl, rfl⟩ | ⟨rfl, rfl, rfl⟩
  · exact .optional inner
  · exact .repetition inner
  · exact .group inner

section Soundness
variable (total : Nat)

mutual
theorem spellsBody_of_readBody : ∀ (fuel : Nat) (closer : Option Char) (begun : Begun)
    (input : List Char) (body : Body) (rest : List Char),
      readBody total closer fuel begun input = .done body rest →
        ∃ text sequence later, input = text ++ (closer.toList ++ rest) ∧
          (closer = none → rest = []) ∧ SpellsBody text (sequence :: later) ∧
            body = begun.close sequence later
  | 0, closer, begun, input, body, rest, read => by
    rw [readBody] at read
    cases read
  | fuel + 1, closer, begun, [], body, rest, read => by
    cases closer with
    | some c =>
      rw [readBody] at read
      cases read
    | none =>
      rw [readBody] at read
      cases read
      exact ⟨[], [], [], rfl, fun _ => rfl, .last .nil, begun.close_nil.symm⟩
  | fuel + 1, closer, begun, c :: input, body, rest, read => by
    rw [readBody] at read
    split at read
    · rename_i blank
      obtain ⟨text, sequence, later, rfl, ending, spells, same⟩ :=
        spellsBody_of_readBody fuel closer begun input body rest read
      exact ⟨c :: text, sequence, later, rfl, ending, spells.blank blank, same⟩
    · split at read
      · rename_i bar
        obtain ⟨text, sequence, later, rfl, ending, spells, same⟩ :=
          spellsBody_of_readBody fuel closer begun.nextAlternative input body rest read
        rw [Begun.close_nextAlternative] at same
        rw [bar]
        exact ⟨'|' :: text, [], _, rfl, ending, @SpellsBody.bar [] _ _ _ .nil spells, same⟩
      · split at read
        · rename_i closes
          cases read
          rw [closes]
          exact ⟨[], [], [], rfl, nofun, .last .nil, begun.close_nil.symm⟩
        · split at read
          · cases read
          · rename_i item after element
            obtain ⟨here, whole, spelled⟩ := spellsElement_of_readElement fuel c input item after element
            obtain ⟨signedHere, same, head⟩ := spellsItem_signed spelled after
            obtain ⟨text, sequence, later, parts, ending, spells, closes⟩ :=
              spellsBody_of_readBody fuel closer (begun.add (signed item after).1)
                (signed item after).2 body rest read
            rw [Begun.close_add] at closes
            refine ⟨signedHere ++ text, _, later, ?_, ending, spells.item head, closes⟩
            rw [whole, same, parts, List.append_assoc]

theorem spellsElement_of_readElement : ∀ (fuel : Nat) (c : Char) (input : List Char) (item : Item)
    (rest : List Char), readElement total fuel c input = .done item rest →
      ∃ text, c :: input = text ++ rest ∧ SpellsElement text item
  | 0, c, input, item, rest, read => by
    rw [readElement] at read
    cases read
  | fuel + 1, c, input, item, rest, read => by
    rw [readElement] at read
    split at read
    · rename_i quote
      split at read
      · rename_i cs after found
        cases read
        obtain ⟨text, rfl, quoted⟩ := quoted_of_quotedText found
        refine ⟨c :: text ++ [c], by simp, .literal ?_ quoted⟩
        simpa [isQuote] using quote
      · cases read
    · split at read
      · rename_i opens
        obtain ⟨text, rfl, single, named, rfl⟩ := reference_of_readReference read
        rw [opens]
        exact ⟨'<' :: text ++ ['>'], by simp, .reference single named⟩
      · split at read
        · rename_i closer times opens
          split at read
          · cases read
          · rename_i body after inner
            cases read
            obtain ⟨text, sequence, later, rfl, -, spells, rfl⟩ :=
              spellsBody_of_readBody fuel (some closer) ⟨[], []⟩ input body rest inner
            exact ⟨c :: text ++ [closer], by simp, spellsElement_enclosed opens spells⟩
        · cases read
end

end Soundness

def openings : List Char := ['"', '\'', '<', '[', '\x7b', '(']

def closers : List Char := [']', '\x7d', ')']

theorem opening_apart {c : Char} (opening : c ∈ openings) :
    isBlank c = false ∧ c ≠ '|' ∧ Times.ofChar? c = none ∧ c ∉ closers := by
  simp only [openings, List.mem_cons, List.not_mem_nil, or_false] at opening
  rcases opening with rfl | rfl | rfl | rfl | rfl | rfl <;> decide

theorem closer_apart {c : Char} (closes : c ∈ closers) :
    isBlank c = false ∧ c ≠ '|' ∧ Times.ofChar? c = none := by
  simp only [closers, List.mem_cons, List.not_mem_nil, or_false] at closes
  rcases closes with rfl | rfl | rfl <;> decide

def Unsigned (input : List Char) : Prop := ∀ c ∈ input.head?, Times.ofChar? c = none

theorem unsigned_of_blank {c : Char} (blank : isBlank c = true) : Times.ofChar? c = none := by
  cases sign : Times.ofChar? c with
  | none => rfl
  | some times =>
    rcases Times.ofChar?_eq_some sign with ⟨rfl, -⟩ | ⟨rfl, -⟩ | ⟨rfl, -⟩
    · exact absurd blank (by decide)
    · exact absurd blank (by decide)
    · exact absurd blank (by decide)

theorem Unsigned.signed {rest : List Char} (unsigned : Unsigned rest) (item : Item) :
    signed item rest = (item, rest) := by
  cases rest with
  | nil => rfl
  | cons c after => exact signed_none item after (unsigned c rfl)

section Completeness
variable {total : Nat} {closer : Option Char}

def Reads (total : Nat) (closer : Option Char) (begun : Begun) (input : List Char) (body : Body)
    (rest : List Char) : Prop :=
  ∀ fuel, 2 * input.length + 1 ≤ fuel → readBody total closer fuel begun input = .done body rest

def ReadsElement (total : Nat) (input : List Char) (item : Item) (rest : List Char) : Prop :=
  ∃ c cs, input = c :: cs ∧ c ∈ openings ∧
    ∀ fuel, 2 * cs.length + 2 ≤ fuel → readElement total fuel c cs = .done item rest

section Steps
variable {begun : Begun} {input rest : List Char} {body : Body}

theorem Reads.blank {c : Char} (blank : isBlank c = true)
    (h : Reads total closer begun input body rest) :
    Reads total closer begun (c :: input) body rest := by
  intro fuel enough
  rw [List.length_cons] at enough
  obtain ⟨fuel, rfl⟩ : ∃ f, fuel = f + 1 := ⟨fuel - 1, by omega⟩
  rw [readBody, if_pos blank]
  exact h fuel (by omega)

theorem Reads.bar (h : Reads total closer begun.nextAlternative input body rest) :
    Reads total closer begun ('|' :: input) body rest := by
  intro fuel enough
  rw [List.length_cons] at enough
  obtain ⟨fuel, rfl⟩ : ∃ f, fuel = f + 1 := ⟨fuel - 1, by omega⟩
  rw [readBody, if_neg (by decide), if_pos rfl]
  exact h fuel (by omega)

theorem Reads.element {item : Item} {after : List Char} (same : ∀ c ∈ closer, c ∈ closers)
    (head : ReadsElement total input item after) (shorter : after.length < input.length)
    (h : Reads total closer (begun.add (signed item after).1) (signed item after).2 body rest) :
    Reads total closer begun input body rest := by
  obtain ⟨c, cs, rfl, opening, read⟩ := head
  obtain ⟨visible, noBar, -, noCloser⟩ := opening_apart opening
  have others : closer ≠ some c := fun closes => noCloser (same c closes)
  -- The first character brings two units of fuel: one for this call, one for the element.
  have less := signed_length_le item after
  intro fuel enough
  rw [List.length_cons] at enough shorter
  obtain ⟨fuel, rfl⟩ : ∃ f, fuel = f + 1 := ⟨fuel - 1, by omega⟩
  rw [readBody, if_neg (by simp [visible]), if_neg noBar, if_neg others, read fuel (by omega)]
  exact h fuel (by omega)

theorem Reads.close (same : ∀ c ∈ closer, c ∈ closers) (ending : closer = none → rest = []) :
    Reads total closer begun (closer.toList ++ rest) begun.body rest := by
  intro fuel enough
  obtain ⟨fuel, rfl⟩ : ∃ f, fuel = f + 1 := ⟨fuel - 1, by omega⟩
  cases closer with
  | none =>
    rw [ending rfl]
    simp [readBody]
  | some c =>
    obtain ⟨visible, noBar, -⟩ := closer_apart (same c rfl)
    change readBody total (some c) (fuel + 1) begun (c :: rest) = _
    rw [readBody, if_neg (by simp [visible]), if_neg noBar, if_pos rfl]

theorem readsElement_of_bracket {c final : Char} {times : Option Times} {text : List Char}
    (opens : bracket? c = some (final, times)) (opening : c ∈ openings) (spells : SpellsBody text body)
    (inner : ∀ sequence later, body = sequence :: later → Reads total (some final) ⟨[], []⟩
      (text ++ final :: rest) (sequence :: later) rest) :
    ReadsElement total (c :: text ++ [final] ++ rest) (enclosed body times) rest := by
  refine ⟨c, text ++ final :: rest, by simp, opening, ?_⟩
  have others : ∀ c, (bracket? c).isSome → isQuote c = false ∧ c ≠ '<' := by
    intro c bracket
    obtain ⟨⟨_, _⟩, same⟩ := Option.isSome_iff_exists.mp bracket
    rcases bracket?_eq_some same with ⟨rfl, -⟩ | ⟨rfl, -⟩ | ⟨rfl, -⟩
    · decide
    · decide
    · decide
  obtain ⟨noQuote, noAngle⟩ := others c (by rw [opens]; rfl)
  intro fuel enough
  obtain ⟨fuel, rfl⟩ : ∃ f, fuel = f + 1 := ⟨fuel - 1, by omega⟩
  rw [readElement, if_neg (by simp [noQuote]), if_neg noAngle, opens]
  obtain ⟨sequence, later, rfl⟩ := spells.exists_cons
  simp only
  rw [inner sequence later rfl fuel (by omega)]

end Steps

end Completeness

theorem SpellsElement.exists_cons {text : List Char} {item : Item} (h : SpellsElement text item) :
    ∃ c cs, text = c :: cs ∧ c ∈ openings := by
  cases h with
  | literal either quoted =>
    rcases either with rfl | rfl
    · exact ⟨_, _, rfl, by decide⟩
    · exact ⟨_, _, rfl, by decide⟩
  | reference single named => exact ⟨_, _, rfl, by decide⟩
  | optional inner => exact ⟨_, _, rfl, by decide⟩
  | repetition inner => exact ⟨_, _, rfl, by decide⟩
  | group inner => exact ⟨_, _, rfl, by decide⟩

theorem SpellsElement.length_lt {text : List Char} {item : Item} (h : SpellsElement text item)
    (tail : List Char) : tail.length < (text ++ tail).length := by
  obtain ⟨c, cs, rfl, -⟩ := h.exists_cons
  simp only [List.cons_append, List.length_cons, List.length_append]
  omega

theorem SpellsItem.exists_cons {text : List Char} {item : Item} (h : SpellsItem text item) :
    ∃ c cs, text = c :: cs ∧ c ∈ openings := by
  cases h with
  | plain element => exact element.exists_cons
  | optional element =>
    obtain ⟨c, cs, rfl, opening⟩ := element.exists_cons
    exact ⟨c, _, rfl, opening⟩
  | star element =>
    obtain ⟨c, cs, rfl, opening⟩ := element.exists_cons
    exact ⟨c, _, rfl, opening⟩
  | plus element =>
    obtain ⟨c, cs, rfl, opening⟩ := element.exists_cons
    exact ⟨c, _, rfl, opening⟩

theorem SpellsSequence.unsigned {text tail : List Char} {items : List Item}
    (h : SpellsSequence text items) (unsigned : Unsigned tail) : Unsigned (text ++ tail) := by
  cases h with
  | nil => exact unsigned
  | blank blank rest =>
    intro c first
    cases first
    exact unsigned_of_blank blank
  | item head rest =>
    obtain ⟨c, cs, rfl, opening⟩ := head.exists_cons
    intro first same
    cases same
    exact (opening_apart opening).2.2.1

theorem unsigned_bar (rest : List Char) : Unsigned ('|' :: rest) := by
  intro first found
  cases found
  decide

theorem unsigned_of_closer {closer : Option Char} {rest : List Char}
    (same : ∀ c ∈ closer, c ∈ closers) (ending : closer = none → rest = []) :
    Unsigned (closer.toList ++ rest) := by
  cases closer with
  | none =>
    rw [ending rfl]
    nofun
  | some c =>
    intro first found
    cases found
    exact (closer_apart (same c rfl)).2.2

theorem closer_some {c : Char} (closes : c ∈ closers) : ∀ d ∈ some c, d ∈ closers := by
  rintro d ⟨⟩
  exact closes

theorem Begun.body_append (b : Begun) (items : List Item) :
    (⟨b.prior, items.reverse ++ b.current⟩ : Begun).body = b.close items [] := by
  simp [close, body, nextAlternative]

theorem Begun.close_append (b : Begun) (items sequence : List Item) (later : Body) :
    (⟨b.prior, items.reverse ++ b.current⟩ : Begun).nextAlternative.close sequence later =
      b.close items (sequence :: later) := by
  simp [close, nextAlternative]

section Derivations
variable {total : Nat}

-- A derivation is read from behind: what follows it is read already, and each step puts one
-- character or one element before that.
mutual
theorem readsElement_of_spells : ∀ {text : List Char} {item : Item}, SpellsElement text item →
    ∀ tail, ReadsElement total (text ++ tail) item tail
  | _, _, @SpellsElement.literal quote text _ either quoted, tail => by
    have unescaped : quote ≠ '\\' := by
      rcases either with rfl | rfl
      · decide
      · decide
    refine ⟨quote, text ++ quote :: tail, by simp, ?_, ?_⟩
    · rcases either with rfl | rfl
      · decide
      · decide
    · intro fuel enough
      obtain ⟨fuel, rfl⟩ : ∃ f, fuel = f + 1 := ⟨fuel - 1, by omega⟩
      rw [readElement, if_pos (by simpa [isQuote] using either), quotedText_of_quoted unescaped quoted]
  | _, _, @SpellsElement.reference text single named, tail => by
    refine ⟨'<', text ++ '>' :: tail, by simp, by decide, ?_⟩
    intro fuel enough
    obtain ⟨fuel, rfl⟩ : ∃ f, fuel = f + 1 := ⟨fuel - 1, by omega⟩
    rw [readElement, if_neg (by decide), if_pos rfl, readReference_append single named]
  | _, _, .optional inner, tail =>
    have opens : bracket? '[' = some (']', some .optional) := rfl
    readsElement_of_bracket opens (by decide) inner
      fun _ _ => reads_of_spellsBody inner (closer_some (by decide)) nofun
  | _, _, .repetition inner, tail =>
    have opens : bracket? '\x7b' = some ('\x7d', some .star) := rfl
    readsElement_of_bracket opens (by decide) inner
      fun _ _ => reads_of_spellsBody inner (closer_some (by decide)) nofun
  | _, _, .group inner, tail =>
    have opens : bracket? '(' = some (')', none) := rfl
    readsElement_of_bracket opens (by decide) inner
      fun _ _ => reads_of_spellsBody inner (closer_some (by decide)) nofun

theorem reads_of_spellsItem : ∀ {here : List Char} {item : Item}, SpellsItem here item →
    ∀ {closer : Option Char} {begun : Begun} {tail : List Char} {body : Body} {rest : List Char},
      (∀ c ∈ closer, c ∈ closers) → Unsigned tail →
        Reads total closer (begun.add item) tail body rest →
          Reads total closer begun (here ++ tail) body rest
  | _, _, .plain element, _, _, tail, _, _, same, unsigned, h => by
    refine Reads.element same (readsElement_of_spells element tail) (element.length_lt tail) ?_
    rw [unsigned.signed]
    exact h
  | _, _, .optional element, _, _, tail, _, _, same, unsigned, h => by
    rw [List.append_assoc]
    exact Reads.element same (readsElement_of_spells element ('?' :: tail)) (element.length_lt _) h
  | _, _, .star element, _, _, tail, _, _, same, unsigned, h => by
    rw [List.append_assoc]
    exact Reads.element same (readsElement_of_spells element ('*' :: tail)) (element.length_lt _) h
  | _, _, .plus element, _, _, tail, _, _, same, unsigned, h => by
    rw [List.append_assoc]
    exact Reads.element same (readsElement_of_spells element ('+' :: tail)) (element.length_lt _) h

theorem reads_of_spellsSequence : ∀ {text : List Char} {items : List Item},
    SpellsSequence text items →
    ∀ {closer : Option Char} {begun : Begun} {tail : List Char} {body : Body} {rest : List Char},
      (∀ c ∈ closer, c ∈ closers) → Unsigned tail →
        Reads total closer ⟨begun.prior, items.reverse ++ begun.current⟩ tail body rest →
          Reads total closer begun (text ++ tail) body rest
  | _, _, .nil, _, _, _, _, _, same, unsigned, h => h
  | _, _, .blank blank tail, _, _, _, _, _, same, unsigned, h =>
    Reads.blank blank (reads_of_spellsSequence tail same unsigned h)
  | _, _, .item head tail, _, begun, _, _, _, same, unsigned, h => by
    rw [List.append_assoc]
    refine reads_of_spellsItem head same (tail.unsigned unsigned)
      (reads_of_spellsSequence tail same unsigned ?_)
    simpa [Begun.add] using h

theorem reads_of_spellsBody : ∀ {text : List Char} {body : Body}, SpellsBody text body →
    ∀ {closer : Option Char} {begun : Begun} {sequence : List Item} {later : Body}
      {rest : List Char}, (∀ c ∈ closer, c ∈ closers) → (closer = none → rest = []) →
        body = sequence :: later →
          Reads total closer begun (text ++ (closer.toList ++ rest)) (begun.close sequence later) rest
  | _, _, .last head, _, begun, _, _, _, same, ending, rfl => by
    refine reads_of_spellsSequence head same (unsigned_of_closer same ending) ?_
    rw [← Begun.body_append]
    exact Reads.close same ending
  | _, _, .bar head tail, _, begun, _, _, _, same, ending, rfl => by
    obtain ⟨sequence, later, rfl⟩ := tail.exists_cons
    rw [List.append_assoc]
    refine reads_of_spellsSequence head same (unsigned_bar _) (Reads.bar ?_)
    rw [← Begun.close_append]
    exact reads_of_spellsBody tail same ending rfl
end

end Derivations

/-- A text is read as a body, and wholly, just when it is written as the syntax says. -/
theorem read_eq_done_iff {text rest : List Char} {body : Body} :
    read text = .done body rest ↔ rest = [] ∧ SpellsBody text body := by
  constructor
  · intro found
    obtain ⟨here, sequence, later, whole, ending, spells, same⟩ :=
      spellsBody_of_readBody text.length _ none ⟨[], []⟩ text body rest found
    rw [ending rfl] at whole
    rw [Begun.close_start] at same
    refine ⟨ending rfl, ?_⟩
    rw [whole, same]
    simpa using spells
  · rintro ⟨rfl, spells⟩
    obtain ⟨sequence, later, rfl⟩ := spells.exists_cons
    have reads := @reads_of_spellsBody text.length _ _ spells none ⟨[], []⟩ sequence later []
      nofun (fun _ => rfl) rfl
    simp only [Option.toList_none, List.append_nil] at reads
    exact reads _ (by omega)

theorem SpellsBody.unique {text : List Char} {body other : Body} (h : SpellsBody text body)
    (h' : SpellsBody text other) : body = other := by
  have first := read_eq_done_iff.mpr ⟨rfl, h⟩
  have second := read_eq_done_iff.mpr ⟨rfl, h'⟩
  cases first.symm.trans second
  rfl

end GrammarSampler.Ebnf
