import GrammarSampler.Proofs.Ebnf.Reader

/-!
What a refused body is refused for. Every fault tells what stands at its position and why no body
goes on there, so that a reading never stops for want of fuel: past two calls per character, more
fuel changes no answer.
-/
namespace GrammarSampler
open Ebnf

/-- What stands in a text where a fault says that it cannot be read on. Only the faults of a body
are found within one. -/
def LineFault.Tells (text : List Char) : LineFault → Prop
  | unexpected c position =>
    text[position]? = some c ∧ isBlank c = false ∧ c ≠ '|' ∧ c ∉ openings
  | closerMissing closer => ∃ before opening times here body,
      text = before ++ opening :: here ∧ bracket? opening = some (closer, times) ∧
        SpellsBody here body
  | quoteOpen position => ∃ quote, (quote = '"' ∨ quote = '\'') ∧ text[position]? = some quote ∧
      ∀ here cs rest, Quoted quote here cs → text.drop (position + 1) ≠ here ++ quote :: rest
  | referenceOpen position => text[position]? = some '<' ∧ '>' ∉ text.drop (position + 1)
  | referenceEmpty position => ∃ blanks rest,
      text.drop position = '<' :: blanks ++ '>' :: rest ∧ strip blanks = []
  | continuationFirst | definitionMissing _ | ruleUnnamed => False

namespace Ebnf

section Positions
variable {text before cs : List Char} {c : Char}

theorem positionBefore_eq (parts : text = before ++ c :: cs) :
    positionBefore text.length cs = before.length := by
  rw [parts, positionBefore, List.length_append, List.length_cons]
  omega

theorem getElem?_positionBefore (parts : text = before ++ c :: cs) :
    text[positionBefore text.length cs]? = some c := by
  rw [positionBefore_eq parts, parts]
  simp

theorem drop_positionBefore (parts : text = before ++ c :: cs) :
    text.drop (positionBefore text.length cs) = c :: cs := by
  rw [positionBefore_eq parts, parts]
  simp

theorem drop_positionBefore_succ (parts : text = before ++ c :: cs) :
    text.drop (positionBefore text.length cs + 1) = cs := by
  rw [← List.drop_drop, drop_positionBefore parts]
  rfl

end Positions

theorem length_le_of_readElement {total fuel : Nat} {c : Char} {cs rest : List Char} {item : Item}
    (read : readElement total fuel c cs = .done item rest) : rest.length ≤ cs.length := by
  obtain ⟨here, whole, spells⟩ := spellsElement_of_readElement total fuel c cs item rest read
  have shorter := spells.length_lt rest
  rw [← whole, List.length_cons] at shorter
  omega

section Fuel
variable (total : Nat)

mutual
/-- Each character takes two calls at most, one for the body and one for an element. -/
theorem readBody_fuel : ∀ (fuel fuel' : Nat) (closer : Option Char) (begun : Begun)
    (cs : List Char), 2 * cs.length + 1 ≤ fuel → 2 * cs.length + 1 ≤ fuel' →
      readBody total closer fuel begun cs = readBody total closer fuel' begun cs
  | 0, _, _, _, _, enough, _ => by omega
  | _ + 1, 0, _, _, _, _, enough => by omega
  | fuel + 1, fuel' + 1, none, begun, [], _, _ => by rw [readBody, readBody]
  | fuel + 1, fuel' + 1, some closer, begun, [], _, _ => by rw [readBody, readBody]
  | fuel + 1, fuel' + 1, closer, begun, c :: cs, enough, enough' => by
    rw [List.length_cons] at enough enough'
    have element := readElement_fuel fuel fuel' c cs (by omega) (by omega)
    rw [readBody, readBody, ← element]
    split
    · exact readBody_fuel fuel fuel' closer begun cs (by omega) (by omega)
    · split
      · exact readBody_fuel fuel fuel' closer begun.nextAlternative cs (by omega) (by omega)
      · split
        · rfl
        · split
          · rfl
          · rename_i item rest read
            have shorter := length_le_of_readElement read
            have less := signed_length_le item rest
            exact readBody_fuel fuel fuel' closer (begun.add (signed item rest).1)
              (signed item rest).2 (by omega) (by omega)

theorem readElement_fuel : ∀ (fuel fuel' : Nat) (c : Char) (cs : List Char),
    2 * cs.length + 2 ≤ fuel → 2 * cs.length + 2 ≤ fuel' →
      readElement total fuel c cs = readElement total fuel' c cs
  | 0, _, _, _, enough, _ => by omega
  | _ + 1, 0, _, _, _, enough => by omega
  | fuel + 1, fuel' + 1, c, cs, enough, enough' => by
    rw [readElement, readElement]
    split
    · rfl
    · split
      · rfl
      · split
        · rename_i closer times opens
          rw [readBody_fuel fuel fuel' (some closer) ⟨[], []⟩ cs (by omega) (by omega)]
        · rfl
end

end Fuel

section Faults
variable {text before cs : List Char} {c : Char} {fault : LineFault} {complete : List Item}

theorem tells_quoteOpen (parts : text = before ++ c :: cs) (quote : isQuote c = true)
    (unclosed : quotedText c cs = none) :
    LineFault.Tells text (.quoteOpen (positionBefore text.length cs)) := by
  have either : c = '"' ∨ c = '\'' := by simpa [isQuote] using quote
  have unescaped : c ≠ '\\' := by
    rcases either with rfl | rfl
    · decide
    · decide
  refine ⟨c, either, getElem?_positionBefore parts, ?_⟩
  intro here read rest quoted closed
  rw [drop_positionBefore_succ parts] at closed
  rw [closed, quotedText_of_quoted unescaped quoted] at unclosed
  cases unclosed

theorem tells_readReference (parts : text = before ++ '<' :: cs)
    (failed : readReference text.length cs = .failed fault complete) : fault.Tells text := by
  have whole := @List.takeWhile_append_dropWhile _ (· ≠ '>') cs
  unfold readReference at failed
  split at failed
  · rename_i ending
    cases failed
    refine ⟨getElem?_positionBefore parts, ?_⟩
    rw [drop_positionBefore_succ parts]
    intro inside
    simpa using List.dropWhile_eq_nil_iff.mp ending '>' inside
  · rename_i closing rest ending
    have first := List.head?_dropWhile_not (· ≠ '>') cs
    rw [ending] at whole first
    obtain rfl : closing = '>' := by simpa using first
    split at failed
    · rename_i blank
      cases failed
      refine ⟨cs.takeWhile (· ≠ '>'), rest, ?_, blank⟩
      rw [drop_positionBefore parts, List.cons_append, whole]
    · cases failed

theorem notMem_openings (noQuote : ¬ isQuote c = true) (noAngle : c ≠ '<')
    (noBracket : bracket? c = none) : c ∉ openings := by
  intro opening
  simp only [openings, List.mem_cons, List.not_mem_nil, or_false] at opening
  rcases opening with rfl | rfl | rfl | rfl | rfl | rfl
  · exact noQuote rfl
  · exact noQuote rfl
  · exact noAngle rfl
  · cases noBracket
  · cases noBracket
  · cases noBracket

mutual
/-- A body is refused for what stands in it, or for the closing bracket that it lacks itself: then
all that is left of the text is a body. -/
theorem tells_readBody : ∀ (fuel : Nat) (closer : Option Char) (begun : Begun)
    (before cs : List Char) (fault : LineFault) (complete : List Item),
      text = before ++ cs → 2 * cs.length + 1 ≤ fuel →
        readBody text.length closer fuel begun cs = .failed fault complete →
          fault.Tells text ∨
            ∃ c body, closer = some c ∧ fault = .closerMissing c ∧ SpellsBody cs body
  | 0, _, _, _, _, _, _, _, enough, _ => by omega
  | fuel + 1, closer, begun, before, [], fault, complete, parts, _, failed => by
    cases closer with
    | none =>
      rw [readBody] at failed
      cases failed
    | some c =>
      rw [readBody] at failed
      cases failed
      exact .inr ⟨c, [[]], rfl, rfl, .last .nil⟩
  | fuel + 1, closer, begun, before, c :: cs, fault, complete, parts, enough, failed => by
    rw [List.length_cons] at enough
    rw [readBody] at failed
    have later : ∀ skipped rest begun, c :: cs = skipped ++ rest → rest.length ≤ cs.length →
        readBody text.length closer fuel begun rest = .failed fault complete →
          fault.Tells text ∨
            ∃ c body, closer = some c ∧ fault = .closerMissing c ∧ SpellsBody rest body := by
      intro skipped rest begun same shorter failed
      exact tells_readBody fuel closer begun (before ++ skipped) rest fault complete
        (by rw [parts, same, List.append_assoc]) (by omega) failed
    split at failed
    · rename_i blank
      refine (later [c] cs begun rfl le_rfl failed).imp_right ?_
      rintro ⟨last, body, closes, same, spells⟩
      exact ⟨last, body, closes, same, spells.blank blank⟩
    · rename_i visible
      split at failed
      · rename_i bar
        refine (later [c] cs begun.nextAlternative rfl le_rfl failed).imp_right ?_
        rintro ⟨last, body, closes, same, spells⟩
        rw [bar]
        exact ⟨last, _, closes, same, @SpellsBody.bar [] _ _ _ .nil spells⟩
      · rename_i noBar
        split at failed
        · cases failed
        · split at failed
          · rename_i why inner element
            cases failed
            exact .inl (tells_readElement fuel c before cs fault inner parts (by omega)
              (by simpa using visible) noBar element)
          · rename_i item rest element
            obtain ⟨here, whole, spelled⟩ :=
              spellsElement_of_readElement text.length fuel c cs item rest element
            obtain ⟨signedHere, same, head⟩ := spellsItem_signed spelled rest
            have shorter := length_le_of_readElement element
            have less := signed_length_le item rest
            have parted : c :: cs = signedHere ++ (signed item rest).2 := whole.trans same
            refine (later signedHere (signed item rest).2 _ parted (by omega) failed).imp_right ?_
            rintro ⟨last, body, closes, fits, spells⟩
            obtain ⟨sequence, more, rfl⟩ := spells.exists_cons
            rw [parted]
            exact ⟨last, _, closes, fits, spells.item head⟩

theorem tells_readElement : ∀ (fuel : Nat) (c : Char) (before cs : List Char) (fault : LineFault)
    (complete : List Item), text = before ++ c :: cs → 2 * cs.length + 2 ≤ fuel →
      isBlank c = false → c ≠ '|' →
        readElement text.length fuel c cs = .failed fault complete → fault.Tells text
  | 0, _, _, _, _, _, _, enough, _, _, _ => by omega
  | fuel + 1, c, before, cs, fault, complete, parts, enough, visible, noBar, failed => by
    rw [readElement] at failed
    split at failed
    · rename_i quote
      split at failed
      · cases failed
      · rename_i unclosed
        cases failed
        exact tells_quoteOpen parts quote unclosed
    · rename_i noQuote
      split at failed
      · rename_i opens
        rw [opens] at parts
        exact tells_readReference parts failed
      · rename_i noAngle
        split at failed
        · rename_i closer times opens
          split at failed
          · rename_i why inner refused
            cases failed
            have parted : text = (before ++ [c]) ++ cs := by rw [parts, List.append_cons]
            rcases tells_readBody fuel (some closer) ⟨[], []⟩ (before ++ [c]) cs fault complete
              parted (by omega) refused with tells | ⟨last, body, same, rfl, spells⟩
            · exact tells
            · cases same
              exact ⟨before, c, times, cs, body, parts, opens, spells⟩
          · cases failed
        · rename_i noBracket
          cases failed
          exact ⟨getElem?_positionBefore parts, visible, noBar,
            notMem_openings noQuote noAngle noBracket⟩
end

theorem tells_read (failed : read text = .failed fault complete) : fault.Tells text := by
  rcases tells_readBody _ none ⟨[], []⟩ [] text fault complete rfl (by omega) failed with
    tells | ⟨c, body, none, -⟩
  · exact tells
  · cases none

end Faults

end Ebnf
end GrammarSampler
