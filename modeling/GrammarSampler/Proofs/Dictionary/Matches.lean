import GrammarSampler.Proofs.Dictionary.Search

/-!
What a search has found: the text falls into what stands before the match, the brackets with what is
in them, the operator and the rest. A match stays one wherever its text is put.
-/
namespace GrammarSampler.Dictionary
open Ebnf (Times)

structure Match.Cuts (m : Match) (opening closing : Char) (inside : Char → Bool) (text : List Char) :
    Prop where
  text_eq : text = m.before ++ opening :: (m.inner ++ closing :: m.sign :: m.after)
  some : m.inner ≠ []
  inner : ∀ c ∈ m.inner, inside c = true
  sign : (Times.ofChar? m.sign).isSome = true

section Search
variable {opening : Char} {found : List Char → Option Match} {text : List Char} {m : Match}

theorem search_eq_some (there : search opening found text = some m) :
    ∃ before rest m', text = before ++ opening :: rest ∧ found rest = some m' ∧
      m = m'.behind before := by
  induction text generalizing m with
  | nil => cases there
  | cons c rest ih =>
    rw [search] at there
    split at there
    · rename_i m' here
      cases there
      split at here
      · rename_i opens
        exact ⟨[], rest, m, by rw [opens]; rfl, here, rfl⟩
      · cases here
    · obtain ⟨m', later, rfl⟩ := Option.map_eq_some_iff.mp there
      obtain ⟨before, rest', m'', rfl, at_, rfl⟩ := ih later
      exact ⟨c :: before, rest', m'', rfl, at_, rfl⟩

theorem search_isSome_infix (longer : ∀ cs more, (found cs).isSome → (found (cs ++ more)).isSome)
    (there : (search opening found text).isSome) (before after : List Char) :
    (search opening found (before ++ (text ++ after))).isSome := by
  obtain ⟨m, value⟩ := Option.isSome_iff_exists.mp there
  obtain ⟨skipped, rest, m', rfl, at_, -⟩ := search_eq_some value
  have here : (found (rest ++ after)).isSome := longer rest after (by rw [at_]; rfl)
  rw [List.append_assoc, List.cons_append, ← List.append_assoc before]
  generalize before ++ skipped = text
  induction text with
  | nil =>
    rw [List.nil_append, search, if_pos rfl]
    split
    · rfl
    · rename_i none
      rw [none] at here
      cases here
  | cons c text ih =>
    rw [List.cons_append, search]
    split
    · rfl
    · rw [Option.isSome_map]
      exact ih

end Search

theorem eq_takeWhile_append {inside : Char → Bool} {cs rest : List Char}
    (dropped : cs.dropWhile inside = rest) : cs = cs.takeWhile inside ++ rest := by
  rw [← dropped, List.takeWhile_append_dropWhile]

theorem groupAt?_eq_some {cs : List Char} {m : Match} (found : groupAt? cs = some m) :
    m.before = [] ∧ m.Cuts '(' ')' isGroupChar ('(' :: cs) := by
  unfold groupAt? at found
  split at found
  · cases found
  · rename_i c rest dropped nonempty
    obtain ⟨times, sign, rfl⟩ := Option.map_eq_some_iff.mp found
    refine ⟨rfl, ?_, nonempty, fun c here => List.mem_takeWhile_imp here, by rw [sign]; rfl⟩
    exact congrArg ('(' :: ·) (eq_takeWhile_append dropped)
  · cases found

theorem nameAt?_eq_some {cs name rest : List Char} (found : nameAt? cs = some (name, rest)) :
    cs = name ++ '>' :: rest ∧ name ≠ [] ∧ ∀ c ∈ name, isNameChar c = true := by
  unfold nameAt? at found
  split at found
  · cases found
  · rename_i rest' dropped nonempty
    cases found
    exact ⟨eq_takeWhile_append dropped, nonempty, fun c here => List.mem_takeWhile_imp here⟩
  · cases found

theorem signedNameAt?_eq_some {cs : List Char} {m : Match} (found : signedNameAt? cs = some m) :
    m.before = [] ∧ m.Cuts '<' '>' isNameChar ('<' :: cs) := by
  unfold signedNameAt? at found
  split at found
  · rename_i name c rest named
    obtain ⟨times, sign, rfl⟩ := Option.map_eq_some_iff.mp found
    obtain ⟨rfl, nonempty, inner⟩ := nameAt?_eq_some named
    exact ⟨rfl, rfl, nonempty, inner, by rw [sign]; rfl⟩
  · cases found

theorem Match.Cuts.behind {m : Match} {opening closing : Char} {inside : Char → Bool}
    {text : List Char} (cuts : m.Cuts opening closing inside text) (before : List Char) :
    (m.behind before).Cuts opening closing inside (before ++ text) := by
  refine ⟨?_, cuts.some, cuts.inner, cuts.sign⟩
  rw [cuts.text_eq, Match.behind, List.append_assoc]

theorem findGroup?_eq_some {text : List Char} {m : Match} (found : findGroup? text = some m) :
    m.Cuts '(' ')' isGroupChar text := by
  obtain ⟨before, rest, m', rfl, here, rfl⟩ := search_eq_some found
  exact (groupAt?_eq_some here).2.behind before

theorem findSignedName?_eq_some {text : List Char} {m : Match}
    (found : findSignedName? text = some m) : m.Cuts '<' '>' isNameChar text := by
  obtain ⟨before, rest, m', rfl, here, rfl⟩ := search_eq_some found
  exact (signedNameAt?_eq_some here).2.behind before

theorem findGroup?_infix {text : List Char} (there : (findGroup? text).isSome)
    (before after : List Char) : (findGroup? (before ++ (text ++ after))).isSome := by
  refine search_isSome_infix ?_ there before after
  intro cs more here
  obtain ⟨m, found⟩ := Option.isSome_iff_exists.mp here
  obtain ⟨first, cuts⟩ := groupAt?_eq_some found
  obtain ⟨times, sign⟩ := Option.isSome_iff_exists.mp cuts.sign
  have text : cs = m.inner ++ ')' :: m.sign :: m.after := by
    have whole := cuts.text_eq
    rw [first] at whole
    exact List.tail_eq_of_cons_eq whole
  rw [text, List.append_assoc, List.cons_append, List.cons_append,
    groupAt?_content cuts.some cuts.inner sign]
  rfl

end GrammarSampler.Dictionary
