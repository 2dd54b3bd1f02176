import GrammarSampler.Proofs.Dictionary.Syntax
import GrammarSampler.Proofs.Ebnf.Fresh

/-!
Where the searches stop in written texts. The first group found is the first that is closed and has
no group inside; the first name found is the first with an operator behind it.
-/
namespace GrammarSampler.Dictionary
open Ebnf (Times)

section Search
variable {opening : Char} {found : List Char → Option Match}

def Match.behind (m : Match) (text : List Char) : Match := { m with before := text ++ m.before }

theorem search_append {text : List Char} (other : ∀ c ∈ text, c ≠ opening) (rest : List Char) :
    search opening found (text ++ rest) =
      (search opening found rest).map fun m => m.behind text := by
  induction text with
  | nil =>
    have same : (fun m : Match => m.behind []) = id := rfl
    rw [List.nil_append, same, Option.map_id, id]
  | cons c text ih =>
    have apart : c ≠ opening := other c List.mem_cons_self
    rw [List.cons_append, search, if_neg apart]
    dsimp only
    rw [ih fun d inside => other d (List.mem_cons_of_mem c inside), Option.map_map]
    rfl

theorem search_eq_none {text : List Char} (other : ∀ c ∈ text, c ≠ opening) :
    search opening found text = none := by
  have all := @search_append opening found text other []
  rwa [List.append_nil] at all

end Search

section Groups
variable {before content post : List Char} {c : Char}

theorem dropWhile_isGroupChar (open_ : ')' ∉ before) (rest : List Char) :
    ∃ tail, (before ++ '(' :: rest).dropWhile isGroupChar = '(' :: tail := by
  induction before with
  | nil => exact ⟨rest, rfl⟩
  | cons d before ih =>
    rw [List.cons_append, List.dropWhile_cons]
    by_cases here : d = '('
    · subst here
      exact ⟨_, rfl⟩
    · have other : d ≠ ')' := fun same => open_ (same ▸ List.mem_cons_self)
      rw [if_pos (by simp [isGroupChar, here, other])]
      exact ih fun inside => open_ (List.mem_cons_of_mem d inside)

theorem groupAt?_eq_none (open_ : ')' ∉ before) (rest : List Char) :
    groupAt? (before ++ '(' :: rest) = none := by
  obtain ⟨tail, dropped⟩ := dropWhile_isGroupChar open_ rest
  unfold groupAt?
  rw [dropped]
  split
  · rfl
  · rename_i same _
    cases same
  · rfl

theorem groupAt?_content (some : content ≠ []) (inner : ∀ d ∈ content, isGroupChar d = true)
    {times : Times} (sign : Times.ofChar? c = .some times) :
    groupAt? (content ++ ')' :: c :: post) = .some ⟨[], content, c, post⟩ := by
  have taken : (content ++ ')' :: c :: post).takeWhile isGroupChar = content := by
    rw [List.takeWhile_append_of_pos inner]
    exact List.append_nil content
  have dropped : (content ++ ')' :: c :: post).dropWhile isGroupChar = ')' :: c :: post := by
    rw [List.dropWhile_append_of_pos inner]
    rfl
  unfold groupAt?
  rw [taken, dropped]
  cases content with
  | nil => exact absurd rfl some
  | cons d rest =>
    change ((Times.ofChar? c).map fun _ => (⟨[], d :: rest, c, post⟩ : Match)) = _
    rw [sign]
    rfl

theorem findGroup?_eq (open_ : ')' ∉ before) (some : content ≠ [])
    (inner : ∀ d ∈ content, isGroupChar d = true) {times : Times}
    (sign : Times.ofChar? c = .some times) :
    findGroup? (before ++ '(' :: (content ++ ')' :: c :: post)) =
      .some ⟨before, content, c, post⟩ := by
  unfold findGroup?
  induction before with
  | nil =>
    rw [List.nil_append, search, if_pos rfl, groupAt?_content some inner sign]
  | cons d before ih =>
    have later : ')' ∉ before := fun inside => open_ (List.mem_cons_of_mem d inside)
    rw [List.cons_append, search, groupAt?_eq_none later, ite_self]
    dsimp only
    rw [ih later]
    rfl

end Groups

section Names
variable {name : String} {rest : List Char}

theorem isNameChar_of_isPlain {c : Char} (plain : isPlain c = true) (solid : c ≠ ' ') :
    isNameChar c = true := by
  simp only [isPlain, Bool.and_eq_true, bne_iff_ne] at plain
  simp [isNameChar, plain, solid]

/-- A name that is read again where it stands in angle brackets. It may hold parentheses. -/
def IsToken (name : String) : Prop := name.toList ≠ [] ∧ ∀ c ∈ name.toList, isNameChar c = true

theorem IsName.isToken (named : IsName name) : IsToken name := by
  refine ⟨named.1, ?_⟩
  intro c inside
  obtain ⟨plain, solid⟩ := named.2 c inside
  exact isNameChar_of_isPlain plain solid

theorem nameAt?_eq (token : IsToken name) :
    nameAt? (name.toList ++ '>' :: rest) = some (name.toList, rest) := by
  have inner := token.2
  have taken : (name.toList ++ '>' :: rest).takeWhile isNameChar = name.toList := by
    rw [List.takeWhile_append_of_pos inner]
    exact List.append_nil name.toList
  have dropped : (name.toList ++ '>' :: rest).dropWhile isNameChar = '>' :: rest := by
    rw [List.dropWhile_append_of_pos inner]
    rfl
  unfold nameAt?
  rw [taken, dropped]
  cases spelling : name.toList with
  | nil => exact absurd spelling token.1
  | cons c later => rfl

def Quiet (text : List Char) : Prop := ∀ c, text.head? = some c → Times.ofChar? c = none

theorem signedNameAt?_quiet (named : IsName name) (quiet : Quiet rest) :
    signedNameAt? (name.toList ++ '>' :: rest) = none := by
  unfold signedNameAt?
  rw [nameAt?_eq named.isToken]
  cases rest with
  | nil => rfl
  | cons c later =>
    dsimp only
    rw [quiet c rfl]
    rfl

theorem signedNameAt?_signed (named : IsName name) (times : Times) :
    signedNameAt? (name.toList ++ '>' :: signChar times :: rest) =
      some ⟨[], name.toList, signChar times, rest⟩ := by
  unfold signedNameAt?
  rw [nameAt?_eq named.isToken]
  dsimp only
  rw [ofChar?_signChar]
  rfl

theorem findSignedName?_literal {c : Char} (other : c ≠ '<') :
    findSignedName? (c :: rest) = (findSignedName? rest).map fun m => m.behind [c] :=
  @search_append '<' signedNameAt? [c] (fun _ inside => List.mem_singleton.mp inside ▸ other) rest

theorem findSignedName?_quiet (named : IsName name) (quiet : Quiet rest) :
    findSignedName? (bracketed name ++ rest) =
      (findSignedName? rest).map fun m => m.behind (bracketed name) := by
  have other : ∀ c ∈ name.toList ++ ['>'], c ≠ '<' := by
    intro c inside
    rcases List.mem_append.mp inside with inner | last
    · have plain := (named.2 c inner).1
      simp only [isPlain, Bool.and_eq_true, bne_iff_ne] at plain
      exact plain.1.2
    · rw [List.mem_singleton.mp last]
      decide
  have later := @search_append '<' signedNameAt? _ other rest
  unfold findSignedName?
  rw [bracketed, List.cons_append, search, if_pos rfl]
  have here := signedNameAt?_quiet named quiet
  rw [List.append_assoc, List.singleton_append] at later ⊢
  rw [here]
  dsimp only
  rw [later, Option.map_map]
  rfl

theorem findSignedName?_signed (named : IsName name) (times : Times) :
    findSignedName? (bracketed name ++ signChar times :: rest) =
      some ⟨[], name.toList, signChar times, rest⟩ := by
  unfold findSignedName?
  rw [bracketed, List.cons_append, search, if_pos rfl, List.append_assoc, List.singleton_append,
    signedNameAt?_signed named]

end Names

section Fresh

theorem isPlain_of_number {k : Nat} {c : Char} (inside : c ∈ '-' :: Nat.toDigits 10 k) :
    isPlain c = true ∧ c ≠ ' ' := by
  rcases List.mem_cons.mp inside with rfl | digit
  · decide
  · have decimal : c.isDigit = true := Nat.isDigit_of_mem_toDigits (by decide) (by decide) digit
    have apart : ∀ d : Char, d.isDigit = false → c ≠ d := by
      rintro d other rfl
      rw [decimal] at other
      cases other
    simp [isPlain, apart '(' rfl, apart ')' rfl, apart '<' rfl, apart '>' rfl, apart ' ' rfl]

theorem isName_candidate {hint : String} (named : IsName hint) (k : Nat) :
    IsName (Fresh.candidate hint k) := by
  cases k with
  | zero => exact named
  | succ k =>
    have spelling := Fresh.toList_candidate_succ hint k
    constructor
    · rw [spelling]
      simp
    · intro c inside
      rw [spelling] at inside
      rcases List.mem_append.mp inside with old | new
      · exact named.2 c old
      · exact isPlain_of_number new

theorem isName_fresh (taken : List String) {hint : String} (named : IsName hint) :
    IsName (Fresh.name taken hint) := by
  obtain ⟨k, -, same⟩ := Fresh.exists_candidate taken hint
  rw [same]
  exact isName_candidate named k

end Fresh
end GrammarSampler.Dictionary
