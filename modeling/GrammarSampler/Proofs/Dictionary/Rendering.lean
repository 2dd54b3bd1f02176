import GrammarSampler.Proofs.Dictionary.Solid
import Mathlib.Data.List.Chain

/-!
Symbols and the texts that they are written as. Reading a text and writing its symbols gives the text
back. The symbols that are read are canonical: names can be read, and the literal text between two of
them is one piece, which holds no name. Writing canonical symbols and reading them gives them back.
-/
namespace GrammarSampler.Dictionary

section Writing

theorem render_append (left right : List Symbol) :
    render (left ++ right) = render left ++ render right := List.flatMap_append

theorem render_flush (read : List Char) : render (flush read) = read.reverse := by
  cases read with
  | nil => rfl
  | cons c read =>
    change (String.ofList (c :: read).reverse).toList ++ [] = _
    rw [String.toList_ofList, List.append_nil]

theorem render_nonterminal (name : String) (rest : List Symbol) :
    render (.nonterminal name :: rest) = bracketed name ++ render rest := List.flatMap_cons

theorem render_terminal (text : String) (rest : List Symbol) :
    render (.terminal text :: rest) = text.toList ++ render rest := List.flatMap_cons

theorem render_tokensFrom (fuel : Nat) (read text : List Char) :
    render (tokensFrom fuel read text) = read.reverse ++ text := by
  fun_induction tokensFrom fuel read text with
  | case1 => rw [render_flush, List.append_nil]
  | case2 => simp [render_flush]
  | case3 fuel read text name rest found ih =>
    obtain ⟨rfl, -, -⟩ := nameAt?_eq_some found
    rw [render_append, render_flush, render_nonterminal, ih, bracketed, String.toList_ofList]
    simp
  | case4 fuel read text none ih => simp [ih]
  | case5 fuel read c text other ih => simp [ih]

theorem render_tokens (text : List Char) : render (tokens text) = text :=
  render_tokensFrom text.length [] text

end Writing

/-- Symbols as they are read from a text: each of them can be read, and literal text is neither empty
nor followed by more of it. -/
structure Canonical (symbols : List Symbol) : Prop where
  read : ∀ symbol ∈ symbols, IsRead symbol
  some : Symbol.terminal "" ∉ symbols
  apart : symbols.IsChain fun left right => left.isTerminal = true → right.isTerminal = false

section Read

theorem terminal_empty_notMem_flush (read : List Char) : Symbol.terminal "" ∉ flush read := by
  cases read with
  | nil => exact List.not_mem_nil
  | cons c read => simp [flush, String.ext_iff]

theorem terminal_empty_notMem_tokensFrom (fuel : Nat) (read text : List Char) :
    Symbol.terminal "" ∉ tokensFrom fuel read text := by
  fun_induction tokensFrom fuel read text with
  | case1 => exact terminal_empty_notMem_flush _
  | case2 => exact terminal_empty_notMem_flush _
  | case3 fuel read text name rest found ih => simp [terminal_empty_notMem_flush, ih]
  | case4 fuel read text none ih => exact ih
  | case5 fuel read c text other ih => exact ih

theorem isChain_flush {R : Symbol → Symbol → Prop} (read : List Char) : (flush read).IsChain R := by
  cases read with
  | nil => exact .nil
  | cons c read => exact .singleton _

theorem isChain_tokensFrom (fuel : Nat) (read text : List Char) :
    (tokensFrom fuel read text).IsChain
      fun left right => left.isTerminal = true → right.isTerminal = false := by
  fun_induction tokensFrom fuel read text with
  | case1 => exact isChain_flush _
  | case2 => exact isChain_flush _
  | case3 fuel read text name rest found ih =>
    refine (isChain_flush read).append (List.isChain_cons.mpr ⟨?_, ih⟩) ?_
    · intro right _ literal
      cases literal
    · intro left _ right first _
      cases first
      rfl
  | case4 fuel read text none ih => exact ih
  | case5 fuel read c text other ih => exact ih

theorem canonical_tokens (text : List Char) : Canonical (tokens text) where
  read := isRead_tokens text
  some := terminal_empty_notMem_tokensFrom _ _ _
  apart := isChain_tokensFrom _ _ _

end Read

section Literal
variable {text rest : List Char}

theorem nameAt?_eq_none (quiet : ∀ name, IsToken name → ¬ bracketed name <:+: '<' :: text)
    (behind : ∀ c, rest.head? = some c → c = '<') : nameAt? (text ++ rest) = none := by
  cases found : nameAt? (text ++ rest) with
  | none => rfl
  | some pair =>
    obtain ⟨name, later⟩ := pair
    obtain ⟨whole, some, plain⟩ := nameAt?_eq_some found
    have apart : '<' ∉ name := fun inside => absurd (plain '<' inside) (by decide)
    rcases List.append_eq_append_iff.mp whole with ⟨part, rfl, follows⟩ | ⟨part, rfl, follows⟩
    · cases part with
      | nil =>
        have first := behind '>' (by rw [follows]; rfl)
        exact absurd first (by decide)
      | cons c part =>
        obtain rfl := behind c (by rw [follows]; rfl)
        exact absurd (List.mem_append_right _ List.mem_cons_self) apart
    · cases part with
      | nil =>
        have first := behind '>' (by rw [← List.nil_append rest, ← follows]; rfl)
        exact absurd first (by decide)
      | cons c part =>
        obtain ⟨rfl, -⟩ := List.cons.inj follows
        refine absurd ?_ (quiet (String.ofList name) ?_)
        · rw [bracketed, String.toList_ofList]
          exact ⟨[], part, by simp⟩
        · rw [IsToken, String.toList_ofList]
          exact ⟨some, plain⟩

theorem tokensFrom_literal (quiet : ∀ name, IsToken name → ¬ bracketed name <:+: text)
    (behind : ∀ c, rest.head? = some c → c = '<') (fuel : Nat) (read : List Char) :
    tokensFrom (text.length + fuel) read (text ++ rest) =
      tokensFrom fuel (text.reverse ++ read) rest := by
  induction text generalizing read with
  | nil => rw [List.length_nil, Nat.zero_add]; rfl
  | cons c text ih =>
    have later : ∀ name, IsToken name → ¬ bracketed name <:+: text := fun name token inside =>
      quiet name token (inside.trans (List.suffix_cons c text).isInfix)
    have skipped := ih later (c :: read)
    rw [List.length_cons, Nat.add_right_comm, List.cons_append, tokensFrom, List.reverse_cons,
      List.append_assoc, List.singleton_append]
    split
    · rename_i opens
      subst opens
      rw [nameAt?_eq_none quiet behind]
      exact skipped
    · exact skipped

end Literal

theorem tokensFrom_render {symbols : List Symbol} (canonical : Canonical symbols) {fuel : Nat}
    {read : List Char} (enough : (render symbols).length ≤ fuel)
    (literal : read ≠ [] → ∀ symbol, symbols.head? = some symbol → symbol.isTerminal = false) :
    tokensFrom fuel read (render symbols) = flush read ++ symbols := by
  induction symbols generalizing fuel read with
  | nil => cases fuel <;> exact (List.append_nil _).symm
  | cons symbol rest ih =>
    obtain ⟨can, later⟩ := List.forall_mem_cons.mp canonical.read
    obtain ⟨next, chain⟩ := List.isChain_cons.mp canonical.apart
    have behind : Canonical rest :=
      ⟨later, fun inside => canonical.some (List.mem_cons_of_mem symbol inside), chain⟩
    cases symbol with
    | nonterminal name =>
      obtain ⟨spare, rfl⟩ : ∃ spare, fuel = spare + 1 :=
        ⟨fuel - 1, by simp [render_nonterminal, bracketed] at enough; omega⟩
      rw [render_nonterminal] at enough ⊢
      rw [tokensFrom_bracketed can, ih behind _ (by simp)]
      · rfl
      · simp [bracketed] at enough
        omega
    | terminal text =>
      obtain rfl : read = [] := by
        by_contra some
        cases literal some _ rfl
      have full : text ≠ "" := by
        rintro rfl
        exact canonical.some List.mem_cons_self
      have names : ∀ symbol, rest.head? = some symbol → symbol.isTerminal = false :=
        fun symbol first => next symbol first rfl
      have opening : ∀ c, (render rest).head? = some c → c = '<' := by
        intro c first
        cases rest with
        | nil => cases first
        | cons symbol rest =>
          cases symbol with
          | terminal _ => cases names _ rfl
          | nonterminal name =>
            cases first
            rfl
      rw [render_terminal, List.length_append] at enough
      obtain ⟨spare, rfl⟩ := Nat.exists_eq_add_of_le (Nat.le_trans (Nat.le_add_right _ _) enough)
      rw [render_terminal, tokensFrom_literal can opening, List.append_nil,
        ih behind (by omega) fun _ => names]
      simp [flush, full]

theorem tokens_render {symbols : List Symbol} (canonical : Canonical symbols) :
    tokens (render symbols) = symbols :=
  tokensFrom_render canonical (Nat.le_refl _) (absurd rfl)

theorem isTerminal_of_mem_flush {read : List Char} {symbol : Symbol} (inside : symbol ∈ flush read) :
    symbol.isTerminal = true := by
  cases read with
  | nil => cases inside
  | cons c read =>
    obtain rfl := List.mem_singleton.mp inside
    rfl

theorem isRead_terminal_iff {text : String} :
    IsRead (.terminal text) ↔ ∀ symbol ∈ tokens text.toList, symbol.isTerminal = true := by
  constructor
  · intro quiet symbol inside
    have passed := @tokensFrom_literal text.toList [] quiet (by simp) 0 []
    rw [List.append_nil, List.append_nil, Nat.add_zero] at passed
    rw [tokens, passed] at inside
    exact isTerminal_of_mem_flush inside
  · intro literal name token inside
    cases literal _ (mem_tokensFrom token (Nat.le_refl _) inside)

instance (name : String) : Decidable (IsToken name) :=
  have := List.decidableBAll (fun c => isNameChar c = true) name.toList
  inferInstanceAs (Decidable (name.toList ≠ [] ∧ ∀ c ∈ name.toList, isNameChar c = true))

instance : DecidablePred IsRead
  | .nonterminal name => inferInstanceAs (Decidable (IsToken name))
  | .terminal _ => decidable_of_iff _ isRead_terminal_iff.symm

instance (symbols : List Symbol) : Decidable (Canonical symbols) :=
  decidable_of_iff ((∀ symbol ∈ symbols, IsRead symbol) ∧ Symbol.terminal "" ∉ symbols ∧
      symbols.IsChain fun left right => left.isTerminal = true → right.isTerminal = false)
    ⟨fun h => ⟨h.1, h.2.1, h.2.2⟩, fun h => ⟨h.read, h.some, h.apart⟩⟩

/-- Reading and writing undo each other: every text is read as canonical symbols that are written back
as it, and canonical symbols are what is read from the text they are written as. -/
theorem tokens_inverse :
    (∀ text, render (tokens text) = text) ∧ (∀ text, Canonical (tokens text)) ∧
      ∀ symbols, Canonical symbols → tokens (render symbols) = symbols :=
  ⟨render_tokens, canonical_tokens, fun _ => tokens_render⟩

/-- Names between stray brackets, some of which open what is no name. -/
def strayBrackets : List Symbol :=
  [.terminal "a <", .nonterminal "b", .terminal ">< c> <d", .nonterminal "e", .nonterminal "f"]

theorem tokens_inverse_stray : Canonical strayBrackets ∧
    render strayBrackets = "a <<b>>< c> <d<e><f>".toList ∧
    tokens "a <<b>>< c> <d<e><f>".toList = strayBrackets := by
  have canonical : Canonical strayBrackets := by decide
  have written : render strayBrackets = "a <<b>>< c> <d<e><f>".toList := by decide
  have read := tokens_inverse.2.2 strayBrackets canonical
  exact ⟨canonical, written, written ▸ read⟩

end GrammarSampler.Dictionary
