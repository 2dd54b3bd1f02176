import GrammarSampler.Proofs.Grammar.Built
import GrammarSampler.Proofs.GrammarText.Language
import GrammarSampler.Proofs.GrammarText.Printing

/-!
Printed grammars read back. Every rule is printed on a line of its own, the line gives one
definition, the body of that is plain, so that lowering it makes no rule, and each definition adds
the rule it was printed from.
-/
namespace GrammarSampler

namespace Rules

def printed (rules : Rules) : Rules :=
  rules.map fun (name, alternatives) => (name, alternatives.map Expansion.printed)

/-- Names are plain and terminals need no codes. -/
def Readable (rules : Rules) : Prop :=
  ∀ rule ∈ rules, GrammarText.PlainName rule.1 ∧ ∀ e ∈ rule.2, ∀ s ∈ e.symbols, s.Readable

instance (rules : Rules) : Decidable rules.Readable :=
  inferInstanceAs (Decidable (∀ rule ∈ rules, _))

theorem keys_printed (rules : Rules) : rules.printed.keys = rules.keys := by
  simp [printed, Entries.keys, Function.comp_def]

theorem allReferences_printed (rules : Rules) :
    rules.printed.allReferences = rules.allReferences := by
  simp [printed, allReferences, references, List.flatMap_map, Expansion.references_printed]

theorem wellFormed_printed {rules : Rules} {start : String}
    (wellFormed : Grammar.WellFormed rules start) : Grammar.WellFormed rules.printed start := by
  obtain ⟨present, nonempty, closed⟩ := wellFormed
  refine ⟨by rwa [keys_printed], ?_, ?_⟩
  · intro rule inside
    obtain ⟨original, among, rfl⟩ := List.mem_map.mp inside
    simpa using nonempty original among
  · intro name used
    rw [keys_printed]
    exact closed name (allReferences_printed rules ▸ used)

theorem extend_new {rules : Rules} {name : String} (new : name ∉ rules.keys)
    (alternatives : List Expansion) :
    rules.extend name alternatives = rules ++ [(name, alternatives)] := by
  have absent : rules.get? name = none := by
    rw [← Option.not_isSome_iff_eq_none, Entries.get?_isSome_iff]
    exact new
  rw [extend, absent, Option.getD_none, List.nil_append]
  exact Entries.put_of_notMem alternatives new

end Rules

namespace GrammarText
open Ebnf

section Lines
variable {line : List Char}

theorem lines_cons {c : Char} (other : c ≠ '\n') {rest first : List Char} {more : List (List Char)}
    (read : lines rest = first :: more) : lines (c :: rest) = (c :: first) :: more := by
  simp [lines, other, read]

theorem lines_single (single : '\n' ∉ line) : lines line = [line] := by
  induction line with
  | nil => rfl
  | cons c line ih =>
    rw [List.mem_cons, not_or] at single
    exact lines_cons (Ne.symm single.1) (ih single.2)

theorem lines_append (single : '\n' ∉ line) (rest : List Char) :
    lines (line ++ '\n' :: rest) = line :: lines rest := by
  induction line with
  | nil => simp [lines]
  | cons c line ih =>
    rw [List.mem_cons, not_or] at single
    exact lines_cons (Ne.symm single.1) (ih single.2)

theorem lines_intercalate {all : List (List Char)} (some : all ≠ [])
    (single : ∀ line ∈ all, '\n' ∉ line) : lines (['\n'].intercalate all) = all := by
  induction all with
  | nil => exact absurd rfl some
  | cons line all ih =>
    obtain ⟨here, later⟩ := List.forall_mem_cons.mp single
    cases all with
    | nil => rw [List.intercalate_singleton, lines_single here]
    | cons next all =>
      rw [List.intercalate_cons_cons, List.append_assoc, List.singleton_append,
        lines_append here, ih (List.cons_ne_nil _ _) later]

end Lines

section Definitions
variable {rest : List Char}

theorem splitDefinition?_cons {c : Char} (other : ∀ after, c = ':' → rest ≠ ':' :: '=' :: after) :
    splitDefinition? (c :: rest) =
      (splitDefinition? rest).map fun parts => (c :: parts.1, parts.2) :=
  splitDefinition?.eq_3 c rest other

theorem splitDefinition?_append {text : List Char} (undivided : ¬ [':', ':', '='] <:+: text)
    (apart : ∀ c ∈ rest.head?, c ≠ ':' ∧ c ≠ '=') :
    splitDefinition? (text ++ rest) =
      (splitDefinition? rest).map fun parts => (text ++ parts.1, parts.2) := by
  induction text with
  | nil => simp
  | cons c text ih =>
    rw [List.cons_append, splitDefinition?_cons, ih]
    · simp [Function.comp_def]
    · exact fun inside => undivided (inside.trans (List.suffix_cons c text).isInfix)
    · rintro after rfl same
      rcases text with _ | ⟨d, _ | ⟨e, text⟩⟩
      · obtain rfl : rest = ':' :: '=' :: after := same
        exact (apart ':' rfl).1 rfl
      · obtain ⟨-, rfl⟩ : d = ':' ∧ rest = '=' :: after := by simpa using same
        exact (apart '=' rfl).2 rfl
      · obtain ⟨rfl, rfl, -⟩ : d = ':' ∧ e = '=' ∧ text ++ rest = after := by simpa using same
        exact undivided (List.prefix_append [':', ':', '='] text).isInfix

theorem addLine_definition {raw line text body : List Char} (number : Nat)
    (before : List Definition) (content : strip (stripComment raw) = line)
    (first : ∃ c rest, line = c :: rest ∧ c ≠ '|')
    (parts : splitDefinition? line = some (text, body)) (named : ruleName text ≠ []) :
    addLine number raw before =
      .ok (⟨String.ofList (ruleName text), strip body, number⟩ :: before) := by
  obtain ⟨c, rest, rfl, other⟩ := first
  simp only [addLine, content]
  split
  · rename_i empty
    cases empty
  · rename_i bar
    injection bar with same
    exact absurd same other
  · rw [parts]
    split
    · rename_i absent
      cases absent
    · rename_i found
      cases found
      split
      · rename_i unnamed
        exact absurd unnamed named
      · rfl

end Definitions

def printedLine (rule : String × List Expansion) : List Char :=
  '<' :: rule.1.toList ++ ['>'] ++ [' ', ':', ':', '=', ' '] ++ (Expansion.displayAll rule.2).toList

def printedDefinition (number : Nat) (rule : String × List Expansion) : Definition :=
  ⟨rule.1, (Expansion.displayAll rule.2).toList, number⟩

def printedDefinitions (first : Nat) (rules : Rules) : List Definition :=
  (rules.zipIdx first).map fun (rule, number) => printedDefinition number rule

section Printed
variable {rule : String × List Expansion} (named : PlainName rule.1) (some : rule.2 ≠ [])
  (readable : ∀ e ∈ rule.2, ∀ s ∈ e.symbols, s.Readable)
include named some readable

theorem verbatim_line : Verbatim (printedLine rule) :=
  named.verbatim.join (by simp) (Expansion.verbatim_displayAll some readable)

theorem addLine_printed (number : Nat) (before : List Definition) :
    addLine number (printedLine rule) before = .ok (printedDefinition number rule :: before) := by
  have blank : ∀ c ∈ [' '], isBlank c = true := List.forall_mem_singleton.mpr rfl
  have body := (Expansion.verbatim_displayAll some readable).strip_blank blank
    (List.forall_mem_nil _)
  have parts : splitDefinition? (printedLine rule) =
      .some ('<' :: rule.1.toList ++ ['>'] ++ [' '], ' ' :: (Expansion.displayAll rule.2).toList) := by
    simp only [printedLine, List.cons_append, List.append_assoc, List.nil_append]
    rw [splitDefinition?_cons (by simp), splitDefinition?_append named.undivided (by simp)]
    simp [splitDefinition?]
  have added := addLine_definition number before (verbatim_line named some readable).strip_comment
    ⟨'<', _, rfl, by decide⟩ parts (by rw [named.ruleName_eq]; exact named.toList_ne_nil)
  rw [List.append_nil, List.singleton_append] at body
  rwa [named.ruleName_eq, String.ofList_toList, body] at added

end Printed

section Reading
variable {rules : Rules} (some : ∀ rule ∈ rules, rule.2 ≠ []) (readable : rules.Readable)
include some readable

theorem addLines_printed (number : Nat) (before : List Definition) :
    addLines number before (rules.map printedLine) =
      .ok (before.reverse ++ printedDefinitions number rules) := by
  induction rules generalizing number before with
  | nil => simp [addLines, printedDefinitions]
  | cons rule rules ih =>
    obtain ⟨nonempty, others⟩ := List.forall_mem_cons.mp some
    obtain ⟨⟨named, here⟩, later⟩ := List.forall_mem_cons.mp readable
    rw [List.map_cons, addLines, addLine_printed named nonempty here]
    exact (ih others later _ _).trans (by simp [printedDefinitions])

theorem definitions?_display (nonempty : rules ≠ []) :
    definitions? rules.display.toList = .ok (printedDefinitions 1 rules) := by
  have shown : rules.display.toList = ['\n'].intercalate (rules.map printedLine) := by
    rw [Rules.display, String.toList_intercalate, List.map_map]
    exact congrArg _ (List.map_congr_left fun rule _ => by simp [printedLine, Symbol.toList_bracketed])
  have separate : lines rules.display.toList = rules.map printedLine := by
    rw [shown]
    refine lines_intercalate (by simpa using nonempty) ?_
    intro line inside
    obtain ⟨rule, among, rfl⟩ := List.mem_map.mp inside
    exact (verbatim_line (readable rule among).1 (some rule among) (readable rule among).2).line
  rw [definitions?, separate]
  exact addLines_printed some readable 1 []

end Reading

section Lowering
variable (hint : String) (l : Lowering)

theorem lowerSequence_items (symbols : List Symbol) :
    lowerSequence hint l (symbols.map Symbol.item) = (symbols, l) := by
  induction symbols with
  | nil => rw [List.map_nil, lowerSequence]
  | cons s symbols ih =>
    cases s with
    | terminal text => simp [Symbol.item, lowerSequence, lowerItem, ih]
    | nonterminal name => simp [Symbol.item, lowerSequence, lowerItem, ih]

theorem lowerBody_items (alternatives : List Expansion) :
    lowerBody hint l (alternatives.map Expansion.items) =
      (alternatives.map fun e => e.printed.symbols, l) := by
  induction alternatives with
  | nil => rw [List.map_nil, List.map_nil, lowerBody]
  | cons e alternatives ih =>
    simp [Expansion.items, lowerBody, lowerSequence_items, ih]

end Lowering

section Defining
variable {rules : Rules} {l : Lowering}

theorem define_printed {rule : String × List Expansion} (some : rule.2 ≠ [])
    (readable : ∀ e ∈ rule.2, ∀ s ∈ e.symbols, s.Readable) (number : Nat)
    (new : rule.1 ∉ l.rules.keys) :
    define (printedDefinition number rule) l =
      (.ok (), { l with rules := l.rules ++ Rules.printed [rule] }) := by
  have read := read_eq_done_iff.mpr ⟨rfl, Expansion.spells_displayAll some readable⟩
  have same : (rule.2.map fun e => e.printed.symbols).map Expansion.unweighted =
      rule.2.map Expansion.printed := by
    rw [List.map_map]
    rfl
  simp only [define, printedDefinition, read, lowerBody_items, same, Rules.extend_new new]
  rfl

theorem defineAll_printed (some : ∀ rule ∈ rules, rule.2 ≠ []) (readable : rules.Readable)
    (distinct : rules.Distinct) (new : ∀ name ∈ rules.keys, name ∉ l.rules.keys) (number : Nat)
    (notices : List Notice) : ∃ notices', defineAll l notices (printedDefinitions number rules) =
      (.ok (), { l with rules := l.rules ++ rules.printed }, notices') := by
  induction rules generalizing l number notices with
  | nil => exact ⟨notices, by simp [printedDefinitions, defineAll, Rules.printed]⟩
  | cons rule rules ih =>
    obtain ⟨nonempty, others⟩ := List.forall_mem_cons.mp some
    obtain ⟨⟨-, here⟩, later⟩ := List.forall_mem_cons.mp readable
    obtain ⟨fresh, apart⟩ := List.forall_mem_cons.mp new
    obtain ⟨single, separate⟩ := List.nodup_cons.mp distinct
    have one := define_printed nonempty here number fresh
    have absent : ∀ name ∈ Entries.keys rules,
        name ∉ Entries.keys (l.rules ++ Rules.printed [rule]) := by
      intro name inside
      rw [Entries.keys, List.map_append, List.mem_append, not_or]
      refine ⟨apart name inside, ?_⟩
      intro last
      obtain rfl : name = rule.1 := by simpa [Rules.printed] using last
      exact single inside
    obtain ⟨notices', all⟩ := @ih { l with rules := l.rules ++ Rules.printed [rule] } others later
      separate absent (number + 1) (notices ++ extensionNotice (printedDefinition number rule) l.rules)
    refine ⟨notices', ?_⟩
    rw [List.append_assoc] at all
    rw [printedDefinitions, List.zipIdx_cons, List.map_cons, defineAll, one]
    exact all

end Defining

/-- Printed rules are parsed into the rules that they are read back as. -/
theorem parse_display {rules : Rules} {start : String} (distinct : rules.Distinct)
    (wellFormed : Grammar.WellFormed rules start) (readable : rules.Readable) :
    (parse rules.display).outcome = .ok () ∧ (parse rules.display).rules = rules.printed := by
  obtain ⟨present, some, -⟩ := wellFormed
  have nonempty : rules ≠ [] := by
    rintro rfl
    cases present
  have found := definitions?_display some readable nonempty
  obtain ⟨notices, defined⟩ := @defineAll_printed rules
    ⟨(printedDefinitions 1 rules).map Definition.name, []⟩ some readable distinct
    (fun _ _ => List.not_mem_nil) 1 []
  obtain ⟨accepted, same⟩ := parse_eq found
  rw [defined] at accepted same
  exact ⟨accepted, same⟩

/-- The printed form of a grammar reads back as the grammar, but for weights and for empty
alternatives, which become the empty text. -/
theorem load_display {rules : Rules} {start : String} {g : Grammar} (mapping : rules.Distinct)
    (success : Grammar.build? rules start = .ok g) (readable : g.rules.Readable) :
    ∃ h, (load g.display (some g.start)).outcome = .ok h ∧ h.rules = g.rules.printed ∧
      h.start = g.start := by
  obtain ⟨built, -, -⟩ := Grammar.built_of_build? mapping success
  have wellFormed : Grammar.WellFormed g.rules g.start :=
    ⟨built.present, built.nonempty, built.closed⟩
  have rebuilt := Grammar.build?_eq_ok_iff.mpr ⟨Rules.wellFormed_printed wellFormed, rfl⟩
  obtain ⟨accepted, same⟩ := parse_display built.mapping wellFormed readable
  have asked : (parse g.rules.display).startFor (some g.start) = g.start := by
    obtain ⟨rule, among, named⟩ := List.mem_map.mp built.present
    exact if_neg (named ▸ (readable rule among).1.nonempty)
  have loaded := outcome_load accepted (some g.start)
  rw [same, asked, rebuilt] at loaded
  exact ⟨_, loaded, rfl, rfl⟩

/-- Quotes of both kinds, signs of comments and definitions, brackets and escapes in terminals, a
blank, a bar and colons in names, an empty alternative and a weight. -/
def trickyRules : Rules :=
  [("a |b", [⟨[.terminal "it's \"#\" | ::= <x> [\\]\n\t", .nonterminal "c::"], some (.int 2)⟩,
      ⟨[], none⟩]),
    ("c::", [⟨[.terminal "'", .terminal "\""], none⟩, ⟨[.nonterminal "a |b"], none⟩])]

theorem load_display_tricky : trickyRules.Distinct ∧ trickyRules.Readable ∧
    ∃ g, Grammar.build? trickyRules "a |b" = .ok g ∧
      ∃ h, (load g.display (some "a |b")).outcome = .ok h ∧ h.start = "a |b" ∧ h.rules =
        [("a |b", [⟨[.terminal "it's \"#\" | ::= <x> [\\]\n\t", .nonterminal "c::"], none⟩,
            ⟨[.terminal ""], none⟩]),
          ("c::", [⟨[.terminal "'", .terminal "\""], none⟩, ⟨[.nonterminal "a |b"], none⟩])] := by
  have distinct : trickyRules.Distinct := by decide
  have readable : trickyRules.Readable := by decide +kernel
  have wellFormed : Grammar.WellFormed trickyRules "a |b" := ⟨by decide, by decide, by decide⟩
  have success := Grammar.build?_eq_ok_iff.mpr ⟨wellFormed, rfl⟩
  obtain ⟨h, loaded, rules, start⟩ := load_display distinct success readable
  exact ⟨distinct, readable, _, success, h, loaded, start, rules⟩

end GrammarText
end GrammarSampler
