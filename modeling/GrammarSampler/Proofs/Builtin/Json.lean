import GrammarSampler.Builtin
import GrammarSampler.Proofs.Dictionary.Building
import GrammarSampler.Proofs.GrammarText.Building
import GrammarSampler.Proofs.Json.Syntax

/-!
The built-in grammars for JSON derive nothing else: the languages of the JSON syntax hold what the
bodies of the one and the alternatives of the other say of them.
-/
namespace GrammarSampler.Builtin
open Ebnf (Environment Body Times itemLanguage sequenceLanguage bodyLanguage)
open Dictionary (Defines IsName Spells bracketed)
open GrammarText (Definition.read?)
open JsonText Computability

def among (languages : Entries (Language Char)) : Environment :=
  fun name => (languages.get? name).getD 0

section Load
variable {name : String} (key : Lowercase.lower name = name)
include key

theorem outcome_load_text {text : String} (other : dictionaries.get? name = none)
    (found : texts.get? name = some text) :
    (load name).outcome = (GrammarText.load text none).outcome := by
  have stands : (Report.ofExcept (text? name)).outcome = .ok text := by
    rw [text?, key, found]
    rfl
  rw [load, key, other]
  exact Report.outcome_bind stands fun text => GrammarText.load text none

theorem load_dictionary {members : Entries Json} (found : dictionaries.get? name = some members) :
    load name = Dictionary.load members (.text Dictionary.startKey) := by
  rw [load, key, found]

end Load

section Lexical

theorem zero_le_natural : {['0']} ≤ natural := le_self_add

theorem positive_le_natural : single (fun c => c.isDigit && c != '0') * digit∗ ≤ natural := le_add_self

theorem natural_le_number : natural ≤ number := by
  calc natural = 1 * (natural * (1 * 1)) := by simp
    _ ≤ number := by unfold number; gcongr <;> exact le_self_add

theorem digit_le_character : digit ≤ character := by
  rintro _ ⟨c, is, rfl⟩
  refine .inl ⟨c, ?_, rfl⟩
  have apart : ∀ d : Char, d.isDigit = false → c ≠ d := by
    rintro d other rfl
    rw [is] at other
    cases other
  have printed : ' ' ≤ c := by
    have zero : '0' ≤ c := of_decide_eq_true (Bool.and_eq_true_iff.mp is).1
    exact le_trans (by decide) zero
  simp [printed, apart '"' rfl, apart '\\' rfl]

theorem character_le : character + (digit + ({" ".toList} + ({"_".toList} + {"\\n".toList}))) ≤
    character := by
  rintro w (is | is | rfl | rfl | rfl)
  · exact is
  · exact digit_le_character is
  · exact .inl ⟨' ', rfl, rfl⟩
  · exact .inl ⟨'_', rfl, rfl⟩
  · exact .inr ⟨['\\'], rfl, ['n'], .inl ⟨'n', rfl, rfl⟩, rfl⟩

theorem quoted_le : {['"']} * (character * character∗ * {['"']}) ≤ string := by
  unfold string
  gcongr
  exact mul_kstar_le_kstar

theorem blanks_le : {"".toList} + {" ".toList} ≤ blanks := by
  rintro w (rfl | rfl)
  · exact nil_mem_blanks
  · exact space_mem_blanks

theorem nonzero_digits : "123456789".toList.all (fun c => c.isDigit && c != '0') = true := by
  decide +kernel

theorem decimal_digits : "0123456789".toList.all Char.isDigit = true := by
  decide +kernel

end Lexical

section Values

theorem word_le {word : String} (known : word ∈ ["false", "null", "true"]) :
    {word.toList} ≤ all IsValue := by
  rintro _ rfl
  exact .named known

theorem value_le : all IsObject + (all IsArray + (string + (number +
    ({"true".toList} + ({"false".toList} + {"null".toList}))))) ≤ all IsValue := by
  rintro w (is | is | is | is | rfl | rfl | rfl)
  · exact .object is
  · exact .array is
  · exact .string is
  · exact .number is
  · exact .named (by simp)
  · exact .named (by simp)
  · exact .named (by simp)

theorem object_le : {"\x7b".toList} * (blanks * {"\x7d".toList}) +
    {"\x7b".toList} * (all (Separated IsMember) * {"\x7d".toList}) ≤ all IsObject := by
  rintro w (⟨_, rfl, _, ⟨b, blank, _, rfl, rfl⟩, rfl⟩ | ⟨_, rfl, _, ⟨m, are, _, rfl, rfl⟩, rfl⟩)
  · exact .empty blank
  · exact .members are

theorem members_le : all IsMember * ({",".toList} * all IsMember)∗ ≤ all (Separated IsMember) := by
  rintro _ ⟨m, is, more, star, rfl⟩
  refine Separated.append_kstar ?_ (.one is) star
  rintro _ ⟨_, rfl, last, is, rfl⟩
  exact ⟨last, is, rfl⟩

theorem member_le : blanks * (string * (blanks * ({":".toList} *
    (blanks * (all IsValue * blanks))))) ≤ all IsMember := by
  rintro _ ⟨a, before, _, ⟨n, named, _, ⟨b, behind, _, ⟨_, rfl, _,
    ⟨c, left, _, ⟨v, is, d, right, rfl⟩, rfl⟩, rfl⟩, rfl⟩, rfl⟩, rfl⟩
  have both := IsMember.intro (.intro before named behind) (.intro left is right)
  change IsMember _
  simpa using both

theorem array_le : {"[".toList} * (blanks * {"]".toList}) +
    {"[".toList} * (all (Separated (Padded IsValue)) * {"]".toList}) ≤ all IsArray := by
  rintro w (⟨_, rfl, _, ⟨b, blank, _, rfl, rfl⟩, rfl⟩ | ⟨_, rfl, _, ⟨m, are, _, rfl, rfl⟩, rfl⟩)
  · exact .empty blank
  · exact .elements are

theorem elements_le : blanks * (all IsValue * (blanks * ({",".toList} *
    (blanks * (all IsValue * blanks)))∗)) ≤ all (Separated (Padded IsValue)) := by
  rintro _ ⟨a, left, _, ⟨v, is, _, ⟨b, right, more, star, rfl⟩, rfl⟩, rfl⟩
  have first : Separated (Padded IsValue) (a ++ (v ++ b)) := .one (.intro left is right)
  have whole : Separated (Padded IsValue) (a ++ (v ++ b) ++ more) := by
    refine first.append_kstar ?_ star
    rintro _ ⟨_, rfl, _, ⟨c, left, _, ⟨u, is, d, right, rfl⟩, rfl⟩, rfl⟩
    exact ⟨_, .intro left is right, rfl⟩
  change Separated (Padded IsValue) _
  simpa using whole

theorem text_le : blanks * (all IsValue * blanks) ≤ all IsText := by
  rintro _ ⟨a, left, _, ⟨v, is, b, right, rfl⟩, rfl⟩
  exact .intro left is right

theorem spaced {w : List Char} (is : IsValue w) : Padded IsValue (' ' :: w) :=
  (Padded.of_bare is).behind space_mem_blanks

theorem assoc_le : {['\x7b']} *
    ((string * ({[':']} * ({[' ']} * (all IsValue * ({[',']} * {[' ']})))))∗ *
      (string * ({[':']} * ({[' ']} * (all IsValue * {['\x7d']}))))) ≤ all IsObject := by
  rintro _ ⟨_, rfl, _, ⟨more, star, _, ⟨n, named, _, ⟨_, rfl, _, ⟨_, rfl, _,
    ⟨v, is, _, rfl, rfl⟩, rfl⟩, rfl⟩, rfl⟩, rfl⟩, rfl⟩
  have last : Separated IsMember (n ++ ':' :: ' ' :: v) :=
    .one (.intro (.of_bare named) (spaced is))
  have whole : Separated IsMember (more ++ (n ++ ':' :: ' ' :: v)) := by
    refine Separated.kstar_append ?_ (fun _ => IsMember.behind space_mem_blanks) star last
    rintro _ ⟨m, named, _, ⟨_, rfl, _, ⟨_, rfl, _,
      ⟨u, is, _, ⟨_, rfl, _, rfl, rfl⟩, rfl⟩, rfl⟩, rfl⟩, rfl⟩
    exact ⟨m ++ ':' :: ' ' :: u, .intro (.of_bare named) (spaced is), by simp⟩
  have object := IsObject.members whole
  change IsObject _
  simpa using object

theorem list_le : {['[']} * ((all IsValue * ({[',']} * {[' ']}))∗ * (all IsValue * {[']']})) ≤
    all IsArray := by
  rintro _ ⟨_, rfl, _, ⟨more, star, _, ⟨v, is, _, rfl, rfl⟩, rfl⟩, rfl⟩
  have last : Separated (Padded IsValue) v := .one (.of_bare is)
  have whole : Separated (Padded IsValue) (more ++ v) := by
    refine Separated.kstar_append ?_ (fun _ => Padded.behind space_mem_blanks) star last
    rintro _ ⟨u, is, _, ⟨_, rfl, _, rfl, rfl⟩, rfl⟩
    exact ⟨u, .of_bare is, rfl⟩
  have array := IsArray.elements whole
  change IsArray _
  simpa using array

end Values

section Text

theorem toList_quotedChoice (cs : String) : (quotedChoice cs).toList =
    [' ', '|', ' '].intercalate (cs.toList.map fun c => ['"', c, '"']) := by
  simp [quotedChoice, String.toList_intercalate, Function.comp_def]

theorem toList_text (lines : List String) : (text lines).toList = '\n' ::
    (lines.flatMap fun line => margin.toList ++ line.toList ++ ['\n']) ++ margin.toList := by
  simp [text, String.toList_join, List.flatMap, Function.comp_def]

def choice (cs : String) : Body := cs.toList.map fun c => [.literal (String.singleton c)]

def jsonRules : List (String × Body) := [
  ("json", [[.reference "ws", .reference "value", .reference "ws"]]),
  ("value", [[.reference "object"], [.reference "array"], [.reference "string"],
    [.reference "number"], [.literal "true"], [.literal "false"], [.literal "null"]]),
  ("object", [[.literal "\x7b", .reference "ws", .literal "\x7d"],
    [.literal "\x7b", .reference "members", .literal "\x7d"]]),
  ("members", [[.reference "member",
    .repeated (.group [[.literal ",", .reference "member"]]) .star]]),
  ("member", [[.reference "ws", .reference "string", .reference "ws", .literal ":", .reference "ws",
    .reference "value", .reference "ws"]]),
  ("array", [[.literal "[", .reference "ws", .literal "]"],
    [.literal "[", .reference "elements", .literal "]"]]),
  ("elements", [[.reference "ws", .reference "value", .reference "ws", .repeated
    (.group [[.literal ",", .reference "ws", .reference "value", .reference "ws"]]) .star]]),
  ("string", [[.literal "\"", .repeated (.group [[.reference "char"]]) .star, .literal "\""]]),
  ("number", [[.repeated (.group [[.literal "-"]]) .optional, .reference "int",
    .repeated (.group [[.literal ".", .repeated (.reference "digit") .plus]]) .optional,
    .repeated (.group [[.group [[.literal "e"], [.literal "E"]],
      .repeated (.group [[.literal "+"], [.literal "-"]]) .optional,
      .repeated (.reference "digit") .plus]]) .optional]]),
  ("int", [[.literal "0"],
    [.reference "onenine", .repeated (.group [[.reference "digit"]]) .star]]),
  ("onenine", choice "123456789"),
  ("digit", choice "0123456789"),
  ("char", [[.reference "letter"], [.reference "digit"], [.literal " "], [.literal "_"],
    [.literal "\\n"]]),
  ("letter", choice "abcdefghijklmnopqrstuvwxyz"),
  ("ws", [[.literal ""], [.literal " "]])]

set_option maxRecDepth 10000 in
theorem read_json : (GrammarText.definitions? (text jsonLines).toList).toOption.map
    (List.map Definition.read?) = some (jsonRules.map some) := by
  rw [toList_text]
  simp only [jsonLines, letters, digits, String.toList_append, toList_quotedChoice, margin,
    List.flatMap_cons, List.flatMap_nil]
  -- The characters of a long literal are much cheaper to rewrite than to evaluate.
  repeat rw [String.toList_ofList]
  cbv

theorem json_closed : ∀ rule ∈ jsonRules, ∀ name ∈ Ebnf.bodyNames rule.2,
    name ∈ jsonRules.map Prod.fst := by
  decide

def jsonLanguages : Entries (Language Char) := [
  ("json", all IsText), ("value", all IsValue), ("object", all IsObject),
  ("members", all (Separated IsMember)), ("member", all IsMember), ("array", all IsArray),
  ("elements", all (Separated (Padded IsValue))), ("string", string), ("number", number),
  ("int", natural), ("onenine", single fun c => c.isDigit && c != '0'), ("digit", digit),
  ("char", character), ("letter", character), ("ws", blanks)]

theorem bodyLanguage_choice {env : Environment} {cs : String} {test : Char → Bool}
    (each : cs.toList.all test = true) : bodyLanguage env (choice cs) ≤ single test := by
  intro w inside
  obtain ⟨sequence, among, word⟩ := Ebnf.mem_bodyLanguage.mp inside
  obtain ⟨c, here, rfl⟩ := List.mem_map.mp among
  refine ⟨c, List.all_eq_true.mp each c here, ?_⟩
  rw [sequenceLanguage, sequenceLanguage, itemLanguage, mul_one] at word
  rw [Set.mem_singleton_iff.mp word, String.toList_singleton]

theorem json_holds : ∀ rule ∈ jsonRules,
    bodyLanguage (among jsonLanguages) rule.2 ≤ among jsonLanguages rule.1 := by
  have plain : "abcdefghijklmnopqrstuvwxyz".toList.all
      (fun c => decide (' ' ≤ c) && c != '"' && c != '\\') = true := by decide +kernel
  simp only [jsonRules, List.forall_mem_cons]
  simp only [bodyLanguage, sequenceLanguage, itemLanguage, Times.language, among, jsonLanguages,
    Entries.get?, String.reduceEq, if_true, if_false, Option.getD_some, mul_one, add_zero]
  exact ⟨text_le, value_le, object_le, members_le, member_le, array_le, elements_le, le_rfl, le_rfl,
    le_rfl, bodyLanguage_choice nonzero_digits, bodyLanguage_choice decimal_digits, character_le,
    (bodyLanguage_choice plain).trans le_self_add, blanks_le, List.forall_mem_nil _⟩

theorem exists_load_json : ∃ g, (load "json").outcome = .ok g ∧
    ∀ w, g.rules.Derives [.nonterminal g.start] w → IsText w := by
  obtain ⟨g, loaded, start, words⟩ := GrammarText.exists_load read_json json_closed rfl
  have key : Lowercase.lower "json" = "json" := by decide +kernel
  have found : texts.get? "json" = some (text jsonLines) := rfl
  refine ⟨g, (outcome_load_text key rfl found).trans loaded, ?_⟩
  intro w derives
  have word := words (among jsonLanguages) json_holds w derives
  rw [start] at word
  exact word

end Text

section Dictionary

def characters (cs : String) : List (List Dictionary.Part) := cs.toList.map fun c => [.literal c]

def literals (word : String) : List Dictionary.Part := word.toList.map .literal

def assocDefinitions : List Dictionary.Definition := [
  ⟨"start", [[.reference "assoc" []]]⟩,
  ⟨"value", [[.reference "assoc" []], [.reference "list" []], [.reference "bool" []],
    [.reference "string" []], [.reference "int" []]]⟩,
  ⟨"assoc", [[.literal '\x7b',
    .group [.reference "string" [], .literal ':', .literal ' ', .reference "value" [], .literal ',',
      .literal ' '] .star [],
    .reference "string" [], .literal ':', .literal ' ', .reference "value" [], .literal '\x7d']]⟩,
  ⟨"list", [[.literal '[', .group [.reference "value" [], .literal ',', .literal ' '] .star [],
    .reference "value" [], .literal ']']]⟩,
  ⟨"bool", [literals "true", literals "false"]⟩,
  ⟨"string", [[.literal '"', .reference "char" [.plus], .literal '"']]⟩,
  ⟨"char", characters "abcd"⟩,
  ⟨"int", [[.reference "onenine" [], .reference "digit" [.star]], [.literal '0']]⟩,
  ⟨"onenine", characters "123456789"⟩,
  ⟨"digit", characters "0123456789"⟩]

section Defines
variable {key name : String} (written : key.toList = bracketed name ∧ IsName name)
include written

theorem defines_plain {texts : List String} {alternatives : List (List Dictionary.Part)}
    (same : texts.map String.toList = alternatives.map Dictionary.Part.writeAll)
    (good : ∀ parts ∈ alternatives, Dictionary.Part.AllWellFormed parts) :
    Defines (key, plain texts) ⟨name, alternatives⟩ := by
  refine .intro written.1 written.2 ?_
  induction texts generalizing alternatives with
  | nil =>
    rw [List.map_eq_nil_iff.mp same.symm]
    exact .nil
  | cons text texts ih =>
    cases alternatives with
    | nil => cases same
    | cons parts alternatives =>
      obtain ⟨here, later⟩ := List.forall_mem_cons.mp good
      injection same with first rest
      exact .cons (.bare first here) (ih rest later)

theorem defines_singles {cs : String} (plain : cs.toList.all Dictionary.isPlain = true) :
    Defines (key, singles cs) ⟨name, characters cs⟩ := by
  refine .intro written.1 written.2 ?_
  unfold characters
  rw [List.forall₂_map_left_iff, List.forall₂_map_right_iff, List.forall₂_same]
  intro c inside
  exact .bare (String.toList_singleton c) ⟨List.all_eq_true.mp plain c inside, .inl rfl, trivial⟩

end Defines

theorem defines_assoc : List.Forall₂ Defines jsonDictionary assocDefinitions := by
  have half : Dictionary.WeighsPositive [("weight", .number (.float 0.5))] := by
    change Number.isPositive (.float 0.5) = true
    decide +kernel
  have int : List.Forall₂ Spells
      [.text "<onenine><digit>*", .list [.text "0", .object [("weight", .number (.float 0.5))]]]
      [[.reference "onenine" [], .reference "digit" [.star]], [.literal '0']] :=
    .cons (.bare (by decide) (by decide +kernel))
      (.cons (.weighted (by decide) (by decide +kernel) half) .nil)
  exact
    .cons (defines_plain (by decide) (by decide +kernel) (by decide +kernel)) <|
    .cons (defines_plain (by decide) (by decide +kernel) (by decide +kernel)) <|
    .cons (defines_plain (by decide) (by decide +kernel) (by decide +kernel)) <|
    .cons (defines_plain (by decide) (by decide +kernel) (by decide +kernel)) <|
    .cons (defines_plain (by decide) (by decide +kernel) (by decide +kernel)) <|
    .cons (defines_plain (by decide) (by decide +kernel) (by decide +kernel)) <|
    .cons (defines_singles (by decide) (by decide +kernel)) <|
    .cons (.intro (by decide) (by decide) int) <|
    .cons (defines_singles (by decide) (by decide +kernel)) <|
    .cons (defines_singles (by decide) (by decide +kernel)) .nil

theorem assoc_closed : Dictionary.Closed assocDefinitions := by decide +kernel

def assocLanguages : Entries (Language Char) := [
  ("start", all IsObject), ("value", all IsValue), ("assoc", all IsObject), ("list", all IsArray),
  ("bool", all IsValue), ("string", string), ("char", character), ("int", number),
  ("onenine", single fun c => c.isDigit && c != '0'), ("digit", digit)]

theorem languageAll_characters {env : Environment} {cs : String} {test : Char → Bool}
    (each : cs.toList.all test = true) :
    ∀ parts ∈ characters cs, Dictionary.Part.languageAll env parts ≤ single test := by
  intro parts inside w word
  obtain ⟨c, here, rfl⟩ := List.mem_map.mp inside
  simp only [Dictionary.Part.languageAll, Dictionary.Part.language, mul_one] at word
  exact ⟨c, List.all_eq_true.mp each c here, Set.mem_singleton_iff.mp word⟩

theorem languageAll_literals (env : Environment) (word : String) :
    Dictionary.Part.languageAll env (literals word) = {word.toList} := by
  unfold literals
  induction word.toList with
  | nil => exact Language.one_def
  | cons c cs ih =>
    rw [List.map_cons, Dictionary.Part.languageAll, ih, Dictionary.Part.language,
      Dictionary.singleton_mul_singleton]
    rfl

theorem assoc_holds : ∀ d ∈ assocDefinitions, ∀ parts ∈ d.alternatives,
    Dictionary.Part.languageAll (among assocLanguages) parts ≤ among assocLanguages d.name := by
  have plain : "abcd".toList.all
      (fun c => decide (' ' ≤ c) && c != '"' && c != '\\') = true := by decide +kernel
  simp only [assocDefinitions, List.forall_mem_cons]
  simp only [Dictionary.Part.languageAll, Dictionary.Part.language, Dictionary.signed, List.foldl,
    languageAll_literals, Times.language, among, assocLanguages, Entries.get?, String.reduceEq,
    if_true, if_false, Option.getD_some, mul_one, List.not_mem_nil, false_implies, implies_true,
    and_true]
  exact ⟨le_rfl, ⟨fun _ => .object, fun _ => .array, le_rfl, fun _ => .string, fun _ => .number⟩,
    assoc_le, list_le, ⟨word_le (by simp), word_le (by simp)⟩, quoted_le,
    fun parts inside => (languageAll_characters plain parts inside).trans le_self_add,
    ⟨positive_le_natural.trans natural_le_number, zero_le_natural.trans natural_le_number⟩,
    languageAll_characters nonzero_digits, languageAll_characters decimal_digits⟩

theorem exists_load_assoc : ∃ g, (load "json-ebnf").outcome = .ok g ∧
    ∀ w, g.rules.Derives [.nonterminal g.start] w → IsObject w := by
  have key : Lowercase.lower "json-ebnf" = "json-ebnf" := by decide +kernel
  have bare : Dictionary.bareName Dictionary.startKey = "start" := by decide +kernel
  have inside : Dictionary.bareName Dictionary.startKey ∈
      assocDefinitions.map Dictionary.Definition.name := bare ▸ List.mem_cons_self
  have some : ∀ d ∈ assocDefinitions, d.alternatives ≠ [] := by
    simp [assocDefinitions, characters]
  obtain ⟨g, loaded, start, words⟩ :=
    Dictionary.exists_load defines_assoc assoc_closed some inside
  have found : dictionaries.get? "json-ebnf" = Option.some jsonDictionary := rfl
  rw [load_dictionary key found]
  refine ⟨g, loaded, ?_⟩
  intro w derives
  have word := words (among assocLanguages) assoc_holds w derives
  rw [start, bare] at word
  exact word

end Dictionary

/-- Whatever the built-in grammar for JSON derives from its start is a JSON text, and whatever the
built-in dictionary grammar for JSON derives from its start is a JSON object. -/
theorem derives_json :
    (∃ g, (load "json").outcome = .ok g ∧
      ∀ w, g.rules.Derives [.nonterminal g.start] w → IsText w) ∧
    ∃ g, (load "json-ebnf").outcome = .ok g ∧
      ∀ w, g.rules.Derives [.nonterminal g.start] w → IsObject w :=
  ⟨exists_load_json, exists_load_assoc⟩

end GrammarSampler.Builtin
