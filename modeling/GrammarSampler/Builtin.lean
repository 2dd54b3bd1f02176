import GrammarSampler.Dictionary.Load
import GrammarSampler.GrammarText.Parse
import GrammarSampler.Text.Lowercase

/-!
Built-in grammars for common text formats: six grammar texts and one dictionary grammar.
-/
namespace GrammarSampler.Builtin

def quotedChoice (cs : String) : String :=
  " | ".intercalate (cs.toList.map fun c => String.ofList ['"', c, '"'])

def letters : String := quotedChoice "abcdefghijklmnopqrstuvwxyz"

def digits : String := quotedChoice "0123456789"

def jsonLines : List String := [
  "<json> ::= <ws> <value> <ws>",
  "<value> ::= <object> | <array> | <string> | <number> | \"true\" | \"false\" | \"null\"",
  "<object> ::= \"\x7b\" <ws> \"\x7d\" | \"\x7b\" <members> \"\x7d\"",
  "<members> ::= <member> \x7b\",\" <member>\x7d",
  "<member> ::= <ws> <string> <ws> \":\" <ws> <value> <ws>",
  "<array> ::= \"[\" <ws> \"]\" | \"[\" <elements> \"]\"",
  "<elements> ::= <ws> <value> <ws> \x7b\",\" <ws> <value> <ws>\x7d",
  "<string> ::= '\"' \x7b<char>\x7d '\"'",
  "<number> ::= [\"-\"] <int> [\".\" <digit>+] [(\"e\" | \"E\") [\"+\" | \"-\"] <digit>+]",
  "<int> ::= \"0\" | <onenine> \x7b<digit>\x7d",
  "<onenine> ::= \"1\" | \"2\" | \"3\" | \"4\" | \"5\" | \"6\" | \"7\" | \"8\" | \"9\"",
  "<digit> ::= " ++ digits,
  "<char> ::= <letter> | <digit> | \" \" | \"_\" | \"\\\\n\"",
  "<letter> ::= " ++ letters,
  "<ws> ::= \"\" | \" \""]

def xmlLines : List String := [
  "<document> ::= <element>",
  "<element> ::= \"<\" <name> \x7b<attribute>\x7d \">\" \x7b<content>\x7d \"</\" <name> \">\"",
  "            | \"<\" <name> \x7b<attribute>\x7d \"/>\"",
  "<attribute> ::= \" \" <name> \"=\" '\"' \x7b<char>\x7d '\"'",
  "<content> ::= <text> | <element>",
  "<text> ::= <char>+",
  "<name> ::= <letter> \x7b<letter> | <digit>\x7d",
  "<char> ::= <letter> | <digit> | \" \"",
  "<letter> ::= " ++ letters,
  "<digit> ::= " ++ digits]

def sqlLines : List String := [
  "<query> ::= \"SELECT \" <columns> \" FROM \" <table> [<where>] [<order>] \";\"",
  "<columns> ::= \"*\" | <column> \x7b\", \" <column>\x7d",
  "<column> ::= <identifier>",
  "<table> ::= <identifier>",
  "<where> ::= \" WHERE \" <condition> \x7b(\" AND \" | \" OR \") <condition>\x7d",
  "<condition> ::= <column> \" \" <operator> \" \" <value>",
  "<operator> ::= \"=\" | \">\" | \"<\" | \">=\" | \"<=\" | \"!=\" | \"LIKE\"",
  "<value> ::= <number> | \"'\" \x7b<letter> | <digit> | \" \"\x7d \"'\"",
  "<order> ::= \" ORDER BY \" <column> [\" ASC\" | \" DESC\"]",
  "<identifier> ::= <letter> \x7b<letter> | <digit> | \"_\"\x7d",
  "<number> ::= <digit>+",
  "<letter> ::= " ++ letters,
  "<digit> ::= " ++ digits]

def urlLines : List String := [
  "<url> ::= <scheme> \"://\" <host> [\":\" <port>] [<path>] [\"?\" <query>] [\"#\" <label>]",
  "<scheme> ::= \"http\" | \"https\" | \"ftp\" | \"file\"",
  "<host> ::= <label> \x7b\".\" <label>\x7d | <octet> \".\" <octet> \".\" <octet> \".\" <octet>",
  "<octet> ::= <digit> | <digit> <digit> | \"1\" <digit> <digit>",
  "<port> ::= <digit>+",
  "<path> ::= (\"/\" <label>)+",
  "<query> ::= <param> \x7b\"&\" <param>\x7d",
  "<param> ::= <label> \"=\" <label>",
  "<label> ::= <letter> \x7b<letter> | <digit> | \"-\"\x7d",
  "<letter> ::= " ++ letters,
  "<digit> ::= " ++ digits]

def arithmeticLines : List String := [
  "<expr> ::= <term> | <expr> \"+\" <term> | <expr> \"-\" <term>",
  "<term> ::= <factor> | <term> \"*\" <factor> | <term> \"/\" <factor>",
  "<factor> ::= <number> | \"(\" <expr> \")\" | \"-\" <factor>",
  "<number> ::= <digit> \x7b<digit>\x7d [\".\" <digit>+]",
  "<digit> ::= " ++ digits]

def csvLines : List String := [
  "<csv> ::= <record> \x7b\"\\n\" <record>\x7d",
  "<record> ::= <field> \x7b\",\" <field>\x7d",
  "<field> ::= \x7b<letter> | <digit> | \" \"\x7d | '\"' \x7b<letter> | <digit> | \",\" | \" \"\x7d '\"'",
  "<letter> ::= " ++ letters,
  "<digit> ::= " ++ digits]

def margin : String := "        "

def text (lines : List String) : String :=
  "\n" ++ String.join (lines.map fun line => margin ++ line ++ "\n") ++ margin

def texts : Entries String := [
  ("json", text jsonLines), ("xml", text xmlLines), ("sql", text sqlLines), ("url", text urlLines),
  ("arithmetic", text arithmeticLines), ("csv", text csvLines)]

def plain (alternatives : List String) : Json := .list (alternatives.map .text)

def singles (cs : String) : Json := .list (cs.toList.map fun c => .text (String.singleton c))

def jsonDictionary : Entries Json := [
  ("<start>", plain ["<assoc>"]),
  ("<value>", plain ["<assoc>", "<list>", "<bool>", "<string>", "<int>"]),
  ("<assoc>", plain ["\x7b(<string>: <value>, )*<string>: <value>\x7d"]),
  ("<list>", plain ["[(<value>, )*<value>]"]),
  ("<bool>", plain ["true", "false"]),
  ("<string>", plain ["\"<char>+\""]),
  ("<char>", singles "abcd"),
  ("<int>", .list [.text "<onenine><digit>*",
    .list [.text "0", .object [("weight", .number (.float 0.5))]]]),
  ("<onenine>", singles "123456789"),
  ("<digit>", singles "0123456789")]

def dictionaries : Entries (Entries Json) := [("json-ebnf", jsonDictionary)]

def names : List String := texts.keys ++ dictionaries.keys

def unknown (name : String) : Fault :=
  .missingName ("Unknown grammar: " ++ name ++ ". Available: [" ++
    ", ".intercalate (texts.keys.map Quoted.text) ++ "]")

def text? (name : String) : Except Fault String :=
  match texts.get? (Lowercase.lower name) with
  | some text => .ok text
  | none => .error (unknown name)

def load (name : String) : Report Fault Grammar :=
  let key := Lowercase.lower name
  match dictionaries.get? key with
  | some members => Dictionary.load members (.text Dictionary.startKey)
  | none => (Report.ofExcept (text? key)).bind fun text => GrammarText.load text none

end GrammarSampler.Builtin
