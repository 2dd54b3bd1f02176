import GrammarSampler.Json.Convert
import GrammarSampler.Notice

/-!
Levels of log records. Levels are whole numbers, six of which have names; two names are synonyms.
-/
namespace GrammarSampler.Level

def names : List (String × Int) := [("CRITICAL", 50), ("ERROR", 40), ("WARNING", 30), ("INFO", 20),
  ("DEBUG", 10), ("NOTSET", 0)]

def synonyms : List (String × Int) := [("FATAL", 50), ("WARN", 30)]

def name (level : Int) : String :=
  match names.find? fun (_, value) => value == level with
  | some (found, _) => found
  | none => "Level " ++ toString level

def ofName? (name : String) : Option Int := Entries.get? name (names ++ synonyms)

def ofJson? : Json → Except Fault Int
  | .text name =>
    match ofName? name with
    | some level => .ok level
    | none => .error (.unknownLevel name)
  | .number n =>
    match n.split with
    | .inl level => .ok level
    | .inr _ => .error .wrongKind
  | _ => .error .wrongKind

end GrammarSampler.Level
