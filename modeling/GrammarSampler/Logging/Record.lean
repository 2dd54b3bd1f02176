import GrammarSampler.Logging.Level

/-!
Log records and the lines written for them: plain, coloured by level, or after a time stamp.
-/
namespace GrammarSampler

structure LogRecord where
  level : Int
  channel : String
  text : String
deriving DecidableEq, Repr

namespace LogRecord

def ofNotice (n : Notice) : LogRecord := ⟨n.severity.rank, n.channel, n.text⟩

def isOwn (r : LogRecord) : Bool :=
  r.channel == Channel.main || r.channel.startsWith (Channel.main ++ ".")

def label (r : LogRecord) : String := "[" ++ Level.name r.level ++ "]"

def body (r : LogRecord) : String := r.channel ++ " - " ++ r.text

def plain (r : LogRecord) : String := r.label ++ " " ++ r.body

def stamped (stamp : String) (r : LogRecord) : String := stamp ++ " " ++ r.plain

def escape (code : String) : String := "\x1b[" ++ code ++ "m"

def reset : String := escape "0"

def colors : List (Int × String) := [(10, "36"), (20, "32"), (30, "33"), (40, "31"), (50, "1;31")]

def color (level : Int) : String :=
  match colors.find? fun (value, _) => value == level with
  | some (_, code) => escape code
  | none => ""

def colored (r : LogRecord) : String :=
  let line := color r.level ++ r.label ++ reset ++ " " ++ r.body
  if line.endsWith reset then line else line ++ reset

end LogRecord
end GrammarSampler
