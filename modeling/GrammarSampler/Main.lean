import GrammarSampler.CommandLine.Program
import GrammarSampler.Console.Layout
import GrammarSampler.Tags.Reading
import Std.Time.Format

/-!
The program on a real machine.
-/
namespace GrammarSampler

def faultOf (path : String) : IO.Error → FileFault
  | .alreadyExists .. => .exists path
  | .inappropriateType _ code _ => if code = 20 then .notADirectory path else .isADirectory path
  | .invalidArgument .. => .nameTooLong path
  | _ => .missing path

def attempted {α : Type} (path : String) (act : IO α) : IO (Except FileFault α) := do
  if let .error fault := FileStore.checkPath? path then return .error fault
  try return .ok (← act)
  catch error => return .error (faultOf path error)

def orElse {α : Type} (act : IO α) (otherwise : α) : IO α := do
  try act
  catch _ => return otherwise

def account? (line : String) : Option (String × String) :=
  match line.splitOn ":" with
  | [name, _, _, _, _, home, _] => some (name, home)
  | _ => none

def accounts : IO (Entries String) := do
  return ((← IO.FS.lines "/etc/passwd").toList.filterMap account?)

instance : Machine IO where
  homes := do return ⟨(← IO.getEnv "HOME").getD "/", ← orElse accounts []⟩
  exists? path := orElse (do discard (IO.FS.realPath path); return true) false
  read path := attempted path (IO.FS.readBinFile path)
  write path bytes := attempted path (IO.FS.writeBinFile path bytes)
  append path bytes := attempted path (IO.FS.withFile path .append fun file => file.write bytes)
  size path := orElse (do return (← (← IO.FS.realPath path).metadata).byteSize.toNat) 0
  makeDirectories path := attempted path (IO.FS.createDirAll path)
  move source target := orElse (IO.FS.rename source target) ()
  print text := IO.print text
  logLine line := IO.eprintln line
  present sheet := sheet.lines.forM fun line => IO.eprintln line
  stamp := do return (← Std.Time.PlainDateTime.now).format "uuuu-MM-dd HH:mm:ss"
  seconds := do return Float.ofNat (← IO.monoNanosNow) / 1000000000.0
  entropy := do return (← IO.getRandomBytes 16).toList.foldl (fun n byte => 256 * n + (byte.toNat : Int)) 0

end GrammarSampler

open GrammarSampler in
def main (arguments : List String) : IO UInt32 := do
  let verdict : CommandLine.Verdict ← CommandLine.run arguments
  match verdict.exit with
  | .ok code => return code.toUInt32
  | .error fault =>
    IO.eprintln fault.message
    return 1
