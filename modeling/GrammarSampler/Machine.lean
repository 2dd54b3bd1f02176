import GrammarSampler.Console.Sheet
import GrammarSampler.Files.Basic

/-!
What a run of the program may use: files, two output streams, the console, a clock and chance; and
a machine in memory that records what is done with it.
-/
namespace GrammarSampler

/-- Log lines go to the error stream; a stamp is a date and time of nineteen characters. -/
class Machine (m : Type → Type) extends FileAccess m where
  print : String → m Unit
  logLine : String → m Unit
  present : Sheet → m Unit
  stamp : m String
  seconds : m Float
  entropy : m Int

/-- The clock of a recorder stands still, and chance gives the same number again. -/
structure Recorder where
  store : FileStore
  printed : String
  logged : String
  presented : List Sheet
  time : String
  chance : Int

namespace Recorder

def start (store : FileStore) (time : String) : Recorder := ⟨store, "", "", [], time, 0⟩

def withFiles {α : Type} (act : StateM FileStore α) : StateM Recorder α := fun r =>
  let (a, store) := act r.store
  (a, { r with store := store })

instance : Machine (StateM Recorder) where
  homes := withFiles FileAccess.homes
  exists? path := withFiles (FileAccess.exists? path)
  read path := withFiles (FileAccess.read path)
  write path bytes := withFiles (FileAccess.write path bytes)
  append path bytes := withFiles (FileAccess.append path bytes)
  size path := withFiles (FileAccess.size path)
  makeDirectories path := withFiles (FileAccess.makeDirectories path)
  move source target := withFiles (FileAccess.move source target)
  print text := modify fun r => { r with printed := r.printed ++ text }
  logLine line := modify fun r => { r with logged := r.logged ++ line ++ "\n" }
  present sheet := modify fun r => { r with presented := r.presented ++ [sheet] }
  stamp := fun r => (r.time, r)
  seconds := fun r => (0.0, r)
  entropy := fun r => (r.chance, r)

end Recorder
end GrammarSampler
