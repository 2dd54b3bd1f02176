import GrammarSampler.Files.Basic

/-!
Log files of bounded size. Before a line would fill the file, the file is moved behind earlier
ones, of which a number is kept; without earlier ones nothing is moved and the file grows on.
-/
namespace GrammarSampler

structure Journal where
  path : String
  maxBytes : Int
  backups : Int
deriving DecidableEq, Repr

namespace Journal
variable {m : Type → Type} [Monad m] [FileAccess m]

def backupPath (j : Journal) (i : Nat) : String := j.path ++ "." ++ toString i

def prepare (j : Journal) : m (Except FileFault Unit) := FileAccess.append j.path ByteArray.empty

def isFull (j : Journal) (size : Nat) (line : String) : Bool :=
  decide (0 < j.maxBytes ∧ j.maxBytes ≤ size + line.length + 1)

def shift (j : Journal) : Nat → m Unit
  | 0 => pure ()
  | i + 1 => do
    FileAccess.move (j.backupPath (i + 1)) (j.backupPath (i + 2))
    shift j i

def rotate (j : Journal) : m Unit := do
  if 0 < j.backups then
    shift j (j.backups.toNat - 1)
    FileAccess.move j.path (j.backupPath 1)
  let _ ← j.prepare

/-- A line that cannot be written is lost. -/
def write (j : Journal) (line : String) : m Unit := do
  let size ← FileAccess.size j.path
  if j.isFull size line then j.rotate
  let _ ← FileAccess.append j.path (line ++ "\n").toUTF8

end Journal
end GrammarSampler
