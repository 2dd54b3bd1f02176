import GrammarSampler.Entries
import GrammarSampler.Fault
import GrammarSampler.Files.Path

/-!
Access to files, and a store of files in memory that provides it.
-/
namespace GrammarSampler

/-- What a program may do with files. Appending makes a file that is missing, and a missing file
has no size. Directories are made with all their parents; making one that exists is no fault. -/
class FileAccess (m : Type → Type) where
  homes : m Path.Homes
  exists? : String → m Bool
  read : String → m (Except FileFault ByteArray)
  write : String → ByteArray → m (Except FileFault Unit)
  append : String → ByteArray → m (Except FileFault Unit)
  size : String → m Nat
  makeDirectories : String → m (Except FileFault Unit)
  move : String → String → m Unit

/-- Files by the places that their paths lead to. A directory is there when it was made or holds
something. -/
structure FileStore where
  files : Entries ByteArray
  directories : List String
  homes : Path.Homes

namespace FileStore

/-- What a path leads to: something blocks it where it goes on behind a file. -/
inductive Status where
  | file (bytes : ByteArray)
  | directory
  | absent
  | blocked
  | tooLong

def isDirectory (s : FileStore) (path : String) : Bool :=
  path == s.homes.own || path ∈ s.directories || (Path.parts path).all (· == "..") ||
    (s.files.keys ++ s.directories).any fun other => other.startsWith (path ++ "/")

def statusAt (s : FileStore) (path : String) : Status :=
  match s.files.get? path with
  | some bytes => .file bytes
  | none => if s.isDirectory path then .directory else .absent

def walk (s : FileStore) (root : String) (walked : List String) : List String → Status
  | [] => s.statusAt (Path.place root walked)
  | part :: rest =>
    match s.statusAt (Path.place root walked) with
    | .directory =>
      if Path.isPartTooLong part then .tooLong else walk s root (Path.step root walked part) rest
    | .file _ => .blocked
    | found => found

def endsInDot (path : String) : Bool := Path.lastPart (Path.withoutEndSlashes path) == "."

def status (s : FileStore) (path : String) : Status :=
  if path = "" then .absent
  else if Path.isTooLong path then .tooLong
  else
    match s.walk (Path.root path) [] (Path.parts path) with
    | .file bytes => if path.endsWith "/" || endsInDot path then .blocked else .file bytes
    | found => found

def isThere (s : FileStore) (path : String) : Bool :=
  match s.status path with
  | .file _ | .directory => true
  | _ => false

def hasDirectoryFor (s : FileStore) (path : String) : Bool :=
  match s.walk (Path.root path) [] (Path.parts path).dropLast with
  | .directory => path != ""
  | _ => false

def checkPath? (path : String) : Except FileFault Unit :=
  if '\x00' ∈ path.toList then .error .zeroInPath else .ok ()

def read (s : FileStore) (path : String) : Except FileFault ByteArray := do
  checkPath? path
  match s.status path with
  | .file bytes => .ok bytes
  | .directory => .error (.isADirectory path)
  | .absent => .error (.missing path)
  | .blocked => .error (.notADirectory path)
  | .tooLong => .error (.nameTooLong path)

/-- A path that ends with a separator is to lead to a directory. Where a file could be made, this
alone refuses it. -/
def namesDirectory (s : FileStore) (path : String) : Bool :=
  path.endsWith "/" && !endsInDot path && !Path.isTooLong path && s.hasDirectoryFor path

def write (s : FileStore) (path : String) (bytes : ByteArray) : Except FileFault FileStore := do
  checkPath? path
  let put : FileStore := { s with files := s.files.put (Path.collapse path) bytes }
  match s.status path with
  | .file _ => .ok put
  | .directory => .error (.isADirectory path)
  | .blocked => .error (if s.namesDirectory path then .isADirectory path else .notADirectory path)
  | .tooLong => .error (if s.namesDirectory path then .isADirectory path else .nameTooLong path)
  | .absent =>
    if endsInDot path || !s.hasDirectoryFor path then .error (.missing path)
    else if path.endsWith "/" then .error (.isADirectory path)
    else .ok put

def size (s : FileStore) (path : String) : Nat :=
  match s.status path with
  | .file bytes => bytes.size
  | _ => 0

def append (s : FileStore) (path : String) (bytes : ByteArray) : Except FileFault FileStore :=
  match s.status path with
  | .file old => s.write path (old ++ bytes)
  | _ => s.write path bytes

def bare (path : String) : String := if Path.lastPart path = "" then Path.parent path else path

/-- Makes one directory, unless it is there. Separators at the end of its path do not count. -/
def makeDirectory (s : FileStore) (path : String) : Except FileFault FileStore := do
  checkPath? path
  match s.status (bare path) with
  | .directory => .ok s
  | .file _ => .error (.exists path)
  | .blocked => .error (.notADirectory path)
  | .tooLong => .error (.nameTooLong path)
  | .absent =>
    if endsInDot path || !s.hasDirectoryFor path then .error (.missing path)
    else .ok { s with directories := Path.collapse path :: s.directories }

def attempt (change : FileStore → Except FileFault FileStore) : StateM FileStore (Except FileFault Unit) :=
  fun s =>
    match change s with
    | .ok s => (.ok (), s)
    | .error fault => (.error fault, s)

/-- Makes what is missing above a path before the path itself. A file in the place of a directory
above is no fault yet; a dot at the end names what was just made. -/
def makeDirectoriesFrom : Nat → String → FileStore → Except FileFault Unit × FileStore
  | 0, _, s => (.ok (), s)
  | fuel + 1, path, s =>
    let above := Path.parent (bare path)
    let last := Path.lastPart (bare path)
    let make := attempt fun s => s.makeDirectory path
    if above = "" ∨ last = "" ∨ s.isThere above then make s
    else
      match makeDirectoriesFrom fuel above s with
      | (.ok (), s) | (.error (.exists _), s) => if last = "." then (.ok (), s) else make s
      | refused => refused

def makeDirectories (path : String) (s : FileStore) : Except FileFault Unit × FileStore :=
  makeDirectoriesFrom (path.length + 1) path s

def move (s : FileStore) (source target : String) : FileStore :=
  match s.files.get? (Path.collapse source) with
  | none => s
  | some bytes =>
    let kept := s.files.filter fun (name, _) => name != Path.collapse source
    { s with files := Entries.put (Path.collapse target) bytes kept }

instance : FileAccess (StateM FileStore) where
  homes := fun s => (s.homes, s)
  exists? path := fun s => (s.isThere path, s)
  read path := fun s => (s.read path, s)
  write path bytes := attempt fun s => s.write path bytes
  append path bytes := attempt fun s => s.append path bytes
  size path := fun s => (s.size path, s)
  makeDirectories path := makeDirectories path
  move source target := fun s => ((), s.move source target)

end FileStore

namespace FileAccess
variable {m : Type → Type} [Monad m] [FileAccess m]

def universalLines : List Char → List Char
  | '\r' :: '\n' :: rest => '\n' :: universalLines rest
  | '\r' :: rest => '\n' :: universalLines rest
  | c :: rest => c :: universalLines rest
  | [] => []

def decode (bytes : ByteArray) : Except FileFault String :=
  match String.fromUTF8? bytes with
  | some text => .ok (String.ofList (universalLines text.toList))
  | none => .error .notText

def readText (path : String) : m (Except FileFault String) := do
  let bytes ← FileAccess.read path
  return bytes.bind decode

def writeText (path text : String) : m (Except FileFault Unit) := FileAccess.write path text.toUTF8

end FileAccess
end GrammarSampler
