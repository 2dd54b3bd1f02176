import GrammarSampler.Entries
import GrammarSampler.Text.Lowercase

/-!
Paths as texts: components, tidied spelling, suffix, limits of length, and the home directory behind
a tilde.
-/
namespace GrammarSampler.Path

def parts (path : String) : List String :=
  (path.splitOn "/").filter fun part => part != "" && part != "."

def isAbsolute (path : String) : Bool := path.startsWith "/"

def root (path : String) : String :=
  if path.startsWith "//" && !path.startsWith "///" then "//" else if isAbsolute path then "/" else ""

/-- Without empty and single-dot components; nothing at all is the current directory. -/
def tidy (path : String) : String :=
  let body := root path ++ "/".intercalate (parts path)
  if body = "" then "." else body

structure Homes where
  own : String
  accounts : Entries String
deriving DecidableEq, Repr

def Homes.of? (homes : Homes) (name : String) : Option String :=
  if name = "" then some homes.own else homes.accounts.get? name

def withoutEndSlashes (path : String) : String :=
  String.ofList (path.toList.reverse.dropWhile (· = '/')).reverse

def splitAccount? (path : String) : Option (String × String) :=
  match path.toList with
  | '~' :: rest =>
    some (String.ofList (rest.takeWhile (· ≠ '/')), String.ofList (rest.dropWhile (· ≠ '/')))
  | _ => none

/-- A tilde in front, with the name of an account behind it or not, stands for a home directory.
With a name that is not known it stays. -/
def expandHome (homes : Homes) (path : String) : String :=
  match splitAccount? path with
  | some (name, rest) =>
    match homes.of? name with
    | some home =>
      let place := withoutEndSlashes home ++ rest
      if place = "" then "/" else place
    | none => path
  | none => path

def locate? (homes : Homes) (path : String) : Option String :=
  let place := expandHome homes (tidy path)
  if place.startsWith "~" then none else some (tidy place)

def place (root : String) (walked : List String) : String := root ++ "/".intercalate walked

/-- One step up. Above the working directory nothing is known but that there are directories. -/
def up (root : String) (walked : List String) : List String :=
  if root = "" ∧ walked.all (· == "..") then walked ++ [".."] else walked.dropLast

def step (root : String) (walked : List String) (part : String) : List String :=
  if part = ".." then up root walked else walked ++ [part]

def collapse (path : String) : String :=
  let root := root path
  place root ((parts path).foldl (step root) [])

def settle (path : String) : String :=
  let found := collapse path
  if found = "" then "." else found

def sizeLimit : Nat := 4096

def partLimit : Nat := 255

def isTooLong (path : String) : Bool := decide (sizeLimit ≤ path.utf8ByteSize)

def isPartTooLong (part : String) : Bool := decide (partLimit < part.utf8ByteSize)

def baseName (path : String) : String := (parts path).getLastD ""

/-- The last dot of the base name and what follows it; a dot at either end makes no suffix. -/
def suffix (path : String) : String :=
  let name := (baseName path).toList
  let tail := name.reverse.takeWhile (· ≠ '.')
  if tail.length + 1 < name.length ∧ tail ≠ [] then String.ofList ('.' :: tail.reverse) else ""

def parent (path : String) : String :=
  let before := (path.toList.reverse.dropWhile (· ≠ '/')).reverse
  let trimmed := (before.reverse.dropWhile (· = '/')).reverse
  String.ofList (if trimmed.isEmpty then before else trimmed)

def lastPart (path : String) : String :=
  String.ofList (path.toList.reverse.takeWhile (· ≠ '/')).reverse

def join (directory name : String) : String :=
  if name.startsWith "/" || directory = "" then name
  else if directory.endsWith "/" then directory ++ name
  else directory ++ "/" ++ name

end GrammarSampler.Path
