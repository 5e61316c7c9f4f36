import MethodPack.Text.Utf8

/-! Paths as text: names with slashes between them. A leading slash starts at the root;
an empty name and a single dot stay where they are, two dots go up. -/
namespace MethodPack.Path

/-- The names of a list of characters between its slashes, empty ones too. -/
def splitSlash : List Char → List (List Char)
  | [] => [[]]
  | c :: rest =>
    if c = '/' then [] :: splitSlash rest
    else match splitSlash rest with
      | [] => [[c]]
      | name :: names => (c :: name) :: names

/-- The names of a path in order, empty ones too. -/
def names (path : String) : List String := (splitSlash path.toList).map String.ofList

/-- Whether a path starts at the root. -/
def isAbsolute (path : String) : Bool := path.toList.head? == some '/'

/-- Whether a name stays where it is. -/
def staysPut (name : String) : Bool := name == "" || name == "."

/-- The names without those at the end that stay put. -/
def trimNames (names : List String) : List String := (names.reverse.dropWhile staysPut).reverse

/-- The directory in which a file with the given path is made: the path up to its last
name. Without names before that one it is the root or the working directory. -/
def directory (path : String) : String :=
  let kept := trimNames (names path)
  match trimNames kept.dropLast with
  | [] => if isAbsolute path && !kept.isEmpty then "/" else "."
  | parent => "/".intercalate parent

/-- The path of a name in a directory. -/
def join (directory name : String) : String :=
  if directory.toList.getLast? == some '/' then directory ++ name else directory ++ "/" ++ name

/-- The most bytes in a name. -/
def maxName : Nat := 255

/-- The most bytes in a path. -/
def maxPath : Nat := 4095

def fitsName (name : String) : Bool := (Text.toUtf8 name).length ≤ maxName

def fitsPath (path : String) : Bool := (Text.toUtf8 path).length ≤ maxPath

end MethodPack.Path
