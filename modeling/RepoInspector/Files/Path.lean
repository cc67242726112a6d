namespace RepoInspector
namespace Files

/-!
# Paths

A path is kept as it is written.  What it means is the sequence of its names:
repeated and final separators do not count, and a period counts only at the
front of a relative path.  A period for the parent directory is a name like
any other, because what it leads to depends on what is there.
-/

structure FilePath where
  text : String
deriving DecidableEq, Repr

namespace FilePath

def separator : Char := '/'

/-- The stretches of a text between separators. -/
def stretches : List Char -> List (List Char)
  | [] => [[]]
  | c :: rest =>
      if c = separator then [] :: stretches rest
      else
        match stretches rest with
        | [] => [[c]]
        | first :: others => (c :: first) :: others

def isAbsolute (path : FilePath) : Bool :=
  path.text.toList.head? = some separator

/-- The name of the directory in which it stands. -/
def here : String := "."

/-- The name of the directory above. -/
def above : String := ".."

/-- What is written between the separators, without what is empty. -/
def written (path : FilePath) : List String :=
  ((stretches path.text.toList).map String.ofList).filter fun name => !name.isEmpty

/-- The names of a path. -/
def names (path : FilePath) : List String :=
  let named := (fun name : String => name != here)
  match path.isAbsolute, path.written with
  | false, first :: others => first :: others.filter named
  | _, written => written.filter named

/-- Whether two paths have the same names. -/
def same (a b : FilePath) : Bool :=
  a.isAbsolute = b.isAbsolute && a.names = b.names

/-- Whether a path is written as a directory. -/
def endsInSeparator (path : FilePath) : Bool :=
  path.text.toList.getLast? = some separator

/-- A path from a directory on.  An absolute path stays what it is. -/
def join (directory path : FilePath) : FilePath :=
  if path.isAbsolute || directory.text.isEmpty then path
  else if directory.endsInSeparator then ⟨directory.text ++ path.text⟩
  else ⟨directory.text ++ "/" ++ path.text⟩

/-- A path inside a directory, by names. -/
def inside (directory : FilePath) (names : List String) : FilePath :=
  names.foldl (fun path name => path.join ⟨name⟩) directory

/-- The absolute path of names. -/
def ofNames (names : List String) : FilePath :=
  ⟨"/" ++ String.intercalate "/" names⟩

/-- What two lists have in common at the front, by length. -/
def commonLength : List String -> List String -> Nat
  | a :: as, b :: bs => if a = b then 1 + commonLength as bs else 0
  | _, _ => 0

/-- The names that lead from an absolute directory to an absolute path. -/
def relativeNames (directory path : FilePath) : List String :=
  let common := commonLength directory.names path.names
  List.replicate (directory.names.length - common) above ++ path.names.drop common

/-- An absolute path as it is shown: from the directory on where that takes
fewer names.  The root counts as a name of an absolute path. -/
def shown (directory path : FilePath) : String :=
  let relative := relativeNames directory path
  if relative.length < 1 + path.names.length then String.intercalate "/" relative
  else path.text

/-- The directory that is reached from the root by the first names of a directory. -/
def ancestor (directory : FilePath) (count : Nat) : FilePath :=
  ofNames (directory.names.take count)

/-- A relative path from each directory above a directory on, the nearest
directory first.  An absolute path is not looked for elsewhere. -/
def fromAbove (directory path : FilePath) : List FilePath :=
  if path.isAbsolute then []
  else
    (List.range directory.names.length).reverse.map fun count =>
      (directory.ancestor count).join path

end FilePath
end Files
end RepoInspector
