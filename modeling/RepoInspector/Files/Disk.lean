import RepoInspector.Files.Path

namespace RepoInspector
namespace Files

/-!
# What stands under a path

A disk is a set of files and directories by their names from the root.  A path
is followed name by name, and each name but the last has to lead to a
directory; that is why a path that passes through a directory and leaves it
again is not the same as one that does not enter it.  One name is no entry of
its own: it leads on to the directory in which the program works.
-/

/-- Why nothing can be had under a path. -/
inductive LookupFault
  | absent
  /-- A file stands where a directory is due. -/
  | notDirectory
  | nameTooLong
  | other (reason : String)
deriving DecidableEq, Repr

def LookupFault.message : LookupFault -> String
  | .absent => "No such file or directory (os error 2)"
  | .notDirectory => "Not a directory (os error 20)"
  | .nameTooLong => "File name too long (os error 36)"
  | .other reason => reason

/-- Why a directory gives no bytes. -/
def directoryReason : String := "Is a directory (os error 21)"

/-- What a path leads to. -/
inductive Entry
  | nothing (fault : LookupFault)
  | directory
  | file (bytes : List UInt8)
deriving DecidableEq, Repr

/-- Whether anything stands under a path. -/
def Entry.isPresent : Entry -> Bool
  | .nothing _ => false
  | _ => true

/-- What a file holds. -/
def Entry.bytes? : Entry -> Option (List UInt8)
  | .file bytes => some bytes
  | _ => none

/-- Files and directories by their names from the root.  The directories that
lead to an entry are there with it. -/
structure Disk where
  files : List (List String × List UInt8)
  directories : List (List String)
  /-- The names under which a program finds its own working directory, if the
  disk has any. -/
  ownDirectory : Option (List String) := some ["proc", "self", "cwd"]

namespace Disk

/-- The greatest number of bytes of a name. -/
def nameLimit : Nat := 255

def isDirectory (disk : Disk) (names : List String) : Bool :=
  names.isEmpty || disk.directories.any (names.isPrefixOf ·) ||
    disk.ownDirectory.any (names.isPrefixOf ·) ||
    disk.files.any fun file => names.isPrefixOf file.1 && file.1 != names

/-- What stands under a name in a directory. -/
def entry (disk : Disk) (names : List String) : Entry :=
  match disk.files.find? fun file => file.1 = names with
  | some file => .file file.2
  | none => if disk.isDirectory names then .directory else .nothing .absent

/-- The place of a name in the directory at a place. -/
def inside (disk : Disk) (working place : List String) (name : String) : List String :=
  let names := place ++ [name]
  if disk.ownDirectory = some names then working else names

/-- Follow names from a place on, in a program that works at another. -/
def follow (disk : Disk) (working : List String) : List String -> List String -> Entry
  | [], place => disk.entry place
  | name :: names, place =>
      match disk.entry place with
      | .nothing fault => .nothing fault
      | .file _ => .nothing .notDirectory
      | .directory =>
          if name = FilePath.here then disk.follow working names place
          else if name = FilePath.above then disk.follow working names place.dropLast
          else if nameLimit < name.utf8ByteSize then .nothing .nameTooLong
          else disk.follow working names (disk.inside working place name)

/-- What a path leads to from a directory on. -/
def lookup (disk : Disk) (directory path : FilePath) : Entry :=
  if path.text.isEmpty then .nothing .absent
  else
    let start := if path.isAbsolute then [] else directory.names
    let final := if path.endsInSeparator then [FilePath.here] else []
    disk.follow directory.names (path.written ++ final) start

end Disk
end Files
end RepoInspector
