import RepoInspector.Program.Run

namespace RepoInspector
namespace Program

open Command
open Files
open Json
open Settings

/-!
# The program

What a run depends on is collected first: the environment, the working directory,
the contents of the relevant paths, and standard input where it is read.
-/

/-- Split at the first equals sign. -/
def splitAssignment (text : String) : Option (String × String) :=
  let name := text.toList.takeWhile (· != '=')
  match text.toList.drop name.length with
  | _ :: value => some (String.ofList name, String.ofList value)
  | [] => none

/-- The stretches of bytes between zeros. -/
def zeroSeparated (bytes : List UInt8) : List (List UInt8) :=
  bytes.foldr
    (fun byte stretches =>
      match byte == 0, stretches with
      | true, stretches => [] :: stretches
      | false, [] => [[byte]]
      | false, first :: others => (byte :: first) :: others)
    []

/-- The variables of an environment block. -/
def variablesOf (bytes : List UInt8) : List (String × String) :=
  (zeroSeparated bytes).filterMap fun stretch =>
    (String.fromUTF8? stretch.toByteArray).bind splitAssignment

/-- What stands under a path. -/
def find (path : FilePath) : IO Entry := do
  try
    let bytes ← IO.FS.readBinFile path.text
    return .file bytes.toList
  catch error =>
    match error with
    | .noFileOrDirectory _ _ _ => return .nothing .absent
    | .inappropriateType none _ _ => return .directory
    | .inappropriateType (some _) _ _ => return .nothing .notDirectory
    | .permissionDenied _ _ _ => return .nothing (.other "Permission denied (os error 13)")
    | error => return .nothing (.other (toString error))

/-- Read a stream to its end or to its failure. -/
partial def readSupply (stream : IO.FS.Stream) (before : ByteArray) : IO Supply := do
  try
    let bytes ← stream.read 65536
    if bytes.isEmpty then return ⟨before.toList, none⟩
    readSupply stream (before ++ bytes)
  catch error => return ⟨before.toList, some (toString error)⟩

/-- What stands under paths, as far as it was looked up. -/
def tabulated (found : List (FilePath × Entry)) (path : FilePath) : Entry :=
  match found.find? fun entry => entry.1 = path with
  | some entry => entry.2
  | none => .nothing .absent

/-- Look up what a run of an invocation depends on. -/
def gather (surroundings : Surroundings) (invocation : Invocation) :
    IO (Surroundings × Supply) := do
  let paths := relevantPaths surroundings invocation
  let found ← paths.mapM fun path => return (path, ← find path)
  let input ←
    if readsInput invocation then readSupply (← IO.getStdin) .empty
    else pure ⟨[], none⟩
  return ({ surroundings with lookup := tabulated found }, input)

/-- Carry out a command line. -/
def execute (words : List String) : IO Outcome := do
  let environment := variablesOf (← IO.FS.readBinFile "/proc/self/environ").toList
  let directory ← IO.currentDir
  let terminal ← (← IO.getStdout).isTty
  let surroundings : Surroundings :=
    { environment
      directory := ⟨directory.toString⟩
      accountHome := none
      terminal
      lookup := tabulated [] }
  let (surroundings, input) ←
    match invocationOf surroundings words with
    | .error _ => pure (surroundings, ⟨[], none⟩)
    | .ok invocation => gather surroundings invocation
  return run surroundings input words

end Program
end RepoInspector

/-- Write what a run leaves behind. -/
def main (words : List String) : IO UInt32 := do
  let outcome ← RepoInspector.Program.execute words
  IO.print outcome.output
  IO.eprint outcome.errors
  return UInt32.ofNat outcome.exitCode
