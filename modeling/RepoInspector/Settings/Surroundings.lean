import RepoInspector.Files.Disk

namespace RepoInspector
namespace Settings

open Files

/-!
# Surroundings

Whatever a run can observe besides its command line and its standard input:
variables, a working directory, whether it writes to a terminal, and what
stands under each path.
-/

structure Surroundings where
  /-- The variables by name. -/
  environment : List (String × String)
  /-- The working directory, which is absolute. -/
  directory : FilePath
  /-- The home directory by the account, where no variable names one. -/
  accountHome : Option FilePath
  /-- Whether what is shown goes to a terminal. -/
  terminal : Bool
  /-- What a path leads to from the working directory on. -/
  lookup : FilePath -> Entry

namespace Surroundings

/-- The value of a variable. -/
def valueOf? (surroundings : Surroundings) (name : String) : Option String :=
  (surroundings.environment.find? fun entry => entry.1 = name).map Prod.snd

/-- The home directory. -/
def home (surroundings : Surroundings) : Option FilePath :=
  match (surroundings.valueOf? "HOME").filter fun home => !home.isEmpty with
  | some home => some ⟨home⟩
  | none => surroundings.accountHome

/-- The directory for settings inside the home directory. -/
def homeSettings (surroundings : Surroundings) : Option FilePath :=
  surroundings.home.map fun home => home.join ⟨".config"⟩

/-- The directory for settings that the environment names. -/
def namedSettings (surroundings : Surroundings) : Option FilePath :=
  (surroundings.valueOf? "XDG_CONFIG_HOME").map FilePath.mk

/-- The settings file inside a directory for settings. -/
def settingsFile (directory : FilePath) : FilePath :=
  directory.inside ["ghrepo", "config.toml"]

/-- The settings file of the program.  A directory counts only if it is absolute. -/
def programFile (surroundings : Surroundings) : Option FilePath :=
  ((surroundings.namedSettings.filter FilePath.isAbsolute).or surroundings.homeSettings).map
    settingsFile

/-- The settings file of the user, in whichever directory is named. -/
def userFile (surroundings : Surroundings) : Option FilePath :=
  (surroundings.namedSettings.or surroundings.homeSettings).map settingsFile

/-- Add a path unless the same one is there. -/
def addPath (paths : List FilePath) (path : FilePath) : List FilePath :=
  if paths.any path.same then paths else paths ++ [path]

/-- The settings files that are looked for, in ascending order of what counts.
A file that is named explicitly is the only one. -/
def settingsFiles (surroundings : Surroundings) (explicit : Option FilePath) : List FilePath :=
  match explicit with
  | some path => [path]
  | none => (surroundings.programFile.toList ++ surroundings.userFile.toList).foldl addPath []

/-- The file under a relative path in the nearest directory above the working
directory that has one there, by its absolute path, and its bytes. -/
def fileAbove? (surroundings : Surroundings) (path : FilePath) :
    Option (FilePath × List UInt8) :=
  (FilePath.fromAbove surroundings.directory path).findSome? fun candidate =>
    (surroundings.lookup candidate).bytes?.map fun bytes => (candidate, bytes)

/-- The file that a path means, by its absolute path, and its bytes.  A
relative path that leads to none is also followed from the directories above. -/
def file? (surroundings : Surroundings) (path : FilePath) : Option (FilePath × List UInt8) :=
  match surroundings.lookup path with
  | .file bytes => some (surroundings.directory.join path, bytes)
  | _ => surroundings.fileAbove? path

end Surroundings
end Settings
end RepoInspector
