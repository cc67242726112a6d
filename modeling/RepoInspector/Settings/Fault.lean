import RepoInspector.Decimal.Shortest
import RepoInspector.Settings.Choice
import RepoInspector.Settings.Datum
import RepoInspector.Text.Quoted
import RepoInspector.Toml.Fault

namespace RepoInspector
namespace Settings

/-!
# Why settings cannot be used
-/

/-- What data is found to be. -/
inductive Found
  | scalar (scalar : Scalar)
  | sequence
  | map

def Datum.found : Datum -> Found
  | .scalar _ value => .scalar value
  | .sequence _ => .sequence
  | .map _ _ => .map

/-- What a place expects. -/
inductive Expected
  /-- A choice, by what it is called. -/
  | choice (kind : String)
  /-- A choice, where nothing tells which ones there are. -/
  | anyChoice
  | nothing
deriving DecidableEq, Repr

inductive Cause
  | wrongKind (found : Found) (expected : Expected)
  | unknownChoice (name : String) (known : List String)

/-- A cause, where it is met and where the data comes from. -/
structure ValueFault where
  cause : Cause
  key : List String
  source : Source

/-- Why one layer cannot be had. -/
inductive FileFault
  /-- The bytes of the file encode no text. -/
  | notText
  | grammar (place : Toml.Place)
deriving DecidableEq, Repr

inductive Fault
  /-- The file that is named explicitly does not exist. -/
  | missing (path : String)
  | file (shown : String) (fault : FileFault)
  | value (fault : ValueFault)

/-! ## Messages -/

def Scalar.message : Scalar -> String
  | .text s => "string " ++ Text.quote s
  | .character c => "string " ++ Text.quote (String.ofList [c])
  | .boolean b => "bool " ++ (if b then "true" else "false")
  | .natural n => "unsigned int " ++ Text.marked (toString n)
  | .integer n => "signed int " ++ Text.marked (toString n)
  | .float x => "float " ++ Text.marked (Decimal.plain.text x)

def Found.message : Found -> String
  | .scalar value => value.message
  | .sequence => "sequence"
  | .map => "map"

def Expected.message : Expected -> String
  | .choice kind => "enum " ++ kind
  | .anyChoice => "enum"
  | .nothing => "unit"

/-- Names of which one is expected. -/
def oneOf (names : List String) : String :=
  match names with
  | [a, b] => Text.marked a ++ " or " ++ Text.marked b
  | names => "one of " ++ String.intercalate ", " (names.map Text.marked)

def Cause.message : Cause -> String
  | .wrongKind found expected =>
      "invalid type: found " ++ found.message ++ ", expected " ++ expected.message
  | .unknownChoice name known =>
      "unknown variant: found " ++ Text.marked name ++ ", expected " ++ Text.marked (oneOf known)

/-- How a key is written where the data comes from. -/
def Source.keyText (source : Source) (key : List String) : String :=
  match source with
  | .file _ => String.intercalate "." ("default" :: key)
  | .environment => String.intercalate "." (key.map String.toUpper)

def Source.message : Source -> String
  | .file shown => shown ++ " TOML file"
  | .environment => Text.marked "GHREPO_" ++ " environment variable(s)"

def ValueFault.message (fault : ValueFault) : String :=
  fault.cause.message ++ " for key " ++ Text.quote (fault.source.keyText fault.key) ++
    " in " ++ fault.source.message

def FileFault.message (shown : String) : FileFault -> String
  | .notText => "stream did not contain valid UTF-8\n in " ++ (Source.file shown).message
  | .grammar place =>
      "TOML parse error at line " ++ toString place.line ++ ", column " ++ toString place.column

def Fault.message : Fault -> String
  | .missing path => "Config file not found: " ++ path
  | .file shown fault => "Failed to load config: " ++ fault.message shown
  | .value fault => "Failed to load config: " ++ fault.message

end Settings
end RepoInspector
