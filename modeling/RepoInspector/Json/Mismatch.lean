import RepoInspector.Decimal.Shortest
import RepoInspector.Json.Value
import RepoInspector.Text.Quoted
import RepoInspector.Time.Fault

namespace RepoInspector
namespace Json

/-!
# Values that are not what their place asks for

A mismatch names what was found and what the place expects.  It is a cause
and not yet a report: where it is met in a document is for the reader to add.
-/

/-- What a value is, as far as a report tells it. -/
inductive Found
  | null
  | boolean (b : Bool)
  | natural (n : UInt64)
  | negative (n : Int64)
  | float (x : Float)
  | text (s : String)
  | sequence
  | map

/-- What a value is found to be. -/
def Value.found : Value -> Found
  | .null => .null
  | .boolean b => .boolean b
  | .number (.natural n) => .natural n
  | .number (.negative n) => .negative n
  | .number (.float x) => .float x
  | .text s => .text s
  | .array _ => .sequence
  | .object _ => .map

/-- What a place expects. -/
inductive Expectation
  | unsigned
  | text
  | boolean
  | timestamp
  | nothing
  | variant
  | singleEntry
  | record (name : String)
  | recordOf (name : String) (count : Nat)
  | sequenceOf (count : Nat)
  | shorterArray

/-- Why a value does not belong where it stands. -/
inductive Mismatch
  | wrongType (found : Found) (expected : Expectation)
  | wrongValue (found : Found) (expected : Expectation)
  | wrongLength (length : Nat) (expected : Expectation)
  | missing (name : String)
  | repeated (name : String)
  | unknownVariant (name : String) (known : List String)
  | timestamp (fault : Time.Fault)

def Found.message : Found -> String
  | .null => "null"
  | .boolean b => "boolean " ++ Text.marked (if b then "true" else "false")
  | .natural n => "integer " ++ Text.marked (toString n.toNat)
  | .negative n => "integer " ++ Text.marked (toString n.toInt)
  | .float x => "floating point " ++ Text.marked (Decimal.payload.text x)
  | .text s => "string " ++ Text.quote s
  | .sequence => "sequence"
  | .map => "map"

def Expectation.message : Expectation -> String
  | .unsigned => "u64"
  | .text => "a string"
  | .boolean => "a boolean"
  | .timestamp => "an RFC 3339 formatted date and time string"
  | .nothing => "unit"
  | .variant => "string or map"
  | .singleEntry => "map with a single key"
  | .record name => "struct " ++ name
  | .recordOf name count => "struct " ++ name ++ " with " ++ toString count ++ " elements"
  | .sequenceOf count =>
      toString count ++ (if count = 1 then " element" else " elements") ++ " in sequence"
  | .shorterArray => "fewer elements in array"

def Mismatch.message : Mismatch -> String
  | .wrongType found expected =>
      "invalid type: " ++ found.message ++ ", expected " ++ expected.message
  | .wrongValue found expected =>
      "invalid value: " ++ found.message ++ ", expected " ++ expected.message
  | .wrongLength length expected =>
      "invalid length " ++ toString length ++ ", expected " ++ expected.message
  | .missing name => "missing field " ++ Text.marked name
  | .repeated name => "duplicate field " ++ Text.marked name
  | .unknownVariant name known =>
      "unknown variant " ++ Text.marked name ++ ", expected one of " ++
        String.intercalate ", " (known.map Text.marked)
  | .timestamp fault => fault.message

end Json
end RepoInspector
