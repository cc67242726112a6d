namespace RepoInspector
namespace Time

/-!
# Why a timestamp cannot be read
-/

/-- The reasons to refuse the text of a timestamp. -/
inductive Fault
  /-- A number does not fit its part of the timestamp, or the date does not exist. -/
  | outOfRange
  /-- The offset moves the instant out of the calendar. -/
  | impossible
  /-- A character stands where another kind is due. -/
  | invalid
  /-- The text ends too early. -/
  | tooShort
  /-- Something follows the timestamp. -/
  | tooLong
deriving DecidableEq

def Fault.message : Fault -> String
  | .outOfRange => "input is out of range"
  | .impossible => "no possible date and time matching input"
  | .invalid => "input contains invalid characters"
  | .tooShort => "premature end of input"
  | .tooLong => "trailing input"

end Time
end RepoInspector
