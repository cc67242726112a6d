import RepoInspector.Model.Payload
import RepoInspector.Settings.Config
import RepoInspector.View.Ink

namespace RepoInspector
namespace Program

open Files
open Json
open Model
open View

/-!
# Failures and their reports

A run that fails leaves one report, which names the causes from the outermost
to the innermost.
-/

/-- Where a payload comes from. -/
inductive Origin
  | input
  | file (path : FilePath)
deriving DecidableEq, Repr

def Origin.message : Origin -> String
  | .input => "on stdin"
  | .file path => "in " ++ path.text

inductive Failure
  | settings (fault : Settings.Fault)
  | opening (path : FilePath) (fault : LookupFault)
  | payload (origin : Origin) (error : PayloadError)

/-- What a payload error is about, without saying that it is one. -/
def causeMessage : PayloadError -> String
  | .parse fault => fault.message
  | .io reason => reason

/-- The causes of a failure, the outermost first. -/
def Failure.causes : Failure -> List String
  | .settings fault => [fault.message]
  | .opening path fault => ["Failed to open " ++ path.text, fault.message]
  | .payload origin error =>
      ["Invalid repository payload " ++ origin.message, error.message, causeMessage error]

def Failure.message (failure : Failure) : String :=
  String.intercalate ": " failure.causes

/-- The document that reports a failure. -/
def Failure.toValue (failure : Failure) : Value :=
  .object
    [("error", .boolean true), ("code", .text "error"), ("message", .text failure.message)]

/-- The line that reports a failure. -/
def Failure.line (failure : Failure) : Line :=
  [.inked .boldRed "Error", .plain (": " ++ failure.message)]

/-- The report of a failure, without a final line feed. -/
def Failure.render (format : Format) (colour : Bool) (failure : Failure) : String :=
  match format with
  | .json => failure.toValue.toText .pretty
  | .text => String.ofList (failure.line.chars colour)

end Program
end RepoInspector
