import RepoInspector.View.Lineage

namespace RepoInspector
namespace View

open Json
open Model

/-!
# Aspects

A repository is shown under three aspects: as a summary, by the merge methods
that it allows, and by its lineage.  Each has a text of lines and a document.
-/

/-- The forms in which data is shown. -/
inductive Format
  | text
  | json
deriving DecidableEq, Repr

inductive Aspect
  | summary
  | methods
  | lineage
deriving DecidableEq, Repr

namespace Aspect

def lines (aspect : Aspect) (detailed : DetailedRepository) : List Line :=
  match aspect with
  | .summary => View.summary detailed
  | .methods => methodLines detailed.allowedMethods
  | .lineage => (Lineage.ofRepository detailed).lines

def toValue (aspect : Aspect) (detailed : DetailedRepository) : Value :=
  match aspect with
  | .summary => DetailedRepository.codec.write detailed
  | .methods => .array (detailed.allowedMethods.map MergeMethod.toValue)
  | .lineage => (Lineage.ofRepository detailed).toValue

/-- A repository under an aspect and in a format, without a final line feed. -/
def render (aspect : Aspect) (format : Format) (colour : Bool)
    (detailed : DetailedRepository) : String :=
  match format with
  | .json => (aspect.toValue detailed).toText .pretty
  | .text => String.ofList (joinLines colour (aspect.lines detailed))

end Aspect
end View
end RepoInspector
