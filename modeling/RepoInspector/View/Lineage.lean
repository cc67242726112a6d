import RepoInspector.View.Summary

namespace RepoInspector
namespace View

open Json
open Model

/-!
# Lineage

The place of a repository in its fork network, by full names.
-/

/-- A repository, and what it was forked from. -/
structure Lineage where
  repository : String
  isFork : Bool
  parent : Option String
  source : Option String
deriving DecidableEq, Repr

namespace Lineage

def ofRepository (detailed : DetailedRepository) : Lineage where
  repository := detailed.repository.fullName
  isFork := detailed.repository.isFork
  parent := detailed.parent.map Repository.fullName
  source := detailed.source.map Repository.fullName

def lines (lineage : Lineage) : List Line :=
  [[.inked .boldCyan lineage.repository],
    entry "Parent" [orNothing lineage.parent],
    entry "Source" [orNothing lineage.source]]

def nameValue (name : Option String) : Value :=
  match name with
  | some name => .text name
  | none => .null

def toValue (lineage : Lineage) : Value :=
  .object
    [("repository", .text lineage.repository),
      ("fork", .boolean lineage.isFork),
      ("parent", nameValue lineage.parent),
      ("source", nameValue lineage.source)]

end Lineage

end View
end RepoInspector
