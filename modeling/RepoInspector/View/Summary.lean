import RepoInspector.Model.DetailedRepository
import RepoInspector.Time.Pattern
import RepoInspector.View.Ink

namespace RepoInspector
namespace View

open Model

/-!
# Summaries

The summary of a repository has a line for each thing that is known of it, in
a fixed order.  Its merge methods can also be listed alone.
-/

/-- What is shown where there is nothing to show. -/
def nothing : Piece := .inked .dimmed "none"

def orNothing (text : Option String) : Piece :=
  match text with
  | some text => .plain text
  | none => nothing

/-- A label, with the pieces that it introduces. -/
def labelled (label : String) (pieces : Line) : Line :=
  .inked .dimmed label :: .plain ": " :: pieces

/-- A line below the header. -/
def entry (label : String) (pieces : Line) : Line :=
  .plain "  " :: labelled label pieces

def methodPiece (method : MergeMethod) : Piece := .inked .green method.name

/-- Merge methods on one line. -/
def methodList (methods : List MergeMethod) : Line :=
  if methods.isEmpty then [nothing]
  else separated (.plain ", ") (methods.map methodPiece)

/-- A number as it is shown. -/
def countText (n : UInt64) : String := toString n.toNat

def header (repository : Repository) : Line :=
  [.inked .boldCyan repository.fullName, .plain " (",
    if repository.isPrivate then .inked .yellow "private" else .inked .green "public",
    .plain ")"]

def organizationLine (organization : Organization) : Line :=
  entry "Organization"
    [.inked .boldWhite organization.displayName,
      .plain (" (" ++ organization.login ++ ")")]

/-- The four counts of a repository on one line. -/
def countsLine (detailed : DetailedRepository) : Line :=
  entry "Stars" [.plain (countText detailed.repository.stars)] ++
    .plain "  " :: labelled "Forks" [.plain (countText detailed.repository.forks)] ++
    .plain "  " :: labelled "Network" [orNothing (detailed.networkCount.map countText)] ++
    .plain "  " :: labelled "Subscribers" [orNothing (detailed.subscribersCount.map countText)]

/-- The names of the permissions that are granted. -/
def granted (permissions : Permissions) : List String :=
  (if permissions.admin then ["admin"] else []) ++
    (if permissions.push then ["push"] else []) ++
    (if permissions.pull then ["pull"] else [])

def permissionsLine (permissions : Permissions) : Line :=
  let names := granted permissions
  entry "Permissions"
    [.plain (if names.isEmpty then "none" else String.intercalate ", " names)]

/-- The name of a related repository. -/
def reference (repository : Repository) : Piece := .inked .cyan repository.fullName

/-- The source of a fork, unless it is the parent that is named already. -/
def distinctSource (detailed : DetailedRepository) : Option Repository :=
  detailed.source.filter fun source =>
    detailed.parent.all fun parent => parent.id != source.id

/-- A line for data that may be missing. -/
def lineFor (data : Option α) (line : α -> Line) : List Line :=
  match data with
  | some a => [line a]
  | none => []

/-- The summary of a repository, line by line. -/
def summary (detailed : DetailedRepository) : List Line :=
  let repository := detailed.repository
  [header repository] ++
    lineFor repository.description (fun text => entry "Description" [.plain text]) ++
    [entry "Owner" [.plain repository.ownerLogin]] ++
    lineFor detailed.organization organizationLine ++
    lineFor repository.defaultBranch (fun branch => entry "Default branch" [.plain branch]) ++
    (if repository.isArchived then [entry "Archived" [.inked .red "yes"]] else []) ++
    lineFor repository.pushedAt (fun pushed => entry "Pushed" [.inked .dimmed pushed.summary]) ++
    [countsLine detailed] ++
    lineFor detailed.base.permissions permissionsLine ++
    [entry "Merge methods" (methodList detailed.allowedMethods)] ++
    lineFor detailed.parent (fun parent => entry "Forked from" [reference parent]) ++
    lineFor (distinctSource detailed) (fun source => entry "Fork root" [reference source])

/-- Merge methods, one a line. -/
def methodLines (methods : List MergeMethod) : List Line :=
  if methods.isEmpty then [[nothing]] else methods.map fun method => [methodPiece method]

end View
end RepoInspector
