import RepoInspector.Model.MergeMethod
import RepoInspector.Model.Repository

namespace RepoInspector
namespace Model

open Record

/-!
# Detailed repositories

The full record of a repository.  Everything beyond the repository itself and
its permissions is optional: the merge settings are told only to readers who
may push and count as off otherwise, and a parent and a source exist only for
forks.
-/

structure DetailedRepository where
  base : PermittedRepository
  squashSetting : Option Bool := none
  mergeSetting : Option Bool := none
  rebaseSetting : Option Bool := none
  organization : Option Organization := none
  /-- The repository that this one was directly forked from. -/
  parent : Option Repository := none
  /-- The root of the fork network. -/
  source : Option Repository := none
  networkCount : Option UInt64 := none
  subscribersCount : Option UInt64 := none
deriving DecidableEq

namespace DetailedRepository

/-- The fields besides those of the repository and its permissions. -/
def fields : List Field :=
  [.optional "allow_squash_merge" .boolean,
    .optional "allow_merge_commit" .boolean,
    .optional "allow_rebase_merge" .boolean,
    .optional "organization" Organization.codec,
    .optional "parent" Repository.codec,
    .optional "source" Repository.codec,
    .optional "network_count" .unsigned,
    .optional "subscribers_count" .unsigned]

/-- The rows of all three layers, the outermost first. -/
abbrev Rows : Type :=
  Row fields × (Row PermittedRepository.fields × Row Repository.fields)

def ofRow : Rows -> DetailedRepository
  | ((squashSetting, mergeSetting, rebaseSetting, organization, parent, source, networkCount,
      subscribersCount, ()), base) =>
      { base := PermittedRepository.ofRow base, squashSetting, mergeSetting, rebaseSetting,
        organization, parent, source, networkCount, subscribersCount }

def toRow (repository : DetailedRepository) : Rows :=
  ((repository.squashSetting, repository.mergeSetting, repository.rebaseSetting,
    repository.organization, repository.parent, repository.source, repository.networkCount,
    repository.subscribersCount, ()), repository.base.toRow)

def codec : Codec DetailedRepository :=
  (Codec.extending "GitHubRepoDetailed" fields
    (interpretExtended .buffered PermittedRepository.fields
      (interpretRecord .buffered Repository.fields))
    (fun base => base.2.members ++ base.1.members)).through ofRow toRow

/-- A repository without any of the optional details. -/
def ofBase (base : PermittedRepository) : DetailedRepository := { base }

def withMergeSettings (repository : DetailedRepository) (squash merge rebase : Option Bool) :
    DetailedRepository :=
  { repository with squashSetting := squash, mergeSetting := merge, rebaseSetting := rebase }

def withOrganization (repository : DetailedRepository) (organization : Organization) :
    DetailedRepository :=
  { repository with organization := some organization }

def withLineage (repository : DetailedRepository) (parent source : Repository) :
    DetailedRepository :=
  { repository with parent := some parent, source := some source }

def withCounts (repository : DetailedRepository) (network subscribers : Option UInt64) :
    DetailedRepository :=
  { repository with networkCount := network, subscribersCount := subscribers }

/-- The repository itself, without permissions and details. -/
def repository (detailed : DetailedRepository) : Repository := detailed.base.repository

/-- Whether pull requests may be merged with a method.  An unknown setting
counts as off. -/
def allows (repository : DetailedRepository) : MergeMethod -> Bool
  | .merge => repository.mergeSetting.getD false
  | .squash => repository.squashSetting.getD false
  | .rebase => repository.rebaseSetting.getD false

/-- The methods that are allowed, in the order in which methods are listed. -/
def allowedMethods (repository : DetailedRepository) : List MergeMethod :=
  MergeMethod.all.filter repository.allows

/-- The top of the fork network as far as it is known. -/
def forkRoot (detailed : DetailedRepository) : Repository :=
  (detailed.source.or detailed.parent).getD detailed.repository

end DetailedRepository
end Model
end RepoInspector
