import RepoInspector.Model.Session
import RepoInspector.Proofs.Model.RoundTrip

namespace RepoInspector
namespace Model

open Json
open Record

/-!
# Runs of edits

A call fills in the details of one kind and leaves the others alone.  Calls of
different kinds therefore commute, a later call of a kind makes an earlier one
idle, and a run of calls comes to the last call of each kind.  A session also
starts again now and then.  What it holds is then determined by what it started
again from and by the calls since, whatever was there before.
-/

/-- The kinds of details that are filled in together. -/
inductive Detail
  | mergeSettings
  | organization
  | lineage
  | counts
deriving DecidableEq

/-- An edit that fills in details. -/
inductive Call
  | mergeSettings (squash merge rebase : Option Bool)
  | organization (organization : Organization)
  | lineage (parent source : Repository)
  | counts (network subscribers : Option UInt64)

namespace Call

def detail : Call -> Detail
  | .mergeSettings _ _ _ => .mergeSettings
  | .organization _ => .organization
  | .lineage _ _ => .lineage
  | .counts _ _ => .counts

def edit : Call -> Edit
  | .mergeSettings squash merge rebase => .mergeSettings squash merge rebase
  | .organization named => .organization named
  | .lineage parent source => .lineage parent source
  | .counts network subscribers => .counts network subscribers

end Call

namespace DetailedRepository

def call (detailed : DetailedRepository) : Call -> DetailedRepository
  | .mergeSettings squash merge rebase => detailed.withMergeSettings squash merge rebase
  | .organization organization => detailed.withOrganization organization
  | .lineage parent source => detailed.withLineage parent source
  | .counts network subscribers => detailed.withCounts network subscribers

/-- A repository after calls, one after the other. -/
def called (detailed : DetailedRepository) (calls : List Call) : DetailedRepository :=
  calls.foldl call detailed

theorem edit_call (detailed : DetailedRepository) (call : Call) :
    detailed.edit call.edit = detailed.call call := by
  cases call <;> rfl

/-!
## Normal form
-/

theorem call_comm (detailed : DetailedRepository) {first second : Call}
    (different : first.detail ≠ second.detail) :
    (detailed.call first).call second = (detailed.call second).call first := by
  cases first <;> cases second
  case mergeSettings.mergeSettings | organization.organization | lineage.lineage | counts.counts =>
    exact absurd rfl different
  all_goals rfl

/-- A later call replaces whatever an earlier one of its kind has filled in. -/
theorem call_replaces (detailed : DetailedRepository) {first second : Call}
    (same : first.detail = second.detail) :
    (detailed.call first).call second = detailed.call second := by
  cases first <;> cases second
  case mergeSettings.mergeSettings | organization.organization | lineage.lineage | counts.counts =>
    rfl
  all_goals cases same

/-- A call is idle when one of its kind follows. -/
theorem called_idle (detailed : DetailedRepository) {call : Call} {calls : List Call}
    (again : call.detail ∈ calls.map Call.detail) :
    (detailed.call call).called calls = detailed.called calls := by
  induction calls generalizing detailed with
  | nil => cases again
  | cons next calls inductionHypothesis =>
      by_cases same : call.detail = next.detail
      · exact congrArg (called · calls) (detailed.call_replaces same)
      · have later : call.detail ∈ calls.map Call.detail :=
          (List.mem_cons.mp again).resolve_left same
        change ((detailed.call call).call next).called calls = (detailed.call next).called calls
        rw [detailed.call_comm same]
        exact inductionHypothesis (detailed.call next) later

theorem called_keepLast (detailed : DetailedRepository) (calls : List Call) :
    detailed.called (keepLast Call.detail calls) = detailed.called calls := by
  induction calls generalizing detailed with
  | nil => rfl
  | cons call calls inductionHypothesis =>
      by_cases again : call.detail ∈ calls.map Call.detail
      · rw [keepLast, if_pos again, inductionHypothesis]
        exact (detailed.called_idle again).symm
      · rw [keepLast, if_neg again]
        exact inductionHypothesis (detailed.call call)

/-- Calls of distinct kinds can be made in any order. -/
theorem called_perm (detailed : DetailedRepository) {calls order : List Call}
    (distinct : (calls.map Call.detail).Nodup) (permuted : order.Perm calls) :
    detailed.called calls = detailed.called order := by
  apply permuted.symm.foldl_eq'
  intro first firstListed second secondListed between
  by_cases same : first.detail = second.detail
  · rw [List.inj_on_of_nodup_map distinct firstListed secondListed same]
  · exact between.call_comm same

/-- Only the last call of each kind counts, and of these not the order. -/
theorem called_normal (detailed : DetailedRepository) {calls order : List Call}
    (permuted : order.Perm (keepLast Call.detail calls)) :
    detailed.called calls = detailed.called order := by
  rw [← called_keepLast]
  exact detailed.called_perm (nodup_keepLast Call.detail calls) permuted

example (base : PermittedRepository) (organization : Organization) :
    (ofBase base).called [.counts (some 1) none, .organization organization, .counts none none] =
      (ofBase base).withOrganization organization := rfl

theorem base_called (detailed : DetailedRepository) (calls : List Call) :
    (detailed.called calls).base = detailed.base := by
  induction calls generalizing detailed with
  | nil => rfl
  | cons call calls inductionHypothesis =>
      have kept : (detailed.call call).base = detailed.base := by cases call <;> rfl
      exact (inductionHypothesis (detailed.call call)).trans kept

/-- A parent is named exactly where a source is. -/
def Paired (detailed : DetailedRepository) : Prop :=
  detailed.parent.isSome = detailed.source.isSome

theorem paired_called {detailed : DetailedRepository} (paired : detailed.Paired)
    (calls : List Call) : (detailed.called calls).Paired := by
  induction calls generalizing detailed with
  | nil => exact paired
  | cons call calls inductionHypothesis =>
      apply inductionHypothesis
      cases call with
      | lineage => rfl
      | mergeSettings | organization | counts => exact paired

theorem paired_ofBase (base : PermittedRepository) : (ofBase base).Paired := rfl

/-- The call that names a parent and a source. -/
def lineageCall? (detailed : DetailedRepository) : Option Call :=
  match detailed.parent, detailed.source with
  | some parent, some source => some (.lineage parent source)
  | _, _ => none

/-- Calls that fill in the details of a repository. -/
def callsTo (detailed : DetailedRepository) : List Call :=
  [.mergeSettings detailed.squashSetting detailed.mergeSetting detailed.rebaseSetting,
    .counts detailed.networkCount detailed.subscribersCount] ++
    (detailed.organization.map Call.organization).toList ++ detailed.lineageCall?.toList

theorem called_callsTo {detailed : DetailedRepository} (paired : detailed.Paired) :
    (ofBase detailed.base).called detailed.callsTo = detailed := by
  rcases detailed with ⟨base, squash, merge, rebase, organization, parent, source, network,
    subscribers⟩
  cases organization <;> cases parent <;> cases source
  case none.none.some | none.some.none | some.none.some | some.some.none => cases paired
  all_goals rfl

/-!
## Sessions
-/

/-- What an edit starts again from, when it drops the details. -/
def startsAgain? (detailed : DetailedRepository) : Edit -> Option PermittedRepository
  | .permissions permissions => some ⟨detailed.repository, permissions⟩
  | .rebaseOnRoot => some ⟨detailed.forkRoot, detailed.base.permissions⟩
  | .reset => some detailed.base
  | .mergeSettings _ _ _ | .organization _ | .lineage _ _ | .counts _ _ | .replace _ => none

theorem edit_of_startsAgain {detailed : DetailedRepository} {edit : Edit}
    {base : PermittedRepository} (again : detailed.startsAgain? edit = some base) :
    detailed.edit edit = ofBase base := by
  cases edit with
  | permissions | rebaseOnRoot | reset =>
      cases again
      rfl
  | mergeSettings | organization | lineage | counts | replace => cases again

/-- A repository after edits, one after the other. -/
def edited (detailed : DetailedRepository) (edits : List Edit) : DetailedRepository :=
  edits.foldl edit detailed

theorem edited_append (detailed : DetailedRepository) (edits later : List Edit) :
    detailed.edited (edits ++ later) = (detailed.edited edits).edited later :=
  List.foldl_append

theorem edited_calls (detailed : DetailedRepository) (calls : List Call) :
    detailed.edited (calls.map Call.edit) = detailed.called calls := by
  rw [edited, List.foldl_map, called]
  simp only [edit_call]

/-- The repository of a session after requests, one after the other. -/
def afterAll (detailed : DetailedRepository) (requests : List Request) : DetailedRepository :=
  requests.foldl after detailed

end DetailedRepository

/-- The edit that a result is, if it is one. -/
def editOf? : Except RequestError Outcome -> Option Edit
  | .ok (.edit edit) => some edit
  | _ => none

/-- The edit that a request comes to.  A round trip comes to none, because it
restores what it has written. -/
def Request.edit? (detailed : DetailedRepository) : Request -> Option Edit
  | .roundTrip => none
  | request => editOf? (request.outcome detailed)

namespace DetailedRepository

/-- The edits that the requests of a session come to. -/
def edits (detailed : DetailedRepository) : List Request -> List Edit
  | [] => []
  | request :: requests =>
      (request.edit? detailed).toList ++ (detailed.after request).edits requests

theorem after_roundTrip (detailed : DetailedRepository) :
    detailed.after .roundTrip = detailed := by
  have restored : ofStream (supplyOfText detailed.toJson) = .ok detailed :=
    asPayload_eq_ok_iff.mpr <| Codec.decode_encode codec_follows (Nat.le_refl _) codec_writes
      (by decide) .stream .pretty detailed
  simp only [after, Request.outcome, restored]
  rfl

theorem after_outcome (detailed : DetailedRepository) (request : Request) :
    detailed.after request = detailed.edited (editOf? (request.outcome detailed)).toList := by
  unfold after
  rcases request.outcome detailed with _ | _ | _ <;> rfl

/-- A request that comes to no edit leaves the repository as it is. -/
theorem after_eq (detailed : DetailedRepository) (request : Request) :
    detailed.after request = detailed.edited (request.edit? detailed).toList := by
  cases request with
  | roundTrip => exact detailed.after_roundTrip
  | mergeSettings | organization | lineage | counts | permissions | rebaseOnRoot | reset
  | parse | equals | allows => exact detailed.after_outcome _

theorem afterAll_eq (detailed : DetailedRepository) (requests : List Request) :
    detailed.afterAll requests = detailed.edited (detailed.edits requests) := by
  induction requests generalizing detailed with
  | nil => rfl
  | cons request requests inductionHypothesis =>
      rw [edits, edited_append, ← after_eq]
      exact inductionHypothesis (detailed.after request)

/-- What edits last started again from, and the calls since then.  Edits that
never do so are calls that follow the repository at their start. -/
inductive Since (start : DetailedRepository) : List Edit -> DetailedRepository -> List Call -> Prop
  | start (calls : List Call) : Since start (calls.map Call.edit) start calls
  /-- Without details, from a base of what was there before. -/
  | again (before : List Edit) {edit : Edit} {base : PermittedRepository}
      (dropped : (start.edited before).startsAgain? edit = some base) (calls : List Call) :
      Since start (before ++ edit :: calls.map Call.edit) (ofBase base) calls
  /-- From a repository that is read, with its details. -/
  | replaced (before : List Edit) (other : DetailedRepository) (calls : List Call) :
      Since start (before ++ .replace other :: calls.map Call.edit) other calls

/-- An edit is a call, or starts again in one of the two ways. -/
theorem edit_cases (detailed : DetailedRepository) (edit : Edit) :
    (Exists fun call : Call => edit = call.edit) ∨
      (Exists fun base => detailed.startsAgain? edit = some base) ∨
      Exists fun other => edit = .replace other := by
  cases edit with
  | mergeSettings squash merge rebase => exact .inl ⟨.mergeSettings squash merge rebase, rfl⟩
  | organization named => exact .inl ⟨.organization named, rfl⟩
  | lineage parent source => exact .inl ⟨.lineage parent source, rfl⟩
  | counts network subscribers => exact .inl ⟨.counts network subscribers, rfl⟩
  | permissions | rebaseOnRoot | reset => exact .inr (.inl ⟨_, rfl⟩)
  | replace other => exact .inr (.inr ⟨other, rfl⟩)

theorem exists_since (start : DetailedRepository) (edits : List Edit) :
    Exists fun origin => Exists fun calls => Since start edits origin calls := by
  induction edits generalizing start with
  | nil => exact ⟨start, [], .start []⟩
  | cons edit edits inductionHypothesis =>
      rcases inductionHypothesis (start.edit edit) with ⟨origin, calls, since⟩
      cases since with
      | start =>
          rcases start.edit_cases edit with ⟨call, rfl⟩ | ⟨base, dropped⟩ | ⟨other, rfl⟩
          · exact ⟨start, call :: calls, .start (call :: calls)⟩
          · exact ⟨ofBase base, calls, .again [] dropped calls⟩
          · exact ⟨other, calls, .replaced [] other calls⟩
      | again before dropped => exact ⟨_, calls, .again (edit :: before) dropped calls⟩
      | replaced before => exact ⟨origin, calls, .replaced (edit :: before) origin calls⟩

/-- A run of edits is the calls since it last started again. -/
theorem edited_since {start origin : DetailedRepository} {edits : List Edit} {calls : List Call}
    (since : Since start edits origin calls) : start.edited edits = origin.called calls := by
  cases since with
  | start => exact start.edited_calls calls
  | @again before edit base dropped =>
      rw [edited_append]
      change ((start.edited before).edit edit).edited (calls.map Call.edit) = _
      rw [edit_of_startsAgain dropped, edited_calls]
  | replaced before =>
      rw [edited_append]
      exact origin.edited_calls calls

theorem afterAll_append (detailed : DetailedRepository) (requests later : List Request) :
    detailed.afterAll (requests ++ later) = (detailed.afterAll requests).afterAll later :=
  List.foldl_append

/-- What a session holds depends only on what it last started again from and on
the last call of each kind since then. -/
structure SessionRun (start : DetailedRepository) (requests : List Request) : Prop where
  some_since : Exists fun origin => Exists fun calls =>
    Since start (start.edits requests) origin calls
  since : forall origin calls, Since start (start.edits requests) origin calls ->
    forall order : List Call, order.Perm (keepLast Call.detail calls) ->
      start.afterAll requests = origin.called order
  /-- A request that fails might as well not have been made. -/
  failing : forall before request later error, requests = before ++ request :: later ->
    request.outcome (start.afterAll before) = .error error ->
      start.afterAll requests = start.afterAll (before ++ later)

theorem sessionRun (start : DetailedRepository) (requests : List Request) :
    SessionRun start requests where
  some_since := start.exists_since (start.edits requests)
  since := by
    intro origin calls since order permuted
    rw [afterAll_eq, edited_since since]
    exact origin.called_normal permuted
  failing := by
    rintro before request later error rfl fails
    have unchanged : (start.afterAll before).after request = start.afterAll before := by
      rw [after_outcome, fails]
      rfl
    rw [afterAll_append, afterAll_append]
    exact congrArg (·.afterAll later) unchanged

/-- A run of calls on a repository without details. -/
structure CallRun (base : PermittedRepository) (calls : List Call) : Prop where
  /-- It comes to the last call of each kind, in any order. -/
  normal : forall order : List Call, order.Perm (keepLast Call.detail calls) ->
    (ofBase base).called calls = (ofBase base).called order
  base_kept : ((ofBase base).called calls).base = base
  paired : ((ofBase base).called calls).Paired

/-- What is kept when a repository is started again from its fork root. -/
structure RootKept (detailed : DetailedRepository) : Prop where
  root : (detailed.edit .rebaseOnRoot).forkRoot = detailed.forkRoot
  permissions : (detailed.edit .rebaseOnRoot).base.permissions = detailed.base.permissions
  again : (detailed.edit .rebaseOnRoot).edit .rebaseOnRoot = detailed.edit .rebaseOnRoot

/-- Runs of calls have a normal form, and reach just the repositories that name
a parent where they name a source.  Sessions have one from where they last
started again, and starting again from the fork root twice is doing it once. -/
theorem edits_normal_form :
    (forall base calls, CallRun base calls) ∧
    (forall detailed : DetailedRepository, detailed.Paired ↔
      Exists fun calls => (ofBase detailed.base).called calls = detailed) ∧
    (forall start requests, SessionRun start requests) ∧
    (forall detailed, RootKept detailed) := by
  refine ⟨fun base calls => ?calls, fun detailed => ⟨?reached, ?paired⟩, sessionRun,
    fun detailed => ?root⟩
  case calls =>
    exact
      { normal := fun _ permuted => (ofBase base).called_normal permuted
        base_kept := (ofBase base).base_called calls
        paired := paired_called (paired_ofBase base) calls }
  case reached => exact fun paired => ⟨detailed.callsTo, called_callsTo paired⟩
  case paired =>
    rintro ⟨calls, reached⟩
    rw [← reached]
    exact paired_called (paired_ofBase detailed.base) calls
  case root => exact ⟨rfl, rfl, rfl⟩

end DetailedRepository
end Model
end RepoInspector
