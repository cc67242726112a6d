import RepoInspector.Proofs.Model.Changes
import RepoInspector.Proofs.Time.Acceptance

namespace RepoInspector
namespace Model

open Json
open Record
open Time

/-!
# Timestamps of repositories

A repository tells when it was created, updated and pushed to.  A payload that
has one of these members is read as the payload without it, together with the
instant that the member denotes.  So a timestamp can be judged by its text
alone: no other member has a say in it, and it has none in theirs.
-/

/-- The members of a repository that are timestamps. -/
inductive Moment
  | created
  | updated
  | pushed
deriving DecidableEq

namespace Moment

def name : Moment -> String
  | .created => "created_at"
  | .updated => "updated_at"
  | .pushed => "pushed_at"

def get (moment : Moment) (repository : Repository) : Option Instant :=
  match moment with
  | .created => repository.createdAt
  | .updated => repository.updatedAt
  | .pushed => repository.pushedAt

/-- A repository with another instant, or with none. -/
def set (moment : Moment) (data : Option Instant) (repository : Repository) : Repository :=
  { repository with
    createdAt := if moment = .created then data else repository.createdAt
    updatedAt := if moment = .updated then data else repository.updatedAt
    pushedAt := if moment = .pushed then data else repository.pushedAt }

def setPermitted (moment : Moment) (data : Option Instant) (permitted : PermittedRepository) :
    PermittedRepository :=
  { permitted with repository := moment.set data permitted.repository }

def setDetailed (moment : Moment) (data : Option Instant) (detailed : DetailedRepository) :
    DetailedRepository :=
  { detailed with base := moment.setPermitted data detailed.base }

theorem get_set (moment : Moment) (data : Option Instant) (repository : Repository) :
    moment.get (moment.set data repository) = data := by
  cases moment <;> rfl

/-- An instant that is put back leaves nothing of another one. -/
theorem set_get (moment : Moment) (data : Option Instant) (repository : Repository) :
    moment.set (moment.get repository) (moment.set data repository) = repository := by
  cases moment <;> rfl

end Moment

/-!
## What members mean when others change
-/

section Unchanged

variable {α : Type} {name : String} {means : Form -> α -> Prop}
  {entries others : List (String × Form)}

theorem Required.of_named (same : named name others = named name entries) {a : α}
    (told : Required name means entries a) : Required name means others a := by
  rw [Required, same]
  exact told

theorem Defaulted.of_named (same : named name others = named name entries) {default a : α}
    (told : Defaulted name default means entries a) : Defaulted name default means others a := by
  rw [Defaulted, Required, same]
  exact told

theorem Optional.of_named (same : named name others = named name entries) {data : Option α}
    (told : Optional name means entries data) : Optional name means others data := by
  rw [Optional, same]
  exact told

end Unchanged

/-- What entries tell a model has an instant of its own in it: the member of
that instant decides it, and nothing else in the model depends on that member. -/
structure Dated {α : Type} (moment : Moment) (told : List (String × Form) -> α -> Prop)
    (get : α -> Option Instant) (set : Option Instant -> α -> α) : Prop where
  reads : forall {entries : List (String × Form)} {a : α}, told entries a ->
    Optional moment.name IsInstant entries (get a)
  changes : forall {entries others : List (String × Form)} {data : Option Instant} {a : α},
    told entries a -> (forall name, name ≠ moment.name ->
      named name others = named name entries) ->
        Optional moment.name IsInstant others data -> told others (set data a)
  restores : forall data a, set (get a) (set data a) = a

section Dated

variable {moment : Moment}

theorem Repository.dated : Dated moment (fun entries repository => Told entries repository)
    moment.get moment.set where
  reads told := by
    cases moment with
    | created => exact told.createdAt
    | updated => exact told.updatedAt
    | pushed => exact told.pushedAt
  changes := by
    intro entries others data repository told same isData
    have other : forall {name}, name ∉ [Moment.created.name, Moment.updated.name,
        Moment.pushed.name] -> named name others = named name entries := by
      intro name plain
      refine same name fun isMoment => plain (isMoment ▸ ?_)
      cases moment <;> decide
    have dates : forall date : Moment, Optional date.name IsInstant entries
        (date.get repository) -> Optional date.name IsInstant others
          (if moment = date then data else date.get repository) := by
      intro date isDate
      split
      case isTrue isMoment => exact isMoment ▸ isData
      case isFalse different =>
        refine isDate.of_named (same date.name fun sameName => different ?_)
        cases moment <;> cases date <;> first | rfl | exact absurd sameName (by decide)
    exact
      { id := told.id.of_named (other (by decide))
        name := told.name.of_named (other (by decide))
        fullName := told.fullName.of_named (other (by decide))
        description := told.description.of_named (other (by decide))
        isPrivate := told.isPrivate.of_named (other (by decide))
        isFork := told.isFork.of_named (other (by decide))
        isArchived := told.isArchived.of_named (other (by decide))
        owner := told.owner.of_named (other (by decide))
        htmlUrl := told.htmlUrl.of_named (other (by decide))
        url := told.url.of_named (other (by decide))
        cloneUrl := told.cloneUrl.of_named (other (by decide))
        sshUrl := told.sshUrl.of_named (other (by decide))
        defaultBranch := told.defaultBranch.of_named (other (by decide))
        stars := told.stars.of_named (other (by decide))
        forks := told.forks.of_named (other (by decide))
        createdAt := dates .created told.createdAt
        updatedAt := dates .updated told.updatedAt
        pushedAt := dates .pushed told.pushedAt }
  restores data repository := moment.set_get data repository

theorem PermittedRepository.dated : Dated moment
    (fun entries permitted => Told entries permitted)
    (fun permitted => moment.get permitted.repository) moment.setPermitted where
  reads told := Repository.dated.reads told.repository
  changes := by
    intro entries others data permitted told same isData
    have different : "permissions" ≠ moment.name := by cases moment <;> decide
    exact
      { repository := Repository.dated.changes told.repository same isData
        permissions := told.permissions.of_named (same _ different) }
  restores data permitted :=
    congrArg (PermittedRepository.mk · permitted.permissions)
      (moment.set_get data permitted.repository)

theorem DetailedRepository.dated : Dated moment
    (fun entries detailed => Told entries detailed)
    (fun detailed => moment.get detailed.repository) moment.setDetailed where
  reads told := PermittedRepository.dated.reads told.base
  changes := by
    intro entries others data detailed told same isData
    have own : ∀ name ∈ ownNames, named name others = named name entries := by
      intro name listed
      refine same name fun isMoment => ?_
      rw [isMoment] at listed
      cases moment <;> exact absurd listed (by decide)
    exact
      { base := PermittedRepository.dated.changes told.base same isData
        squashSetting := told.squashSetting.of_named (own _ (by decide))
        mergeSetting := told.mergeSetting.of_named (own _ (by decide))
        rebaseSetting := told.rebaseSetting.of_named (own _ (by decide))
        organization := told.organization.of_named (own _ (by decide))
        parent := told.parent.of_named (own _ (by decide))
        source := told.source.of_named (own _ (by decide))
        networkCount := told.networkCount.of_named (own _ (by decide))
        subscribersCount := told.subscribersCount.of_named (own _ (by decide)) }
  restores data detailed :=
    congrArg (fun base => { detailed with base })
      (PermittedRepository.dated.restores data detailed.base)

end Dated

/-!
## Payloads with and without a timestamp
-/

/-- The members of an object besides a timestamp. -/
def besides (moment : Moment) (entries : List (String × Form)) : List (String × Form) :=
  entries.filter fun entry => entry.1 ≠ moment.name

section Besides

variable {moment : Moment} {entries : List (String × Form)}

theorem named_besides {name : String} (different : name ≠ moment.name) :
    named name (besides moment entries) = named name entries := by
  induction entries with
  | nil => rfl
  | cons entry entries inductionHypothesis =>
      by_cases isMoment : entry.1 = moment.name
      · have dropped : besides moment (entry :: entries) = besides moment entries :=
          List.filter_cons_of_neg (by simpa using isMoment)
        rw [dropped, inductionHypothesis, named_cons,
          if_neg fun same => different (same.symm.trans isMoment)]
      · have kept : besides moment (entry :: entries) = entry :: besides moment entries :=
          List.filter_cons_of_pos (by simpa using isMoment)
        rw [kept, named_cons, named_cons, inductionHypothesis]

theorem named_besides_self : named moment.name (besides moment entries) = [] := by
  refine named_eq_nil fun entry listed => ?_
  exact of_decide_eq_true (List.mem_filter.mp listed).2

/-- A text has one meaning, which is not null. -/
theorem IsText.unique {form : Form} {s t : String} (isText : IsText form s)
    (again : IsText form t) : s = t := by
  rcases isText with ⟨pieces, rfl, denoted⟩
  rcases again with ⟨_, same, alsoDenoted⟩
  cases same
  exact Option.some.inj (denoted.symm.trans alsoDenoted)

theorem IsText.ne_null {form : Form} {s : String} (isText : IsText form s) : form ≠ .null := by
  rcases isText with ⟨pieces, rfl, _⟩
  exact nofun

variable {α : Type} {told : List (String × Form) -> α -> Prop} {get : α -> Option Instant}
  {set : Option Instant -> α -> α} {form : Form} {spelled : String}

/-- What entries with a timestamp tell is what the others tell, and an instant. -/
theorem Dated.told_iff (dated : Dated moment told get set)
    (alone : named moment.name entries = [form])
    (isText : IsText form spelled) {a : α} :
    told entries a ↔ Exists fun plain => Exists fun instant =>
      told (besides moment entries) plain ∧ Instant.ofText spelled = .ok instant ∧
        a = set (some instant) plain := by
  constructor
  · intro isTold
    rcases dated.reads isTold with
      ⟨absent, _⟩ | ⟨isNull, _⟩ | ⟨found, _, again, instant, meant, isSome⟩
    · rw [alone] at absent
      cases absent
    · cases alone.symm.trans isNull
      exact absurd rfl isText.ne_null
    · cases alone.symm.trans again
      rcases meant with ⟨s, alsoText, isRead⟩
      refine ⟨set none a, instant, ?_, isText.unique alsoText ▸ isRead, ?_⟩
      · exact dated.changes isTold (fun name different => named_besides different)
          (.inl ⟨named_besides_self, rfl⟩)
      · rw [isSome, dated.restores]
  · intro given
    rcases given with ⟨plain, instant, isTold, isRead, rfl⟩
    refine dated.changes isTold (fun name different => (named_besides different).symm) ?_
    exact .inr (.inr ⟨form, isText.ne_null, alone, instant, ⟨spelled, isText, isRead⟩, rfl⟩)

/-- How a model is read from an object: some of the entries have to meet a
need, and together they tell it. -/
def ReadsEntries (decode : Way -> Supply -> Except DocumentFault α)
    (needs : String × Form -> Prop) (told : List (String × Form) -> α -> Prop) : Prop :=
  forall {way : Way} {text : String} {entries : List (String × Form)} {a : α}, way ≠ .settled ->
    IsObject text entries ->
      (decode way (supplyOfText text) = .ok a ↔ (∀ entry ∈ entries, needs entry) ∧ told entries a)

/-- A text with a timestamp is read, as a text or as a stream, just when the
text without it is and the timestamp denotes an instant.  The instant is all
that it adds. -/
def TimestampRead (decode : Way -> Supply -> Except DocumentFault α)
    (set : Option Instant -> α -> α) (written : Written) (text bare : String) : Prop :=
  forall way, way ≠ .settled -> forall a, decode way (supplyOfText text) = .ok a ↔
    Exists fun plain => Exists fun instant => decode way (supplyOfText bare) = .ok plain ∧
      written.Denotes instant ∧ a = set (some instant) plain

variable {decode : Way -> Supply -> Except DocumentFault α} {needs : String × Form -> Prop}
  {text bare : String} {written : Written}

theorem timestampRead (dated : Dated moment told get set) (reads : ReadsEntries decode needs told)
    (isObject : IsObject text entries) (alone : named moment.name entries = [form])
    (isText : IsText form spelled) (meets : needs (moment.name, form))
    (without : IsObject bare (besides moment entries))
    (isSpelled : written.Spelled spelled.toList) :
    TimestampRead decode set written text bare := by
  intro way direct a
  have needs_iff : (∀ entry ∈ entries, needs entry) ↔
      ∀ entry ∈ besides moment entries, needs entry := by
    constructor
    · exact fun all entry listed => all entry (List.mem_of_mem_filter listed)
    · intro all entry listed
      by_cases isMoment : entry.1 = moment.name
      · have isForm : entry.2 ∈ named moment.name entries := mem_named.mpr (isMoment ▸ listed)
        rw [alone] at isForm
        rw [show entry = (moment.name, form) from
          Prod.ext isMoment (List.mem_singleton.mp isForm)]
        exact meets
      · exact all entry (List.mem_filter.mpr ⟨listed, by simpa using isMoment⟩)
  rw [reads direct isObject, needs_iff, dated.told_iff alone isText]
  constructor
  · intro given
    rcases given with ⟨all, plain, instant, isTold, isRead, same⟩
    exact ⟨plain, instant, (reads direct without).mpr ⟨all, isTold⟩,
      (Instant.ofText_spelled isSpelled).mp isRead, same⟩
  · intro given
    rcases given with ⟨plain, instant, accepted, denotes, same⟩
    rcases (reads direct without).mp accepted with ⟨all, isTold⟩
    exact ⟨all, plain, instant, isTold, (Instant.ofText_spelled isSpelled).mpr denotes, same⟩

/-- Entries are all that is read of an object. -/
theorem readsEntries_of_readsForms {means : Form -> α -> Prop}
    (reads : Codec.ReadsForms decode means)
    (object_iff : forall {members a}, means (.object members) a ↔ Exists fun entries =>
      Form.Keyed members entries ∧ (∀ entry ∈ entries, needs entry) ∧ told entries a) :
    ReadsEntries decode needs told := by
  intro way text entries a direct isObject
  rcases isObject with ⟨members, written, keyed⟩
  have form_iff : decode way (supplyOfText text) = .ok a ↔ means (.object members) a := by
    cases way with
    | text => exact reads.text.trans (Form.exists_written_iff written)
    | stream => exact reads.stream.trans (Form.exists_written_iff written)
    | settled => exact absurd rfl direct
  rw [form_iff, object_iff, keyed.exists_iff]

end Besides

theorem Repository.readsEntries : ReadsEntries codec.decode (fun _ => True)
    (fun entries repository => Told entries repository) := by
  apply readsEntries_of_readsForms (codec_follows.readsForms (by decide))
  intro members repository
  refine listed_object_iff.trans (exists_congr fun entries => and_congr_right fun _ => ?_)
  exact (and_iff_right fun _ _ => trivial).symm

theorem PermittedRepository.readsEntries : ReadsEntries codec.decode
    (fun entry => entry.1 ∉ ownNames -> entry.2.Decodes (nestingAllowance - 1))
    (fun entries permitted => Told entries permitted) :=
  readsEntries_of_readsForms (codec_follows.readsForms (Nat.le_refl _)) layered_object_iff

theorem DetailedRepository.readsEntries : ReadsEntries codec.decode
    (fun entry => entry.1 ∉ ownNames -> entry.2.Decodes (nestingAllowance - 1))
    (fun entries detailed => Told entries detailed) :=
  readsEntries_of_readsForms (codec_follows.readsForms (Nat.le_refl _)) layered_object_iff

/-- What `TimestampRead` says, for every model that has timestamps. -/
structure ModelsReadTimestamp (moment : Moment) (written : Written) (text bare : String) :
    Prop where
  repository : TimestampRead Repository.codec.decode moment.set written text bare
  permittedRepository : TimestampRead PermittedRepository.codec.decode moment.setPermitted written
    text bare
  detailedRepository : TimestampRead DetailedRepository.codec.decode moment.setDetailed written
    text bare
  payload : forall medium detailed, DetailedRepository.ofMedium medium text = .ok detailed ↔
    Exists fun plain => Exists fun instant => DetailedRepository.ofMedium medium bare = .ok plain ∧
      written.Denotes instant ∧ detailed = moment.setDetailed (some instant) plain

theorem ofMedium_eq_ok_iff {medium : Medium} {text : String} {detailed : DetailedRepository} :
    DetailedRepository.ofMedium medium text = .ok detailed ↔
      DetailedRepository.codec.decode (if medium = .text then .text else .stream)
        (supplyOfText text) = .ok detailed := by
  cases medium <;> exact asPayload_eq_ok_iff

/-- A text in a timestamp's member is judged by what it spells, in every layer
and however the payload is supplied: if it spells a timestamp, the payload is
read just when it is without the member and the timestamp denotes an instant,
and then the instant is all that the member adds.  A timestamp denotes the
instant that comes before its local time by its offset, unless a part of it
does not exist or that instant is beyond the calendar.  And only texts that
spell timestamps are accepted. -/
theorem timestamps_read (moment : Moment) {text bare spelled : String}
    {entries : List (String × Form)} {form : Form} (isObject : IsObject text entries)
    (alone : named moment.name entries = [form]) (isText : IsText form spelled)
    (without : IsObject bare (besides moment entries)) :
    (forall written : Written, written.Spelled spelled.toList ->
      ModelsReadTimestamp moment written text bare ∧
      ((Exists fun instant => written.Denotes instant) ↔
        written.Valid ∧ Written.Representable written.minutes)) ∧
    (forall medium detailed, DetailedRepository.ofMedium medium text = .ok detailed ->
      Exists fun written : Written => written.Spelled spelled.toList ∧
        Exists fun instant => written.Denotes instant ∧
          moment.get detailed.repository = some instant) := by
  have decodes : form.Decodes (nestingAllowance - 1) := by
    rcases isText with ⟨pieces, rfl, denoted⟩
    exact ⟨_, .text denoted⟩
  constructor
  · intro written isSpelled
    have detailed : TimestampRead DetailedRepository.codec.decode moment.setDetailed written text
        bare := timestampRead DetailedRepository.dated DetailedRepository.readsEntries isObject
      alone isText (fun _ => decodes) without isSpelled
    refine ⟨?_, Written.exists_denotes_iff isSpelled.nanosecond_lt⟩
    exact
      { repository := timestampRead Repository.dated Repository.readsEntries isObject alone isText
          trivial without isSpelled
        permittedRepository := timestampRead PermittedRepository.dated
          PermittedRepository.readsEntries isObject alone isText (fun _ => decodes) without
            isSpelled
        detailedRepository := detailed
        payload := by
          intro medium found
          simp only [ofMedium_eq_ok_iff]
          refine detailed _ ?_ found
          cases medium <;> decide }
  · intro medium detailed accepted
    have told : detailed.Told entries := by
      refine ((DetailedRepository.readsEntries ?_ isObject).mp (ofMedium_eq_ok_iff.mp accepted)).2
      cases medium <;> decide
    rcases (DetailedRepository.dated.told_iff alone isText).mp told with
      ⟨plain, instant, _, isRead, rfl⟩
    rcases Instant.exists_spelled isRead with ⟨written, isSpelled, denotes⟩
    exact ⟨written, isSpelled, instant, denotes, moment.get_set (some instant) plain.repository⟩

/-- The last leap second of a leap day, half an hour behind universal time. -/
def leapSpelling : String := " 2020-2-29t 23:59:60.1234567899 \u221200 30 "

def leapWritten : Written where
  year := 2020
  month := 2
  day := 29
  hour := 23
  minute := 59
  second := 60
  nanosecond := 123456789
  offset := -30

/-- In universal time it is a day later, and March. -/
def leapInstant : Instant := ⟨⟨2020, 3, 1, by decide⟩, ⟨0, 29, 60, 123456789⟩⟩

/-- The entries of a payload without timestamps. -/
def plainEntries : List (String × Form) :=
  [("id", .number (numeralOf 1)), ("name", .text (Piece.ofText "a")),
    ("full_name", .text (Piece.ofText "o/a")), ("owner", .object DetailedRepository.loginMembers)]

/-- The members that some entries are written as. -/
def membersOf (entries : List (String × Form)) : List (List Piece × Form) :=
  entries.map fun entry => memberOf entry.1 entry.2

theorem keyed_membersOf (entries : List (String × Form)) :
    Form.Keyed (membersOf entries) entries := by
  induction entries with
  | nil => exact .nil
  | cons entry entries inductionHypothesis =>
      exact .cons (Piece.denoted?_ofText entry.1) inductionHypothesis

/-- A payload with these members behind its first ones. -/
def pushedText (members : String) : String :=
  "\x7b\"id\":1,\"name\":\"a\",\"full_name\":\"o/a\",\"owner\":\x7b" ++
    DetailedRepository.loginText ++ "\x7d" ++ members ++ "\x7d"

def leapText : String := pushedText (",\"pushed_at\":\"" ++ leapSpelling ++ "\"")

theorem timestamps_read_leap :
    leapWritten.Spelled leapSpelling.toList ∧
    ModelsReadTimestamp .pushed leapWritten leapText (pushedText "") ∧
    Exists fun plain => DetailedRepository.ofMedium .stream (pushedText "") = .ok plain ∧
      DetailedRepository.ofMedium .stream leapText =
        .ok (Moment.pushed.setDetailed (some leapInstant) plain) := by
  have isSpelled : leapWritten.Spelled leapSpelling.toList :=
    Written.spelled_of_ofText (by decide +kernel)
  have denotes : leapWritten.Denotes leapInstant :=
    { valid := ⟨by decide, ⟨by decide, by decide⟩, by decide, by decide, by decide, by decide⟩
      minutes := by decide +kernel
      second := rfl
      nanosecond := rfl }
  have isText : IsText (.text (Piece.ofText leapSpelling)) leapSpelling :=
    ⟨_, rfl, Piece.denoted?_ofText leapSpelling⟩
  have isObject : IsObject leapText
      (plainEntries ++ [("pushed_at", .text (Piece.ofText leapSpelling))]) :=
    ⟨_, by decide +kernel, keyed_membersOf _⟩
  have without : IsObject (pushedText "") plainEntries :=
    ⟨_, by decide +kernel, keyed_membersOf _⟩
  have models := (timestamps_read .pushed isObject rfl isText without).1 leapWritten isSpelled
  have accepted : (DetailedRepository.ofMedium .stream (pushedText "")).isOk = true := by
    decide +kernel
  cases isPlain : DetailedRepository.ofMedium .stream (pushedText "") with
  | error fault =>
      rw [isPlain] at accepted
      cases accepted
  | ok plain =>
      exact ⟨isSpelled, models.1, plain, rfl,
        (models.1.payload .stream _).mpr ⟨plain, leapInstant, isPlain, denotes, rfl⟩⟩

end Model
end RepoInspector
