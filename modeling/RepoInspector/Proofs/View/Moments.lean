import RepoInspector.Proofs.Json.Documents
import RepoInspector.Proofs.Model.RoundTrip
import RepoInspector.Proofs.Time.Patterns
import RepoInspector.Proofs.View.Ink

namespace RepoInspector
namespace View

open Json
open Model
open Record
open Time

/-!
# Timestamps in documents and in summaries

A document and a summary show the last push each with a writer of its own,
which agree on its date and its time of day.  The summary shows less: it has
no fraction and no letter for universal time, and a space where the document
has a letter between date and time.  Nothing else may differ, whatever the
year, so the two forms are compared as texts and not by what they denote.
-/

/-!
## The two forms
-/

/-- The fraction of a second in a timestamp, if it has one. -/
inductive IsFraction : List Char -> Prop
  | absent : IsFraction []
  | present {digits : List Char} (some_digit : digits ≠ [])
      (all : ∀ c ∈ digits, c.isDigit = true) : IsFraction ('.' :: digits)

/-- A timestamp, and the same with a space for its one letter `T` and without
its fraction and its final `Z`. -/
inductive Shortens : List Char -> List Char -> Prop
  | intro {date time fraction : List Char} (undivided : 'T' ∉ date)
      (whole : 'T' ∉ time ∧ '.' ∉ time) (cut : IsFraction fraction) :
      Shortens (date ++ 'T' :: (time ++ fraction ++ ['Z'])) (date ++ ' ' :: time)

theorem takeWhile_unless {mark : Char} {front rest : List Char} (absent : mark ∉ front)
    (ended : rest = [] ∨ Exists fun others => rest = mark :: others) :
    (front ++ rest).takeWhile (fun c => c ≠ mark) = front := by
  have plain : ∀ c ∈ front, decide (c ≠ mark) = true := fun c listed =>
    decide_eq_true fun same => absent (same ▸ listed)
  rw [List.takeWhile_append_of_pos plain]
  rcases ended with rfl | ⟨others, rfl⟩
  · exact List.append_nil front
  · rw [List.takeWhile_cons_of_neg (by simp), List.append_nil]

/-- A timestamp has only one short form. -/
theorem Shortens.unique {text short other : List Char} (shortens : Shortens text short)
    (alike : Shortens text other) : short = other := by
  rcases shortens with @⟨date, time, fraction, undivided, whole, cut⟩
  generalize divided : date ++ 'T' :: (time ++ fraction ++ ['Z']) = text at alike
  rcases alike with @⟨otherDate, otherTime, otherFraction, otherUndivided, otherWhole, otherCut⟩
  have dates := congrArg (List.takeWhile fun c => decide (c ≠ 'T')) divided
  rw [takeWhile_unless undivided (.inr ⟨_, rfl⟩),
    takeWhile_unless otherUndivided (.inr ⟨_, rfl⟩)] at dates
  subst dates
  have rests := List.append_cancel_right (List.cons.inj (List.append_cancel_left divided)).2
  have ended : forall {fraction : List Char}, IsFraction fraction ->
      fraction = [] ∨ Exists fun digits => fraction = '.' :: digits := by
    rintro _ (_ | _)
    · exact .inl rfl
    · exact .inr ⟨_, rfl⟩
  have times := congrArg (List.takeWhile fun c => decide (c ≠ '.')) rests
  rw [takeWhile_unless whole.2 (ended cut), takeWhile_unless otherWhole.2 (ended otherCut)] at times
  rw [times]

theorem notMem_padded {c : Char} (notDigit : c.isDigit = false) (width n : Nat) :
    c ∉ padded width n := by
  intro listed
  rw [isDigit_padded width n c listed] at notDigit
  cases notDigit

theorem notMem_yearText {c : Char} (notDigit : c.isDigit = false) (notSign : c ≠ '-' ∧ c ≠ '+')
    (year : Int) : c ∉ yearText year := by
  have digits := notMem_padded notDigit 4 year.natAbs
  unfold yearText
  split
  case isTrue => exact List.not_mem_cons_of_ne_of_not_mem notSign.1 digits
  case isFalse =>
    split
    case isTrue => exact digits
    case isFalse => exact List.not_mem_cons_of_ne_of_not_mem notSign.2 digits

/-- A date has nothing but digits, hyphens and a sign. -/
theorem notMem_dateText {c : Char} (notDigit : c.isDigit = false) (notSign : c ≠ '-' ∧ c ≠ '+')
    (date : Date) : c ∉ date.text := by
  have digits := notMem_padded notDigit 2
  simp only [Date.text, List.mem_append, List.mem_cons, not_or]
  exact ⟨⟨notMem_yearText notDigit notSign date.year, notSign.1, digits date.month⟩,
    notSign.1, digits date.day⟩

/-- A time of day has nothing but digits and colons. -/
theorem notMem_clockText {c : Char} (notDigit : c.isDigit = false) (notColon : c ≠ ':')
    (clock : Clock) : c ∉ clock.text := by
  have digits := notMem_padded notDigit 2
  simp only [Clock.text, List.mem_append, List.mem_cons, not_or]
  exact ⟨⟨digits clock.hour, notColon, digits clock.minute⟩, notColon, digits clock.second⟩

theorem isFraction_fractionText (nanosecond : Nat) : IsFraction (fractionText nanosecond) := by
  have written : forall width n, IsFraction ('.' :: padded width n) := fun width n =>
    .present (padded_ne_nil width n) (isDigit_padded width n)
  unfold fractionText
  split
  case isTrue => exact .absent
  case isFalse =>
    split
    case isTrue => exact written 3 _
    case isFalse =>
      split
      case isTrue => exact written 6 _
      case isFalse => exact written 9 _

/-- A summary shows the short form of what a document holds. -/
theorem shortens_text (instant : Instant) :
    Shortens instant.text.toList instant.summary.toList := by
  rw [Instant.text, Instant.summary, String.toList_ofList, String.toList_ofList,
    chars_summaryPattern, List.append_assoc, List.append_assoc, List.cons_append,
    ← List.append_assoc instant.clock.text]
  exact .intro (notMem_dateText (by decide) (by decide) instant.date)
    ⟨notMem_clockText (by decide) (by decide) instant.clock,
      notMem_clockText (by decide) (by decide) instant.clock⟩
    (isFraction_fractionText instant.clock.nanosecond)

/-- A summary shows an instant by digits, signs, colons and a space. -/
theorem notMem_summary {c : Char} (notDigit : c.isDigit = false) (notSign : c ≠ '-' ∧ c ≠ '+')
    (notMark : c ≠ ':' ∧ c ≠ ' ') (instant : Instant) : c ∉ instant.summary.toList := by
  rw [Instant.summary, String.toList_ofList, chars_summaryPattern, List.mem_append,
    List.mem_cons, not_or, not_or]
  exact ⟨notMem_dateText notDigit notSign instant.date, notMark.2,
    notMem_clockText notDigit notMark.1 instant.clock⟩

/-!
## The line of a summary
-/

/-- The label of a line below the header. -/
def Line.label? : Line -> Option String
  | .plain _ :: .inked _ label :: _ => some label
  | _ => none

/-- Lines none of which has a label. -/
def Unlabelled (label : String) (lines : List Line) : Prop :=
  ∀ line ∈ lines, Line.label? line ≠ some label

namespace Unlabelled

variable {label : String}

theorem append {lines others : List Line} (first : Unlabelled label lines)
    (rest : Unlabelled label others) : Unlabelled label (lines ++ others) :=
  List.forall_mem_append.mpr ⟨first, rest⟩

theorem singleton {line : Line} (different : line.label? ≠ some label) :
    Unlabelled label [line] :=
  List.forall_mem_singleton.mpr different

theorem lineFor {α : Type} {line : α -> Line} (data : Option α)
    (different : forall a, (line a).label? ≠ some label) :
    Unlabelled label (lineFor data line) := by
  cases data with
  | none => exact fun _ => nofun
  | some a => exact singleton (different a)

end Unlabelled

/-- What a summary tells before the last push. -/
def linesBeforePush (detailed : DetailedRepository) : List Line :=
  let repository := detailed.repository
  [header repository] ++
    lineFor repository.description (fun text => entry "Description" [.plain text]) ++
    [entry "Owner" [.plain repository.ownerLogin]] ++
    lineFor detailed.organization organizationLine ++
    lineFor repository.defaultBranch (fun branch => entry "Default branch" [.plain branch]) ++
    (if repository.isArchived then [entry "Archived" [.inked .red "yes"]] else [])

/-- What a summary tells after the last push. -/
def linesAfterPush (detailed : DetailedRepository) : List Line :=
  [countsLine detailed] ++
    lineFor detailed.base.permissions permissionsLine ++
    [entry "Merge methods" (methodList detailed.allowedMethods)] ++
    lineFor detailed.parent (fun parent => entry "Forked from" [reference parent]) ++
    lineFor (distinctSource detailed) (fun source => entry "Fork root" [reference source])

def pushedLine (pushed : Instant) : Line := entry "Pushed" [.inked .dimmed pushed.summary]

theorem summary_eq (detailed : DetailedRepository) :
    summary detailed = linesBeforePush detailed ++
      (lineFor detailed.repository.pushedAt pushedLine ++ linesAfterPush detailed) := by
  simp only [summary, linesBeforePush, linesAfterPush, List.append_assoc]
  rfl

theorem unlabelled_beforePush (detailed : DetailedRepository) :
    Unlabelled "Pushed" (linesBeforePush detailed) := by
  have entries : forall {label : String} {pieces : Line}, label ≠ "Pushed" ->
      (entry label pieces).label? ≠ some "Pushed" :=
    fun different same => different (Option.some.inj same)
  have archived : Unlabelled "Pushed" (if detailed.repository.isArchived then
      [entry "Archived" [.inked .red "yes"]] else []) := by
    split
    case isTrue => exact .singleton (entries (by decide))
    case isFalse => exact fun _ => nofun
  exact .append (.append (.append (.append (.append (.singleton nofun)
    (.lineFor _ fun _ => entries (by decide))) (.singleton (entries (by decide))))
    (.lineFor _ fun _ => entries (by decide))) (.lineFor _ fun _ => entries (by decide))) archived

theorem unlabelled_afterPush (detailed : DetailedRepository) :
    Unlabelled "Pushed" (linesAfterPush detailed) := by
  have entries : forall {label : String} {pieces : Line}, label ≠ "Pushed" ->
      (entry label pieces).label? ≠ some "Pushed" :=
    fun different same => different (Option.some.inj same)
  exact .append (.append (.append (.append (.singleton (entries (by decide)))
    (.lineFor _ fun _ => entries (by decide))) (.singleton (entries (by decide))))
    (.lineFor _ fun _ => entries (by decide))) (.lineFor _ fun _ => entries (by decide))

/-!
## The member of a document
-/

/-- A member is found by its name, which no other member has. -/
theorem member?_of_mem {members : List (String × Value)} {name : String} {value : Value}
    (distinct : (members.map Prod.fst).Nodup) (listed : (name, value) ∈ members) :
    (Value.object members).member? name = some value := by
  have found : (members.find? fun member => decide (member.1 = name)).map Prod.snd =
      some value := by
    induction members with
    | nil => cases listed
    | cons member members inductionHypothesis =>
        rcases List.nodup_cons.mp distinct with ⟨fresh, rest⟩
        rcases List.mem_cons.mp listed with rfl | later
        · rw [List.find?_cons_of_pos (by rw [decide_eq_true_eq])]
          rfl
        · have different : member.1 ≠ name := fun same =>
            fresh (same ▸ List.mem_map_of_mem (f := Prod.fst) later)
          rw [List.find?_cons_of_neg (by rw [decide_eq_true_eq]; exact different)]
          exact inductionHypothesis rest later
  exact found

theorem members_later {field : Field} {fields : List Field} {stored : field.Stored}
    {row : Row fields} {member : String × Value} (listed : member ∈ row.members) :
    member ∈ @Row.members (field :: fields) (stored, row) := by
  rw [Row.members]
  split
  case isTrue => exact listed
  case isFalse => exact List.mem_cons_of_mem _ listed

theorem pushed_member {repository : Repository} {instant : Instant}
    (pushed : repository.pushedAt = some instant) :
    ("pushed_at", .text instant.text) ∈ repository.toRow.members := by
  -- The last push is the last of the 18 fields.
  iterate 17 refine members_later ?_
  rw [pushed]
  exact List.mem_singleton.mpr rfl

/-- What a repository is written as, and where the last push stands in it. -/
theorem member?_pushed {detailed : DetailedRepository} {instant : Instant}
    (pushed : detailed.repository.pushedAt = some instant) :
    (DetailedRepository.codec.write detailed).member? "pushed_at" =
      some (.text instant.text) := by
  have tidy := DetailedRepository.codec_writes.tidy detailed
  generalize isWritten : DetailedRepository.codec.write detailed = value at tidy ⊢
  cases isWritten
  cases tidy with
  | object distinct _ =>
      refine member?_of_mem distinct ?_
      exact List.mem_append_left _ (List.mem_append_left _ (pushed_member pushed))

/-!
## Both writers
-/

/-- A repository is decoded again from the document that it is written as. -/
theorem buffer_encode (style : Style) (detailed : DetailedRepository) :
    (supplyOfText (DetailedRepository.codec.encode style detailed)).tree.buffer =
      .ok (DetailedRepository.codec.write detailed) := by
  have tidy := (DetailedRepository.codec_writes.tidy detailed).mono
    (by decide : 3 ≤ nestingAllowance)
  rcases tidy.written with ⟨form, denotes, _, written⟩
  exact Supply.buffer_iff.mpr ⟨rfl, form, written style, denotes⟩

/-- A summary shows the last push on one line, as the short form of a text. -/
structure ShowsPush (detailed : DetailedRepository) (text : String) (before : List Line)
    (line : Line) (after : List Line) (short : List Char) : Prop where
  rendered : Aspect.summary.render .text false detailed =
    String.ofList (joinLines false (before ++ line :: after))
  earlier : Unlabelled "Pushed" before
  label : line.label? = some "Pushed"
  later : Unlabelled "Pushed" after
  shortens : Shortens text.toList short
  only : forall other, Shortens text.toList other -> other = short
  shown : Line.chars false line = "  Pushed: ".toList ++ short

/-- What the summary of a repository shows as the last push is the text under
`pushed_at` in its document, in short form. -/
theorem pushed_agrees (style : Style) {detailed : DetailedRepository} {instant : Instant}
    (pushed : detailed.repository.pushedAt = some instant) :
    Exists fun document => Exists fun text =>
      (supplyOfText (DetailedRepository.codec.encode style detailed)).tree.buffer = .ok document ∧
      document.member? "pushed_at" = some (.text text) ∧
      Exists fun before => Exists fun line => Exists fun after => Exists fun short =>
        ShowsPush detailed text before line after short :=
  ⟨_, instant.text, buffer_encode style detailed, member?_pushed pushed,
    linesBeforePush detailed, pushedLine instant, linesAfterPush detailed,
    instant.summary.toList,
    { rendered := by
        rw [Aspect.render, Aspect.lines, summary_eq, pushed]
        rfl
      earlier := unlabelled_beforePush detailed
      label := rfl
      later := unlabelled_afterPush detailed
      shortens := shortens_text instant
      only := fun other alike => alike.unique (shortens_text instant)
      shown := by
        rw [Line.chars_plainly]
        simp only [pushedLine, entry, labelled, Line.text, Piece.text, List.flatMap_cons,
          List.flatMap_nil, List.append_nil, ← List.append_assoc]
        rfl }⟩

/-- A leap second before the year 0. -/
def ancientInstant : Instant :=
  ⟨⟨-43, 3, 15, by decide⟩, ⟨⟨23, by decide⟩, ⟨59, by decide⟩, ⟨60, by decide⟩, ⟨500, by decide⟩⟩⟩

def ancientRepository : DetailedRepository :=
  .ofBase
    { repository :=
        { id := 1, name := "r", fullName := "o/r", description := none, isPrivate := false
          isFork := false, isArchived := false
          owner := ⟨"o", 2, none, none, none⟩
          htmlUrl := none, url := none, cloneUrl := none, sshUrl := none, defaultBranch := none
          stars := 0, forks := 0, createdAt := none, updatedAt := none
          pushedAt := some ancientInstant }
      permissions := none }

theorem pushed_agrees_ancient :
    ancientRepository.repository.pushedAt = some ancientInstant ∧
    Exists fun document =>
      (supplyOfText (DetailedRepository.codec.encode .pretty ancientRepository)).tree.buffer =
        .ok document ∧
      document.member? "pushed_at" = some (.text "-0043-03-15T23:59:60.000000500Z") ∧
      Exists fun before => Exists fun line => Exists fun after =>
        ShowsPush ancientRepository "-0043-03-15T23:59:60.000000500Z" before line after
          "-0043-03-15 23:59:60".toList := by
  have pushed : ancientRepository.repository.pushedAt = some ancientInstant := rfl
  rcases pushed_agrees .pretty pushed with
    ⟨document, text, decoded, member, before, line, after, short, shows_push⟩
  have written := Except.ok.inj (decoded.symm.trans (buffer_encode .pretty ancientRepository))
  have isText : text = ancientInstant.text := by
    rw [written, member?_pushed pushed] at member
    exact (Value.text.inj (Option.some.inj member)).symm
  have isShort := shows_push.only _ (isText ▸ shortens_text ancientInstant)
  have isLong : ancientInstant.text = "-0043-03-15T23:59:60.000000500Z" := by decide +kernel
  have isSummary : ancientInstant.summary = "-0043-03-15 23:59:60" := by decide +kernel
  rw [isText, isLong] at member
  rw [isText, isLong, ← isShort, isSummary] at shows_push
  exact ⟨pushed, document, decoded, member, before, line, after, shows_push⟩

end View
end RepoInspector
