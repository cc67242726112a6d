import RepoInspector.Files.Disk
import RepoInspector.Proofs.Json.Failures
import RepoInspector.Proofs.Model.Shapes
import RepoInspector.Proofs.Record.Faults
import RepoInspector.Proofs.Record.Resumption

namespace RepoInspector
namespace Model

open Files
open Json
open Record

/-!
# Payloads whose supply fails

A supply can fail behind any byte.  What was supplied until then may be at fault
already, and then it is at fault whatever would have followed.  If it is not,
what is reported is the failure and nothing else.  Yet both are reported as
faults of the payload, since the failure reaches it as one of its document.
-/

namespace DetailedRepository

variable {bytes : List UInt8}

/-- Every stream that begins with these bytes is refused for what is in it, however it goes on
and ends. -/
def Spoiled (bytes : List UInt8) : Prop :=
  forall (rest : List UInt8) (failure : Option String), Exists fun fault : DocumentFault =>
    ofStream ⟨bytes ++ rest, failure⟩ = .error (.parse fault) ∧
      (fault.category = .grammar ∨ fault.category = .data)

/-- The failures of a supply are told apart from payloads that are at fault. -/
structure ToldApart (supply : Supply) : Prop where
  failed : forall reason, supply.failure = some reason -> ¬ Spoiled supply.bytes ->
    ofStream supply = .error (.io reason)
  refused : forall fault, ofStream supply = .error (.parse fault) -> fault.category ≠ .io

theorem ofStream_eq_error_iff {supply : Supply} {error : PayloadError} :
    ofStream supply = .error error ↔ Exists fun fault => codec.ofDocument supply = .error fault ∧
      error = .parse (.ofFault supply.bytes .stream fault) := by
  rw [ofStream_eq]
  cases codec.ofDocument supply with
  | ok detailed => exact ⟨nofun, nofun⟩
  | error fault =>
      constructor
      · rintro ⟨⟩
        exact ⟨fault, rfl, rfl⟩
      · rintro ⟨_, ⟨⟩, rfl⟩
        rfl

/-!
## Two sorts of faults
-/

theorem codec_persists : codec.Persists :=
  (Codec.extending_persists shaped_fields.persists shaped_fields.stopping _ _ _).through ofRow toRow

theorem codec_due (failure : Option String) :
    codec.Confined (·.cause.Due failure) (Token.Due failure) :=
  (Codec.extending_confined (Token.due_confined failure)
    (fun field listed => (shaped_fields field listed).confined (Token.due_confined failure))
    _ _ _).through ofRow toRow

theorem ofDocument_due {supply : Supply} {fault : Fault}
    (refused : codec.ofDocument supply = .error fault) : fault.cause.Due supply.failure :=
  supply.read_due (fun node each => codec_due supply.failure nestingAllowance node each) fault
    refused

/-- A supply that fails is never read to its end. -/
theorem ofDocument_failing (bytes : List UInt8) (reason : String) :
    Exists fun fault : Fault => codec.ofDocument ⟨bytes, some reason⟩ = .error fault ∧
      (fault.cause.OfContent ∨ fault.cause = .failure reason) := by
  cases outcome : codec.ofDocument ⟨bytes, some reason⟩ with
  | ok detailed => cases ((codec_follows.ofDocument_iff (Nat.le_refl _)).mp outcome).1
  | error fault => exact ⟨fault, rfl, ofDocument_due outcome⟩

/-- Whether bytes are spoiled shows when their supply fails behind them. -/
theorem spoiled_iff {reason : String} {fault : Fault}
    (refused : codec.ofDocument ⟨bytes, some reason⟩ = .error fault) :
    Spoiled bytes ↔ fault.cause.OfContent := by
  constructor
  · intro spoiled
    rcases spoiled [] (some reason) with ⟨_, isError, ofContent⟩
    rw [List.append_nil] at isError
    rcases ofStream_eq_error_iff.mp isError with ⟨other, alsoRefused, ⟨⟩⟩
    cases refused.symm.trans alsoRefused
    exact ofContent
  · intro ofContent rest failure
    rcases codec_persists.ofDocument bytes rest reason failure fault refused ofContent with
      ⟨later, isLater, alsoOfContent⟩
    exact ⟨_, ofStream_eq_error_iff.mpr ⟨later, isLater, rfl⟩, alsoOfContent⟩

/-- Two commas are wrong, whatever follows. -/
example : Spoiled "\x7b\"id\":1,,".toUTF8.toList := by
  have refused : ofStream ⟨"\x7b\"id\":1,,".toUTF8.toList, some directoryReason⟩ =
      .error (.parse ⟨.grammar, "key must be a string at line 1 column 9"⟩) := by
    decide +kernel
  rcases ofStream_eq_error_iff.mp refused with ⟨fault, isFault, same⟩
  have isGrammar := congrArg DocumentFault.category (PayloadError.parse.inj same)
  exact (spoiled_iff isFault).mpr (.inl isGrammar.symm)

theorem ne_io_of_ofContent {cause : Cause} (ofContent : cause.OfContent) :
    cause.category ≠ .io := by
  rcases ofContent with isGrammar | isData
  · rw [isGrammar]
    exact nofun
  · rw [isData]
    exact nofun

theorem toldApart_none (bytes : List UInt8) : ToldApart ⟨bytes, none⟩ where
  failed := nofun
  refused fault isError := by
    rcases ofStream_eq_error_iff.mp isError with ⟨inner, refused, ⟨⟩⟩
    rcases ofDocument_due refused with ofContent | isEnded
    · exact ne_io_of_ofContent ofContent
    · exact isEnded.trans_ne nofun

theorem toldApart_some_iff (bytes : List UInt8) (reason : String) :
    ToldApart ⟨bytes, some reason⟩ ↔ Spoiled bytes := by
  rcases ofDocument_failing bytes reason with ⟨inner, refused, _⟩
  constructor
  · intro told
    by_contra sound
    rcases ofStream_eq_error_iff.mp (told.failed reason rfl sound) with ⟨_, _, impossible⟩
    cases impossible
  · intro spoiled
    refine ⟨fun _ _ sound => absurd spoiled sound, fun fault isError => ?_⟩
    rcases ofStream_eq_error_iff.mp isError with ⟨found, alsoRefused, ⟨⟩⟩
    exact ne_io_of_ofContent ((spoiled_iff alsoRefused).mp spoiled)

/-- A supply that ends has no other faults than those of what it held.  One that fails is never
taken for a payload: it is refused for its content if that is spoiled, and else for its failure.
But either is reported as a fault of the payload, so the failure is told apart from that only
where it does not matter, behind content that is spoiled. -/
theorem failing_supply_reported (bytes : List UInt8) :
    ToldApart ⟨bytes, none⟩ ∧ forall reason : String,
      (ToldApart ⟨bytes, some reason⟩ ↔ Spoiled bytes) ∧
      Exists fun fault : Fault =>
        ofStream ⟨bytes, some reason⟩ = .error (.parse (.ofFault bytes .stream fault)) ∧
        (fault.cause.OfContent ↔ Spoiled bytes) ∧
        (fault.cause = .failure reason ↔ ¬ Spoiled bytes) := by
  refine ⟨toldApart_none bytes, fun reason => ⟨toldApart_some_iff bytes reason, ?_⟩⟩
  rcases ofDocument_failing bytes reason with ⟨fault, refused, sort⟩
  have isSpoiled := spoiled_iff refused
  refine ⟨fault, ofStream_eq_error_iff.mpr ⟨fault, refused, rfl⟩, isSpoiled.symm, ?_⟩
  rw [isSpoiled]
  constructor
  · intro isFailure
    rw [isFailure]
    exact Cause.not_ofContent_failure reason
  · exact sort.resolve_left

/-- A directory that is read as a payload fails before its first byte, and is not told apart from
a payload that is at fault. -/
theorem not_toldApart_directory : ¬ ToldApart ⟨[], some directoryReason⟩ := by
  intro told
  have sound : ¬ Spoiled [] := by
    intro spoiled
    rcases spoiled [] none with ⟨fault, isError, ofContent⟩
    have ended : ofStream ⟨[], none⟩ =
        .error (.parse ⟨.ended, "EOF while parsing a value at line 1 column 0"⟩) := by
      decide +kernel
    cases ended.symm.trans isError
    rcases ofContent with impossible | impossible <;> cases impossible
  have reported : ofStream ⟨[], some directoryReason⟩ =
      .error (.parse ⟨.io, directoryReason⟩) := by
    decide +kernel
  cases (told.failed directoryReason rfl sound).symm.trans reported

end DetailedRepository
end Model
end RepoInspector
