import RepoInspector.Proofs.Model.DetailedRepository
import RepoInspector.Proofs.Model.MergeMethod

namespace RepoInspector
namespace Model

open Json
open Record

/-!
# Reading through a value

A document that is decoded before it is read has lost all but the last of the
members of an object with equal names, and the order of the others.  It is read
as the document that never had the lost members, and of that document the
order does not matter.
-/

/-- Reading a text through its value gives what reading another text directly
gives, and fails when that does. -/
def ReadsAs {α : Type} (decode : Way -> Supply -> Except DocumentFault α)
    (text other : String) : Prop :=
  forall a, decode .settled (supplyOfText text) = .ok a ↔
    decode .text (supplyOfText other) = .ok a

/-- What `ReadsAs` says, for every model. -/
structure ModelsReadAs (text other : String) : Prop where
  account : ReadsAs Account.codec.decode text other
  organization : ReadsAs Organization.codec.decode text other
  repository : ReadsAs Repository.codec.decode text other
  permissions : ReadsAs Permissions.codec.decode text other
  permittedRepository : ReadsAs PermittedRepository.codec.decode text other
  detailedRepository : ReadsAs DetailedRepository.codec.decode text other
  mergeMethod : ReadsAs MergeMethod.decode text other

section Settled

variable {text other : String} {form : Form}

/-- Both texts have only one form, and what is read of either is what the
settled form means. -/
theorem readsAs_of_readsForms {α : Type} {decode : Way -> Supply -> Except DocumentFault α}
    {means : Form -> α -> Prop} (reads : Codec.ReadsForms decode means)
    (written : form.Written text.toUTF8.toList) (decodes : form.Decodes nestingAllowance)
    (settled : form.settled.Written other.toUTF8.toList) : ReadsAs decode text other := by
  intro a
  rw [reads.settled, reads.text, Form.exists_written_iff written, Form.exists_written_iff settled]
  exact and_iff_right decodes

theorem codec_readsAs {α : Type} {codec : Codec α} {depth : Nat} {means : Form -> α -> Prop}
    (follows : codec.Follows depth means) (shallow : depth ≤ nestingAllowance)
    (written : form.Written text.toUTF8.toList) (decodes : form.Decodes nestingAllowance)
    (settled : form.settled.Written other.toUTF8.toList) : ReadsAs codec.decode text other :=
  readsAs_of_readsForms (follows.readsForms shallow) written decodes settled

theorem models_readAs (written : form.Written text.toUTF8.toList)
    (decodes : form.Decodes nestingAllowance)
    (settled : form.settled.Written other.toUTF8.toList) : ModelsReadAs text other where
  account := codec_readsAs Account.codec_follows (by decide) written decodes settled
  organization := codec_readsAs Organization.codec_follows (by decide) written decodes settled
  repository := codec_readsAs Repository.codec_follows (by decide) written decodes settled
  permissions := codec_readsAs Permissions.codec_follows (by decide) written decodes settled
  permittedRepository :=
    codec_readsAs PermittedRepository.codec_follows (Nat.le_refl _) written decodes settled
  detailedRepository :=
    codec_readsAs DetailedRepository.codec_follows (Nat.le_refl _) written decodes settled
  mergeMethod := readsAs_of_readsForms MergeMethod.readsForms written decodes settled

end Settled

/-- A text that can be decoded is read through its value as any text is read
directly that says the same with only the last of each object's members of
equal names, and there is such a text.  Without repeated names it is the text
itself. -/
theorem value_reading {text : String} {value : Value}
    (decoded : (supplyOfText text).tree.buffer = .ok value) :
    Exists fun form : Form => form.Written text.toUTF8.toList ∧
      form.Denotes nestingAllowance value ∧ form.settled.Distinct ∧
      (Exists fun other : String => form.settled.Written other.toUTF8.toList) ∧
      (forall other : String, form.settled.Written other.toUTF8.toList ->
        ModelsReadAs text other) ∧
      (form.Distinct -> ModelsReadAs text text) := by
  rcases Supply.buffer_iff.mp decoded with ⟨_, form, written, denotes⟩
  refine ⟨form, written, denotes, form.distinct_settled, written.settled,
    fun other settled => ?_, fun distinct => ?_⟩
  · exact models_readAs written ⟨value, denotes⟩ settled
  · refine models_readAs written ⟨value, denotes⟩ ?_
    rw [Form.settled_of_distinct form distinct]
    exact written

/-- Of two logins the later one counts in a value, and in the text without the
earlier one. -/
theorem value_reading_repeated :
    Exists fun other : String =>
      ModelsReadAs "\x7b\"login\":\"a\",\"login\":\"b\",\"id\":1\x7d" other ∧
      Account.codec.decode .text (supplyOfText other) =
        .ok { login := "b", id := 1, avatarUrl := none, htmlUrl := none, kind := none } := by
  have decodes : (supplyOfText
      "\x7b\"login\":\"a\",\"login\":\"b\",\"id\":1\x7d").tree.buffer.isOk = true := by
    decide +kernel
  cases decoded : (supplyOfText
      "\x7b\"login\":\"a\",\"login\":\"b\",\"id\":1\x7d").tree.buffer with
  | error fault =>
      rw [decoded] at decodes
      cases decodes
  | ok value =>
      rcases value_reading decoded with ⟨form, _, _, _, ⟨other, settled⟩, agree, _⟩
      have readsAs := agree other settled
      exact ⟨other, readsAs, (readsAs.account _).mp (by decide +kernel)⟩

end Model
end RepoInspector
