import RepoInspector.Proofs.Model.Holders

namespace RepoInspector
namespace Model

open Json
open Record

/-!
# Models inside of models

A model is read wherever its kind stands among the parts of another one, so
the same form can be met at the top of a document, as the value of a member or
as the item of an array, and on routes that share no code.  What is found at
such a site is what the model means there and nothing else.  Forms that mean
the same can therefore be exchanged at any site, and one that means nothing
spoils every document that it stands in.
-/

/-- Where a form is read as a model of the inner kind, in a form that is read as
one of the outer kind.  A dictionary has only the last member of a name. -/
inductive Site (way : Way) : Kind -> Kind -> (Form -> Form) -> Prop
  | here {kind : Kind} : Site way kind kind fun form => form
  | member {outer middle inner : Kind} {name : String} {pieces : List Piece}
      {before after : List (List Piece × Form)} {around : Form -> Form}
      (part : (name, middle) ∈ outer.parts) (denoted : Piece.denoted? pieces = some name)
      (last : way = .settled -> ∀ member ∈ after, Piece.denoted? member.1 ≠ some name)
      (within : Site way middle inner around) :
      Site way outer inner fun form => .object (before ++ (pieces, around form) :: after)
  | item {outer middle inner : Kind} {name : String} {before after : List Form}
      {around : Form -> Form} (listed : outer.isListed = true)
      (part : (name, middle) ∈ outer.parts)
      (placed : outer.memberNames[before.length]? = some name)
      (within : Site way middle inner around) :
      Site way outer inner fun form => .array (before ++ around form :: after)

namespace Site

variable {way : Way} {outer inner : Kind} {around : Form -> Form} {form other : Form}

/-- A site inside of a part is one of the whole. -/
theorem under {middle : Kind} {name : String} {hold : Form -> Form}
    (within : Site way middle inner around) (part : (name, middle) ∈ outer.parts)
    (holder : Under way outer name hold) :
    Site way outer inner fun form => hold (around form) := by
  cases holder with
  | member denoted last => exact .member part denoted last within
  | item listed placed => exact .item listed part placed within

/-- Sites are built from the inside out, one part around the other, and it does
not matter whether a part is a member or an item. -/
@[elab_as_elim]
theorem parts {motive : forall {outer inner : Kind} {around : Form -> Form},
      Site way outer inner around -> Prop}
    (here : forall {kind : Kind}, motive (Site.here : Site way kind kind _))
    (part : forall {outer middle inner : Kind} {name : String} {hold around : Form -> Form}
      (part : (name, middle) ∈ outer.parts) (holder : Under way outer name hold)
      (within : Site way middle inner around), motive within -> motive (within.under part holder))
    {outer inner : Kind} {around : Form -> Form} (site : Site way outer inner around) :
    motive site := by
  induction site with
  | here => exact here
  | member isPart denoted last within inductionHypothesis =>
      exact part isPart (.member denoted last) within inductionHypothesis
  | item listed isPart placed within inductionHypothesis =>
      exact part isPart (.item listed placed) within inductionHypothesis

theorem alike (site : Site way outer inner around) (alike : Alike inner.Means form other) :
    Alike outer.Means (around form) (around other) := by
  induction site using parts with
  | here => exact alike
  | part isPart holder _ inductionHypothesis =>
      exact holder.alike (Kind.keeps_part isPart) (inductionHypothesis alike)

theorem even (site : Site way outer inner around) (even : Even inner.Means form other) :
    Even outer.Means (around form) (around other) := by
  induction site using parts with
  | here => exact even
  | part isPart holder _ inductionHypothesis =>
      exact holder.even (Kind.keeps_part isPart) (inductionHypothesis even)

theorem barred (site : Site way outer inner around) (barred : Barred inner.Means form) :
    Barred outer.Means (around form) := by
  induction site using parts with
  | here => exact barred
  | part isPart holder _ inductionHypothesis =>
      exact holder.barred (Kind.keeps_part isPart) (inductionHypothesis barred)

/-- Whether the whole decodes depends on a form at a site only by whether that
form does. -/
theorem sameDecoding (site : Site way outer inner around) (same : SameDecoding form other) :
    SameDecoding (around form) (around other) := by
  induction site using parts with
  | here => exact same
  | part _ holder _ inductionHypothesis => exact holder.sameDecoding inductionHypothesis

/-- A site of a document is a site of the form that is found in it. -/
theorem seen (site : Site way outer inner around) :
    Exists fun other => Site way outer inner other ∧
      forall form, way.seen (around form) = other (way.seen form) := by
  induction site using parts with
  | here => exact ⟨_, .here, fun _ => rfl⟩
  | part isPart holder _ inductionHypothesis =>
      rcases inductionHypothesis with ⟨found, within, isFound⟩
      rcases holder.seen with ⟨foundHold, foundHolder, isHeld⟩
      refine ⟨fun form => foundHold (found form), within.under isPart foundHolder, fun form => ?_⟩
      rw [isHeld, isFound]

variable {text otherText : String}

/-- Texts that differ at a site in forms that mean the same are read the same. -/
theorem decode_congr (site : Site way outer inner around) (same : SameDecoding form other)
    (alike : Alike inner.Means (way.seen form) (way.seen other))
    (written : (around form).Written text.toUTF8.toList)
    (otherWritten : (around other).Written otherText.toUTF8.toList) (a : outer.Data) :
    outer.codec.decode way (supplyOfText text) = .ok a ↔
      outer.codec.decode way (supplyOfText otherText) = .ok a := by
  have reads := outer.codec_follows.readsForms (Nat.le_refl _)
  rcases site.seen with ⟨found, foundSite, isFound⟩
  rw [reads.decode_iff written, reads.decode_iff otherWritten, isFound, isFound,
    (site.sameDecoding same) nestingAllowance, (foundSite.alike alike).same]

/-- Texts that differ at a site in forms that mean something together are accepted
together. -/
theorem accepted_iff (site : Site way outer inner around) (same : SameDecoding form other)
    (even : Even inner.Means (way.seen form) (way.seen other))
    (written : (around form).Written text.toUTF8.toList)
    (otherWritten : (around other).Written otherText.toUTF8.toList) :
    (Exists fun a => outer.codec.decode way (supplyOfText text) = .ok a) ↔
      Exists fun a => outer.codec.decode way (supplyOfText otherText) = .ok a := by
  have reads := outer.codec_follows.readsForms (Nat.le_refl _)
  rcases site.seen with ⟨found, foundSite, isFound⟩
  simp only [reads.decode_iff written, reads.decode_iff otherWritten, isFound, exists_and_left,
    (site.sameDecoding same) nestingAllowance, (foundSite.even even).accepted]

/-- A text in which a form at a site means nothing is not read. -/
theorem not_decoded (site : Site way outer inner around)
    (barred : Barred inner.Means (way.seen form))
    (written : (around form).Written text.toUTF8.toList) (a : outer.Data) :
    outer.codec.decode way (supplyOfText text) ≠ .ok a := by
  have reads := outer.codec_follows.readsForms (Nat.le_refl _)
  rcases site.seen with ⟨found, foundSite, isFound⟩
  intro accepted
  have meant := ((reads.decode_iff written).mp accepted).2
  rw [isFound] at meant
  exact (foundSite.barred barred).meaningless a meant

end Site

end Model
end RepoInspector
