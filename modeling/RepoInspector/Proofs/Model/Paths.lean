import RepoInspector.Proofs.Model.Sites

namespace RepoInspector
namespace Model

open Json
open Record

/-!
# Where data is found

What stands under the name of a member is found again in the data, at a place
that belongs to the name.  The members that hold a model lead on to the members
of that model, so every member has a path on which its data is reached from the
outermost model, whatever routes the document is read on.
-/

/-- What entries tell of a member is found in the data.  Null may stand for
nothing. -/
def Kind.Shows {α : Type} (kind : Kind) (name : String) (means : Form -> α -> Prop)
    (get : kind.Data -> Option α) : Prop :=
  forall {entries : List (String × Form)} {a : kind.Data} {form : Form}, kind.Told entries a ->
    (name, form) ∈ entries -> form ≠ .null -> Exists fun b => means form b ∧ get a = some b

/-- A member of a model: its name, what is read under it, and where that is
found. -/
structure Member {α : Type} (kind : Kind) (means : Form -> α -> Prop) where
  name : String
  get : kind.Data -> Option α
  keeps : kind.Keeps name means
  shows : kind.Shows name means get

section Told

variable {α : Type} {name : String} {means : Form -> α -> Prop}
  {entries : List (String × Form)} {form : Form}

theorem Required.shows {a : α} (told : Required name means entries a)
    (listed : (name, form) ∈ entries) : means form a := by
  rcases told with ⟨only, alone, meant⟩
  have isOnly := mem_named.mpr listed
  rw [alone, List.mem_singleton] at isOnly
  exact isOnly ▸ meant

theorem Defaulted.shows {default a : α} (told : Defaulted name default means entries a)
    (listed : (name, form) ∈ entries) : means form a := by
  rcases told with ⟨nothing, _⟩ | required
  · have inNothing := mem_named.mpr listed
    rw [nothing] at inNothing
    cases inNothing
  · exact required.shows listed

theorem Optional.shows {data : Option α} (told : Optional name means entries data)
    (listed : (name, form) ∈ entries) (other : form ≠ .null) :
    Exists fun a => means form a ∧ data = some a := by
  have isNamed := mem_named.mpr listed
  rcases told with ⟨nothing, _⟩ | ⟨onlyNull, _⟩ | ⟨only, _, alone, a, meant, isData⟩
  · rw [nothing] at isNamed
    cases isNamed
  · rw [onlyNull, List.mem_singleton] at isNamed
    exact absurd isNamed other
  · rw [alone, List.mem_singleton] at isNamed
    exact ⟨a, isNamed ▸ meant, isData.symm⟩

end Told

/-- What an inner layer keeps, an outer one keeps as well that has no field of
the same name. -/
theorem Kind.Keeps.extended {α : Type} {inner outer : Kind} {name : String}
    {means : Form -> α -> Prop} (keeps : inner.Keeps name means) (own : List Field)
    (layers : outer.fields = own ++ inner.fields)
    (apart : ∀ name ∈ inner.memberNames, name ∉ names own) : outer.Keeps name means where
  known := by
    rw [layers, names, List.map_append]
    exact List.mem_append_right _ keeps.known
  held := by
    rcases keeps.held with ⟨codec, follows, holds⟩
    refine ⟨codec, follows, fun field listed isNamed => ?_⟩
    rw [layers] at listed
    rcases List.mem_append.mp listed with isOwn | isInner
    · have known := keeps.known
      rw [inner.names_fields] at known
      exact absurd (isNamed ▸ List.mem_map_of_mem isOwn) (apart name known)
    · exact holds field isInner isNamed

namespace Member

variable {α : Type} {means : Form -> α -> Prop}

/-- A member of a repository is one of a repository with permissions. -/
def permitted (member : Member .repository means) : Member .permittedRepository means where
  name := member.name
  get permitted := member.get permitted.repository
  keeps := member.keeps.extended PermittedRepository.fields rfl (by decide)
  shows told := member.shows told.repository

/-- A member of a repository with permissions is one of a detailed repository. -/
def detailed (member : Member .permittedRepository means) : Member .detailedRepository means where
  name := member.name
  get detailed := member.get detailed.base
  keeps := member.keeps.extended DetailedRepository.fields rfl (by decide)
  shows told := member.shows told.base

end Member

/-!
## Paths
-/

/-- A model inside of another one. -/
inductive Part : Kind -> Kind -> Type
  | owner : Part .repository .account
  | permissions : Part .permittedRepository .permissions
  | organization : Part .detailedRepository .organization
  | parent : Part .detailedRepository .repository
  | source : Part .detailedRepository .repository
  | permitted {middle : Kind} (part : Part .repository middle) : Part .permittedRepository middle
  | detailed {middle : Kind} (part : Part .permittedRepository middle) :
      Part .detailedRepository middle

namespace Part

def member {outer middle : Kind} : Part outer middle -> Member outer middle.Means
  | .owner =>
      { name := "owner"
        get := fun repository => some repository.owner
        keeps := Kind.keeps_part (by decide)
        shows := fun told listed _ => ⟨_, told.owner.shows listed, rfl⟩ }
  | .permissions =>
      { name := "permissions"
        get := fun permitted => permitted.permissions
        keeps := Kind.keeps_part (by decide)
        shows := fun told => told.permissions.shows }
  | .organization =>
      { name := "organization"
        get := fun detailed => detailed.organization
        keeps := Kind.keeps_part (by decide)
        shows := fun told => told.organization.shows }
  | .parent =>
      { name := "parent"
        get := fun detailed => detailed.parent
        keeps := Kind.keeps_part (by decide)
        shows := fun told => told.parent.shows }
  | .source =>
      { name := "source"
        get := fun detailed => detailed.source
        keeps := Kind.keeps_part (by decide)
        shows := fun told => told.source.shows }
  | .permitted part => part.member.permitted
  | .detailed part => part.member.detailed

theorem listed {outer middle : Kind} (part : Part outer middle) :
    (part.member.name, middle) ∈ outer.parts :=
  match part with
  | .owner | .permissions | .organization | .parent | .source => by decide
  | .permitted .owner => by decide
  | .detailed (.permitted .owner) | .detailed .permissions => by decide

end Part

/-- A way down from a model to one inside of it. -/
inductive Path : Kind -> Kind -> Type
  | here {kind : Kind} : Path kind kind
  | step {outer middle inner : Kind} (part : Part outer middle) (rest : Path middle inner) :
      Path outer inner

/-- The model at the end of a path, if there is one. -/
def Path.get {outer inner : Kind} : Path outer inner -> outer.Data -> Option inner.Data
  | .here, a => some a
  | .step part rest, a => (part.member.get a).bind rest.get

/-- Where the model at the end of a path stands in a form. -/
inductive Along (way : Way) : {outer inner : Kind} -> Path outer inner -> (Form -> Form) -> Prop
  | here {kind : Kind} : Along way (Path.here : Path kind kind) fun form => form
  | step {outer middle inner : Kind} {part : Part outer middle} {rest : Path middle inner}
      {hold around : Form -> Form} (holder : Under way outer part.member.name hold)
      (within : Along way rest around) : Along way (.step part rest) fun form => hold (around form)

/-- What the larger form means shows what the held one does. -/
theorem Under.shows {way : Way} {kind : Kind} {name : String} {hold : Form -> Form}
    (under : Under way kind name hold) {α : Type} {means : Form -> α -> Prop}
    {get : kind.Data -> Option α} (shows : kind.Shows name means get) {form : Form}
    (other : form ≠ .null) {a : kind.Data} (meant : kind.Means (hold form) a) :
    Exists fun b => means form b ∧ get a = some b := by
  rcases under.means with never | ⟨left, right, means_iff⟩
  · exact absurd meant (never form a)
  · exact shows ((means_iff form a).mp meant).2
      (List.mem_append_right _ List.mem_cons_self) other

namespace Along

variable {way : Way} {outer inner : Kind} {path : Path outer inner} {around : Form -> Form}
  {form : Form}

theorem site (along : Along way path around) : Site way outer inner around := by
  induction along with
  | here => exact .here
  | step holder _ inductionHypothesis => exact inductionHypothesis.under (Part.listed _) holder

theorem ne_null (along : Along way path around) (other : form ≠ .null) : around form ≠ .null := by
  cases along with
  | here => exact other
  | step holder => exact holder.ne_null _

/-- What is found of a document on a way has the same path in it. -/
theorem seen (along : Along way path around) :
    Exists fun other => Along way path other ∧
      forall form, way.seen (around form) = other (way.seen form) := by
  induction along with
  | here => exact ⟨_, .here, fun _ => rfl⟩
  | step holder _ inductionHypothesis =>
      rcases inductionHypothesis with ⟨found, within, isFound⟩
      rcases holder.seen with ⟨foundHold, foundHolder, isHeld⟩
      refine ⟨fun form => foundHold (found form), .step foundHolder within, fun form => ?_⟩
      rw [isHeld, isFound]

/-- What a form means at the end of a path is found there. -/
theorem shows (along : Along way path around) (other : form ≠ .null) {a : outer.Data}
    (meant : outer.Means (around form) a) :
    Exists fun b => inner.Means form b ∧ path.get a = some b := by
  induction along with
  | here => exact ⟨a, meant, rfl⟩
  | @step _ _ _ part rest _ _ holder within inductionHypothesis =>
      rcases holder.shows part.member.shows (within.ne_null other) meant with
        ⟨middle, middleMeant, isMiddle⟩
      rcases inductionHypothesis middleMeant with ⟨b, isMeant, isFound⟩
      refine ⟨b, isMeant, ?_⟩
      rw [Path.get, isMiddle]
      exact isFound

end Along

/-!
## Members at the end of a path
-/

section Members

variable {way : Way} {outer inner : Kind} {path : Path outer inner} {around hold : Form -> Form}
  {α : Type} {means : Form -> α -> Prop} {member : Member inner means} {form other : Form}
  {text otherText : String}

/-- The data of a member at the end of a path. -/
def Path.data (path : Path outer inner) (member : Member inner means) (a : outer.Data) :
    Option α :=
  (path.get a).bind member.get

/-- What stands under the name of a member is read as what it means, and found
at the member's place. -/
theorem Along.decode_shows (along : Along way path around)
    (under : Under way inner member.name hold) (solid : way.seen form ≠ .null)
    (written : (around (hold form)).Written text.toUTF8.toList) {a : outer.Data}
    (accepted : outer.codec.decode way (supplyOfText text) = .ok a) :
    Exists fun b => means (way.seen form) b ∧ path.data member a = some b := by
  have reads := outer.codec_follows.readsForms (Nat.le_refl _)
  have meant := ((reads.decode_iff written).mp accepted).2
  rcases along.seen with ⟨found, foundAlong, isFound⟩
  rcases under.seen with ⟨foundHold, foundUnder, isHeld⟩
  rw [isFound, isHeld] at meant
  rcases foundAlong.shows (foundUnder.ne_null _) meant with ⟨model, modelMeant, isModel⟩
  rcases foundUnder.shows member.shows solid modelMeant with ⟨b, isMeant, isShown⟩
  refine ⟨b, isMeant, ?_⟩
  rw [Path.data, isModel]
  exact isShown

/-- What means nothing under the name of a member is refused. -/
theorem Along.not_decoded (along : Along way path around)
    (under : Under way inner member.name hold) (barred : Barred means (way.seen form))
    (written : (around (hold form)).Written text.toUTF8.toList) (a : outer.Data) :
    outer.codec.decode way (supplyOfText text) ≠ .ok a := by
  rcases under.seen with ⟨foundHold, foundUnder, isHeld⟩
  refine along.site.not_decoded ?_ written a
  rw [isHeld]
  exact foundUnder.barred member.keeps barred

/-- Of forms that both mean something under the name of a member, either both or
none are accepted. -/
theorem Along.accepted_iff (along : Along way path around)
    (under : Under way inner member.name hold) (same : SameDecoding form other)
    (even : Even means (way.seen form) (way.seen other))
    (written : (around (hold form)).Written text.toUTF8.toList)
    (otherWritten : (around (hold other)).Written otherText.toUTF8.toList) :
    (Exists fun a => outer.codec.decode way (supplyOfText text) = .ok a) ↔
      Exists fun a => outer.codec.decode way (supplyOfText otherText) = .ok a := by
  rcases under.seen with ⟨foundHold, foundUnder, isHeld⟩
  refine along.site.accepted_iff (under.sameDecoding same) ?_ written otherWritten
  rw [isHeld, isHeld]
  exact foundUnder.even member.keeps even

/-- Forms that mean the same under the name of a member are read the same. -/
theorem Along.decode_congr (along : Along way path around)
    (under : Under way inner member.name hold) (same : SameDecoding form other)
    (alike : Alike means (way.seen form) (way.seen other))
    (written : (around (hold form)).Written text.toUTF8.toList)
    (otherWritten : (around (hold other)).Written otherText.toUTF8.toList) (a : outer.Data) :
    outer.codec.decode way (supplyOfText text) = .ok a ↔
      outer.codec.decode way (supplyOfText otherText) = .ok a := by
  rcases under.seen with ⟨foundHold, foundUnder, isHeld⟩
  refine along.site.decode_congr (under.sameDecoding same) ?_ written otherWritten a
  rw [isHeld, isHeld]
  exact foundUnder.alike member.keeps alike

end Members

end Model
end RepoInspector
