import RepoInspector.Proofs.Model.Kinds

namespace RepoInspector
namespace Model

open Json
open Record

/-!
# Forms under a name

A form is read under a name where it is the value of a member, or the item of
an array whose place is that of the name.  Either way the larger form means
what its entries tell, and all of these but one are there before the form is
known.  What can be exchanged under a name, and what spoils the larger form,
therefore comes down to the entries of both.
-/

/-- Where a form is read under a name, in a form that is read as a model of a
kind.  A dictionary has only the last member of a name. -/
inductive Under (way : Way) (kind : Kind) (name : String) : (Form -> Form) -> Prop
  | member {pieces : List Piece} {before after : List (List Piece × Form)}
      (denoted : Piece.denoted? pieces = some name)
      (last : way = .settled -> ∀ member ∈ after, Piece.denoted? member.1 ≠ some name) :
      Under way kind name fun form => .object (before ++ (pieces, form) :: after)
  | item {before after : List Form} (listed : kind.isListed = true)
      (placed : kind.memberNames[before.length]? = some name) :
      Under way kind name fun form => .array (before ++ form :: after)

namespace Under

variable {way : Way} {kind : Kind} {name : String} {hold : Form -> Form} {form other : Form}

/-- What the larger form means is told by an entry for the held form among
others that do not depend on it, unless it can mean nothing at all. -/
theorem means (under : Under way kind name hold) :
    (forall form a, ¬ kind.Means (hold form) a) ∨ Exists fun left => Exists fun right =>
      forall form a, kind.Means (hold form) a ↔
        (kind.HandsOn name -> form.Decodes (nestingAllowance - 1)) ∧
          kind.Told (left ++ (name, form) :: right) a := by
  cases under with
  | @member pieces before after denoted _ =>
      have split : forall form entries, Form.Keyed (before ++ (pieces, form) :: after) entries ->
          Exists fun left => Exists fun right => entries = left ++ (name, form) :: right ∧
            Form.Keyed before left ∧ Form.Keyed after right := by
        intro form entries keyed
        rcases Form.keyed_around_iff.mp keyed with ⟨left, _, right, rfl, first, again, rest⟩
        cases denoted.symm.trans again
        exact ⟨left, right, rfl, first, rest⟩
      by_cases readable : Exists fun left => Exists fun right =>
        Form.Keyed before left ∧ Form.Keyed after right ∧ kind.Handed (left ++ right)
      · rcases readable with ⟨left, right, first, rest, handed⟩
        refine .inr ⟨left, right, fun form a => Kind.means_object.trans ?_⟩
        constructor
        · intro given
          rcases given with ⟨_, keyed, isHanded, told⟩
          rcases split form _ keyed with ⟨_, _, rfl, again, alsoAgain⟩
          cases first.unique again
          cases rest.unique alsoAgain
          exact ⟨(Kind.handed_around_iff.mp isHanded).1, told⟩
        · intro given
          exact ⟨_, Form.keyed_around_iff.mpr ⟨left, name, right, rfl, first, denoted, rest⟩,
            Kind.handed_around_iff.mpr ⟨given.1, handed⟩, given.2⟩
      · refine .inl fun form a meant => readable ?_
        rcases Kind.means_object.mp meant with ⟨_, keyed, handed, _⟩
        rcases split form _ keyed with ⟨left, right, rfl, first, rest⟩
        exact ⟨left, right, first, rest, (Kind.handed_around_iff.mp handed).2⟩
  | @item before after listed placed =>
      have sameLength : forall form : Form,
          (before ++ form :: after).length = before.length + (after.length + 1) :=
        fun _ => List.length_append
      rcases @zip_placed _ before after name placed with ⟨left, right, split⟩
      by_cases fits : before.length + (after.length + 1) ≤ kind.memberNames.length
      · refine .inr ⟨left, right, fun form a => Kind.means_array.trans ?_⟩
        rw [sameLength, split]
        have handed : kind.HandsOn name -> form.Decodes (nestingAllowance - 1) :=
          Kind.handed_of_listed listed [(name, form)] _ List.mem_cons_self
        exact ⟨fun given => ⟨handed, given.2.2⟩, fun given => ⟨listed, fits, given.2⟩⟩
      · refine .inl fun form a meant => fits ?_
        rw [← sameLength form]
        exact (Kind.means_array.mp meant).2.1

/-- The larger form is no null. -/
theorem ne_null (under : Under way kind name hold) (form : Form) : hold form ≠ .null := by
  cases under <;> exact nofun

theorem sameDecoding (under : Under way kind name hold) (same : SameDecoding form other) :
    SameDecoding (hold form) (hold other) := by
  cases under with
  | member => exact same.member
  | item => exact same.item

variable {α : Type} {grammar : Form -> α -> Prop}

/-- Forms that mean the same can be exchanged. -/
theorem alike (under : Under way kind name hold) (keeps : kind.Keeps name grammar)
    (alike : Alike grammar form other) : Alike kind.Means (hold form) (hold other) where
  same a := by
    rcases keeps.held with ⟨codec, follows, holds⟩
    have sameUnder : SameUnder kind.fields name form other := fun field listed isNamed =>
      (holds field listed isNamed).means_iff follows (Nat.le_refl _) alike
    rcases under.means with never | ⟨left, right, means_iff⟩
    · exact iff_of_false (never form a) (never other a)
    · rw [means_iff, means_iff, alike.decodes, kind.told_local.changed sameUnder]
  decodes := under.sameDecoding alike.decodes
  null_iff := iff_of_false (under.ne_null form) (under.ne_null other)

/-- Forms that mean something together can be exchanged as far as it matters
whether the larger form means something. -/
theorem even (under : Under way kind name hold) (keeps : kind.Keeps name grammar)
    (even : Even grammar form other) : Even kind.Means (hold form) (hold other) where
  accepted := by
    rcases keeps.held with ⟨codec, follows, holds⟩
    have told_iff {left right : List (String × Form)} :
        (Exists fun a => kind.Told (left ++ (name, form) :: right) a) ↔
          Exists fun a => kind.Told (left ++ (name, other) :: right) a :=
      kind.told_accepts.changed fun field listed isNamed =>
        (holds field listed isNamed).accepts_iff follows (Nat.le_refl _) even
    rcases under.means with never | ⟨left, right, means_iff⟩
    · exact iff_of_false (fun given => never form _ given.choose_spec)
        (fun given => never other _ given.choose_spec)
    · simp only [means_iff, exists_and_left, told_iff, even.decodes (nestingAllowance - 1)]
  decodes := under.sameDecoding even.decodes
  null_iff := iff_of_false (under.ne_null form) (under.ne_null other)

/-- A form that means nothing spoils the larger one, for no entry under a known
name is passed over. -/
theorem barred (under : Under way kind name hold) (keeps : kind.Keeps name grammar)
    (barred : Barred grammar form) : Barred kind.Means (hold form) where
  solid := under.ne_null form
  meaningless a := by
    intro meant
    rcases keeps.held with ⟨codec, follows, holds⟩
    rcases under.means with never | ⟨left, right, means_iff⟩
    · exact never form a meant
    · have told := ((means_iff form a).mp meant).2
      have listed : (name, form) ∈ left ++ (name, form) :: right :=
        List.mem_append_right _ List.mem_cons_self
      rcases kind.told_heeds.means told listed keeps.known with
        ⟨field, isField, isNamed, stored, isStored⟩
      exact (holds field isField isNamed).meaningless follows (Nat.le_refl _) barred stored
        isStored

/-- In what is found of the larger form on a way, what is found of the held form
stands under the same name. -/
theorem seen (under : Under way kind name hold) :
    Exists fun other => Under way kind name other ∧
      forall form, way.seen (hold form) = other (way.seen form) := by
  cases way with
  | text | stream => exact ⟨hold, under, fun _ => rfl⟩
  | settled =>
      cases under with
      | @member pieces before after denoted last =>
          have absent : some name ∉ after.map fun member => Piece.denoted? member.1 := by
            rw [List.mem_map]
            rintro ⟨member, listed, same⟩
            exact last rfl member listed same
          rcases Form.exists_settled_around denoted absent with ⟨left, right, stillAbsent, kept⟩
          refine ⟨fun form => .object (left ++ (pieces, form) :: right),
            .member denoted fun _ member listed same => stillAbsent ?_, kept⟩
          exact same ▸ List.mem_map_of_mem listed
      | @item before after listed placed =>
          have stillPlaced :
              kind.memberNames[(before.map Form.settled).length]? = some name := by
            rw [List.length_map]
            exact placed
          refine ⟨fun form => .array (before.map Form.settled ++ form :: after.map Form.settled),
            .item listed stillPlaced, fun form => ?_⟩
          rw [Way.seen_array, List.map_append, List.map_cons]
          rfl

end Under

end Model
end RepoInspector
