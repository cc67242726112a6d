import RepoInspector.Proofs.Json.Decodability

namespace RepoInspector
namespace Json

/-!
# Changed documents

Two changes of a form that leave alone what its members say: a member is added
to one of its objects, or members change places.  Both can happen at any
depth.  What the names of members are decoded into changes in the same way,
and so does whether the form decodes.
-/

theorem named_perm {ι : Type} {members others : List (String × ι)}
    (permuted : members.Perm others) (name : String) :
    (named name members).Perm (named name others) :=
  permuted.filterMap _

namespace Form

theorem keyed_append_iff {before after : List (List Piece × Form)}
    {entries : List (String × Form)} :
    Keyed (before ++ after) entries ↔ Exists fun left => Exists fun right =>
      entries = left ++ right ∧ Keyed before left ∧ Keyed after right := by
  induction before generalizing entries with
  | nil =>
      constructor
      · intro keyed
        exact ⟨[], entries, rfl, .nil, keyed⟩
      · intro given
        rcases given with ⟨left, right, rfl, keyedLeft, keyedRight⟩
        cases keyedLeft
        exact keyedRight
  | cons member before inductionHypothesis =>
      constructor
      · intro keyed
        cases keyed with
        | cons denoted rest =>
            rcases inductionHypothesis.mp rest with ⟨left, right, rfl, keyedLeft, keyedRight⟩
            exact ⟨_ :: left, right, rfl, .cons denoted keyedLeft, keyedRight⟩
      · intro given
        rcases given with ⟨left, right, rfl, keyedLeft, keyedRight⟩
        cases keyedLeft with
        | cons denoted rest =>
            exact .cons denoted (inductionHypothesis.mpr ⟨_, right, rfl, rest, keyedRight⟩)

/-- The names around one member, and its own. -/
theorem keyed_around_iff {before after : List (List Piece × Form)} {pieces : List Piece}
    {form : Form} {entries : List (String × Form)} :
    Keyed (before ++ (pieces, form) :: after) entries ↔
      Exists fun left => Exists fun name => Exists fun right =>
        entries = left ++ (name, form) :: right ∧ Keyed before left ∧
          Piece.denoted? pieces = some name ∧ Keyed after right := by
  rw [keyed_append_iff]
  constructor
  · intro given
    rcases given with ⟨left, right, rfl, keyedLeft, keyedRight⟩
    cases keyedRight with
    | cons denoted rest => exact ⟨left, _, _, rfl, keyedLeft, denoted, rest⟩
  · intro given
    rcases given with ⟨left, name, right, rfl, keyedLeft, denoted, keyedRight⟩
    exact ⟨left, _, rfl, keyedLeft, .cons denoted keyedRight⟩

/-- What is asked of entries can be asked with one entry more, where the others
are those of the members around it. -/
theorem exists_keyed_inserted {before after : List (List Piece × Form)} {pieces : List Piece}
    {name : String} {value : Form} (denoted : Piece.denoted? pieces = some name)
    {asked also : List (String × Form) -> Prop}
    (same : forall left right, Keyed before left -> Keyed after right ->
      (asked (left ++ right) ↔ also (left ++ (name, value) :: right))) :
    (Exists fun entries => Keyed (before ++ after) entries ∧ asked entries) ↔
      Exists fun entries => Keyed (before ++ (pieces, value) :: after) entries ∧ also entries := by
  constructor
  · intro given
    rcases given with ⟨_, keyed, isAsked⟩
    rcases keyed_append_iff.mp keyed with ⟨left, right, rfl, keyedLeft, keyedRight⟩
    refine ⟨left ++ (name, value) :: right, ?_, (same left right keyedLeft keyedRight).mp isAsked⟩
    exact keyed_around_iff.mpr ⟨left, name, right, rfl, keyedLeft, denoted, keyedRight⟩
  · intro given
    rcases given with ⟨_, keyed, isAsked⟩
    rcases keyed_around_iff.mp keyed with ⟨left, _, right, rfl, keyedLeft, again, keyedRight⟩
    cases denoted.symm.trans again
    refine ⟨left ++ right, ?_, (same left right keyedLeft keyedRight).mpr isAsked⟩
    exact keyed_append_iff.mpr ⟨left, right, rfl, keyedLeft, keyedRight⟩

/-- The same whatever the others are. -/
theorem exists_keyed_added {before after : List (List Piece × Form)} {pieces : List Piece}
    {name : String} {value : Form} (denoted : Piece.denoted? pieces = some name)
    {asked also : List (String × Form) -> Prop}
    (same : forall left right, asked (left ++ right) ↔ also (left ++ (name, value) :: right)) :
    (Exists fun entries => Keyed (before ++ after) entries ∧ asked entries) ↔
      Exists fun entries => Keyed (before ++ (pieces, value) :: after) entries ∧ also entries :=
  exists_keyed_inserted denoted fun left right _ _ => same left right

/-- What is asked of entries can be asked with another item in one of them. -/
theorem exists_keyed_changed {before after : List (List Piece × Form)} {pieces : List Piece}
    {form other : Form} {asked also : List (String × Form) -> Prop}
    (same : forall left name right, Piece.denoted? pieces = some name ->
      (asked (left ++ (name, form) :: right) ↔ also (left ++ (name, other) :: right))) :
    (Exists fun entries => Keyed (before ++ (pieces, form) :: after) entries ∧ asked entries) ↔
      Exists fun entries => Keyed (before ++ (pieces, other) :: after) entries ∧ also entries := by
  constructor
  · intro given
    rcases given with ⟨_, keyed, isAsked⟩
    rcases keyed_around_iff.mp keyed with ⟨left, name, right, rfl, keyedLeft, denoted, keyedRight⟩
    refine ⟨left ++ (name, other) :: right, ?_, (same left name right denoted).mp isAsked⟩
    exact keyed_around_iff.mpr ⟨left, name, right, rfl, keyedLeft, denoted, keyedRight⟩
  · intro given
    rcases given with ⟨_, keyed, isAsked⟩
    rcases keyed_around_iff.mp keyed with ⟨left, name, right, rfl, keyedLeft, denoted, keyedRight⟩
    refine ⟨left ++ (name, form) :: right, ?_, (same left name right denoted).mpr isAsked⟩
    exact keyed_around_iff.mpr ⟨left, name, right, rfl, keyedLeft, denoted, keyedRight⟩

/-- The same where the name of that entry is known. -/
theorem exists_keyed_changed_under {before after : List (List Piece × Form)} {pieces : List Piece}
    {name : String} (denoted : Piece.denoted? pieces = some name) {form other : Form}
    {asked also : List (String × Form) -> Prop}
    (same : forall left right,
      asked (left ++ (name, form) :: right) ↔ also (left ++ (name, other) :: right)) :
    (Exists fun entries => Keyed (before ++ (pieces, form) :: after) entries ∧ asked entries) ↔
      Exists fun entries => Keyed (before ++ (pieces, other) :: after) entries ∧ also entries := by
  apply exists_keyed_changed
  intro left found right again
  cases denoted.symm.trans again
  exact same left right

/-- Members that change places have entries that do. -/
theorem Keyed.perm {members others : List (List Piece × Form)} (permuted : members.Perm others)
    {entries : List (String × Form)} (keyed : Keyed members entries) :
    Exists fun otherEntries => Keyed others otherEntries ∧ entries.Perm otherEntries := by
  induction permuted generalizing entries with
  | nil => exact ⟨entries, keyed, .refl entries⟩
  | cons member _ inductionHypothesis =>
      cases keyed with
      | cons denoted rest =>
          rcases inductionHypothesis rest with ⟨others, keyedOthers, permutedRest⟩
          exact ⟨_, .cons denoted keyedOthers, permutedRest.cons _⟩
  | swap first second members =>
      cases keyed with
      | cons denotedSecond rest =>
          cases rest with
          | cons denotedFirst rest =>
              exact ⟨_, .cons denotedFirst (.cons denotedSecond rest), .swap _ _ _⟩
  | trans _ _ firstHypothesis secondHypothesis =>
      rcases firstHypothesis keyed with ⟨middle, keyedMiddle, toMiddle⟩
      rcases secondHypothesis keyedMiddle with ⟨others, keyedOthers, fromMiddle⟩
      exact ⟨others, keyedOthers, toMiddle.trans fromMiddle⟩

/-- An object decodes when it does without one of its members, and the name and
the value of that member are decoded too. -/
theorem decodes_around_iff {before after : List (List Piece × Form)} {pieces : List Piece}
    {form : Form} {allowance : Nat} :
    (Form.object (before ++ (pieces, form) :: after)).Decodes (allowance + 1) ↔
      (Form.object (before ++ after)).Decodes (allowance + 1) ∧
        (Exists fun name => Piece.denoted? pieces = some name) ∧ form.Decodes allowance := by
  rw [decodes_object_iff, decodes_object_iff]
  constructor
  · intro given
    rcases given with ⟨_, keyed, decode⟩
    rcases keyed_around_iff.mp keyed with ⟨left, name, right, rfl, keyedLeft, denoted, keyedRight⟩
    rw [List.forall_mem_append, List.forall_mem_cons] at decode
    refine ⟨⟨left ++ right, ?_, ?_⟩, ⟨name, denoted⟩, decode.2.1⟩
    · exact keyed_append_iff.mpr ⟨left, right, rfl, keyedLeft, keyedRight⟩
    · exact List.forall_mem_append.mpr ⟨decode.1, decode.2.2⟩
  · intro given
    rcases given with ⟨⟨_, keyed, decode⟩, ⟨name, denoted⟩, decodes⟩
    rcases keyed_append_iff.mp keyed with ⟨left, right, rfl, keyedLeft, keyedRight⟩
    rw [List.forall_mem_append] at decode
    refine ⟨left ++ (name, form) :: right, ?_, ?_⟩
    · exact keyed_around_iff.mpr ⟨left, name, right, rfl, keyedLeft, denoted, keyedRight⟩
    · rw [List.forall_mem_append, List.forall_mem_cons]
      exact ⟨decode.1, decodes, decode.2⟩

/-!
## Members that change places
-/

/-- Two forms that differ only in the order of the members of objects, in any
number of objects and at any depth. -/
inductive Reordered : Form -> Form -> Prop
  | refl (form : Form) : Reordered form form
  | trans {form middle other : Form} (first : Reordered form middle)
      (second : Reordered middle other) : Reordered form other
  /-- The members of an object change places. -/
  | permuted {members others : List (List Piece × Form)} (permuted : members.Perm others) :
      Reordered (.object members) (.object others)
  /-- An item of an array is reordered. -/
  | item {before after : List Form} {item other : Form} (inner : Reordered item other) :
      Reordered (.array (before ++ item :: after)) (.array (before ++ other :: after))
  /-- The value of a member is reordered. -/
  | member {before after : List (List Piece × Form)} {pieces : List Piece} {form other : Form}
      (inner : Reordered form other) :
      Reordered (.object (before ++ (pieces, form) :: after))
        (.object (before ++ (pieces, other) :: after))

namespace Reordered

variable {form other : Form}

theorem symm (reordered : Reordered form other) : Reordered other form := by
  induction reordered with
  | refl form => exact .refl form
  | trans _ _ first second => exact .trans second first
  | permuted permuted => exact .permuted permuted.symm
  | item _ inner => exact .item inner
  | member _ inner => exact .member inner

theorem eq_null (reordered : Reordered form other) : form = .null -> other = .null := by
  induction reordered with
  | refl form => exact id
  | trans _ _ first second => exact fun isNull => second (first isNull)
  | permuted | item | member => exact nofun

/-- Nothing but null is null in another order. -/
theorem null_iff (reordered : Reordered form other) : form = .null ↔ other = .null :=
  ⟨reordered.eq_null, reordered.symm.eq_null⟩

theorem decodes (reordered : Reordered form other) {allowance : Nat}
    (given : form.Decodes allowance) : other.Decodes allowance := by
  induction reordered generalizing allowance with
  | refl form => exact given
  | trans _ _ first second => exact second (first given)
  | permuted permuted =>
      rcases allowance with _ | allowance
      · exact absurd given not_decodes_object
      · rcases decodes_object_iff.mp given with ⟨entries, keyed, decode⟩
        rcases keyed.perm permuted with ⟨others, keyedOthers, permutedEntries⟩
        refine decodes_object_iff.mpr ⟨others, keyedOthers, fun entry listed => ?_⟩
        exact decode entry (permutedEntries.mem_iff.mpr listed)
  | item _ inner =>
      rcases allowance with _ | allowance
      · exact absurd given not_decodes_array
      · rw [decodes_array_iff, List.forall_mem_append, List.forall_mem_cons] at given ⊢
        exact ⟨given.1, inner given.2.1, given.2.2⟩
  | member _ inner =>
      rcases allowance with _ | allowance
      · exact absurd given not_decodes_object
      · rw [decodes_around_iff] at given ⊢
        exact ⟨given.1, given.2.1, inner given.2.2⟩

/-- Whether a form decodes does not depend on the order of members. -/
theorem decodes_iff (reordered : Reordered form other) {allowance : Nat} :
    form.Decodes allowance ↔ other.Decodes allowance :=
  ⟨reordered.decodes, reordered.symm.decodes⟩

end Reordered

/-!
## Members that are added
-/

/-- A step into a form: to the value of a member, or to an item by the number of
items before it. -/
inductive Step
  | member (name : String)
  | item (index : Nat)
deriving DecidableEq, Repr

/-- A form grows by one member in one of its objects, at any position there.
The path has the steps in which the object is found. -/
inductive Adds (name : String) (value : Form) : List Step -> Form -> Form -> Prop
  | here {before after : List (List Piece × Form)} {pieces : List Piece}
      (denoted : Piece.denoted? pieces = some name) :
      Adds name value [] (.object (before ++ after)) (.object (before ++ (pieces, value) :: after))
  | member {step : String} {path : List Step} {before after : List (List Piece × Form)}
      {pieces : List Piece} {form grown : Form} (denoted : Piece.denoted? pieces = some step)
      (inner : Adds name value path form grown) :
      Adds name value (.member step :: path) (.object (before ++ (pieces, form) :: after))
        (.object (before ++ (pieces, grown) :: after))
  | item {path : List Step} {before after : List Form} {form grown : Form}
      (inner : Adds name value path form grown) :
      Adds name value (.item before.length :: path) (.array (before ++ form :: after))
        (.array (before ++ grown :: after))

namespace Adds

variable {name : String} {value form grown : Form} {path : List Step}

theorem ne_null (adds : Adds name value path form grown) : form ≠ .null ∧ grown ≠ .null := by
  cases adds <;> exact ⟨nofun, nofun⟩

/-- What is added to a text is in it. -/
theorem writable (adds : Adds name value path form grown) (writable : grown.Writable) :
    value.Writable := by
  induction adds with
  | here denoted =>
      exact (writable_object.mp writable _ (List.mem_append_right _ List.mem_cons_self)).2
  | member denoted _ inductionHypothesis =>
      apply inductionHypothesis
      exact (writable_object.mp writable _ (List.mem_append_right _ List.mem_cons_self)).2
  | item _ inductionHypothesis =>
      apply inductionHypothesis
      exact writable_array.mp writable _ (List.mem_append_right _ List.mem_cons_self)

/-- A form that decodes still does with a member more when the value of that
member decodes where it stands, in as many open containers as its path has
steps, and the object itself. -/
theorem decodes_iff (adds : Adds name value path form grown) {allowance : Nat}
    (decodes : form.Decodes allowance) :
    grown.Decodes allowance ↔ value.Decodes (allowance - (path.length + 1)) := by
  induction adds generalizing allowance with
  | here denoted =>
      rcases allowance with _ | allowance
      · exact absurd decodes not_decodes_object
      · rw [decodes_around_iff, List.length_nil, Nat.zero_add, Nat.add_sub_cancel]
        constructor
        · exact fun given => given.2.2
        · exact fun given => ⟨decodes, ⟨name, denoted⟩, given⟩
  | member denoted _ inductionHypothesis =>
      rcases allowance with _ | allowance
      · exact absurd decodes not_decodes_object
      · rw [decodes_around_iff] at decodes
        rw [decodes_around_iff, List.length_cons, Nat.add_sub_add_right,
          ← inductionHypothesis decodes.2.2]
        constructor
        · exact fun given => given.2.2
        · exact fun given => ⟨decodes.1, decodes.2.1, given⟩
  | item _ inductionHypothesis =>
      rcases allowance with _ | allowance
      · exact absurd decodes not_decodes_array
      · rw [decodes_array_iff, List.forall_mem_append, List.forall_mem_cons] at decodes
        rw [decodes_array_iff, List.forall_mem_append, List.forall_mem_cons, List.length_cons,
          Nat.add_sub_add_right, ← inductionHypothesis decodes.2.1]
        constructor
        · exact fun given => given.2.1
        · exact fun given => ⟨decodes.1, given, decodes.2.2⟩

end Adds

end Form
end Json
end RepoInspector
