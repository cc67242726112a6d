import Mathlib.Data.List.Forall2
import RepoInspector.Proofs.Json.Decoding

namespace RepoInspector
namespace Json

/-!
# Members by name

Once the names of an object are decoded, its members are entries, and what a
record asks of them is only which items each name has.  Nothing else about
their order matters.  `Form.Tells` is decoding up to this: it relates a form to
every value that has the right items under each name, so it holds of a value
whose members stand in text order and of one that is a dictionary.
-/

variable {ι κ : Type}

/-- The items of all members of a name, in text order. -/
def named (name : String) (members : List (String × ι)) : List ι :=
  members.filterMap fun member => if member.1 = name then some member.2 else none

@[simp] theorem named_nil (name : String) : named name ([] : List (String × ι)) = [] := rfl

theorem named_cons (name : String) (member : String × ι) (members : List (String × ι)) :
    named name (member :: members) =
      if member.1 = name then member.2 :: named name members else named name members := by
  by_cases same : member.1 = name
  · simp only [named, List.filterMap_cons, if_pos same]
  · simp only [named, List.filterMap_cons, if_neg same]

theorem named_cons_self {name : String} (item : ι) (members : List (String × ι)) :
    named name ((name, item) :: members) = item :: named name members := by
  rw [named_cons, if_pos rfl]

theorem named_cons_of_ne {name other : String} (different : other ≠ name) (item : ι)
    (members : List (String × ι)) : named name ((other, item) :: members) = named name members := by
  rw [named_cons, if_neg different]

theorem named_append (name : String) (members later : List (String × ι)) :
    named name (members ++ later) = named name members ++ named name later := by
  simp only [named, List.filterMap_append]

theorem mem_named {name : String} {item : ι} {members : List (String × ι)} :
    item ∈ named name members ↔ (name, item) ∈ members := by
  simp only [named, List.mem_filterMap]
  constructor
  · intro given
    rcases given with ⟨⟨other, found⟩, listed, kept⟩
    by_cases same : other = name
    · rw [if_pos same] at kept
      cases same
      cases kept
      exact listed
    · rw [if_neg same] at kept
      cases kept
  · intro listed
    exact ⟨(name, item), listed, if_pos rfl⟩

theorem named_eq_nil {name : String} {members : List (String × ι)}
    (absent : ∀ member ∈ members, member.1 ≠ name) : named name members = [] := by
  rw [List.eq_nil_iff_forall_not_mem]
  intro item listed
  exact absent (name, item) (mem_named.mp listed) rfl

/-- Members that correspond one by one have corresponding items of each name. -/
theorem named_forall₂ {relation : ι -> κ -> Prop} {members : List (String × ι)}
    {others : List (String × κ)}
    (same : List.Forall₂ (fun member other => member.1 = other.1 ∧ relation member.2 other.2)
      members others) (name : String) :
    List.Forall₂ relation (named name members) (named name others) := by
  induction same with
  | nil => exact .nil
  | cons head _ inductionHypothesis =>
      rw [named_cons, named_cons, head.1]
      split
      · exact .cons head.2 inductionHypothesis
      · exact inductionHypothesis

theorem names_forall₂ {relation : ι -> κ -> Prop} {members : List (String × ι)}
    {others : List (String × κ)}
    (same : List.Forall₂ (fun member other => member.1 = other.1 ∧ relation member.2 other.2)
      members others) : members.map Prod.fst = others.map Prod.fst := by
  induction same with
  | nil => rfl
  | cons head _ inductionHypothesis =>
      rw [List.map_cons, List.map_cons, head.1, inductionHypothesis]

namespace Form

/-- The names of members are decoded. -/
inductive Keyed : List (List Piece × Form) -> List (String × Form) -> Prop
  | nil : Keyed [] []
  | cons {pieces : List Piece} {name : String} {form : Form}
      {members : List (List Piece × Form)} {entries : List (String × Form)}
      (denoted : Piece.denoted? pieces = some name) (rest : Keyed members entries) :
      Keyed ((pieces, form) :: members) ((name, form) :: entries)

/-- The names of members are decoded in one way. -/
theorem Keyed.unique {members : List (List Piece × Form)} {first second : List (String × Form)}
    (left : Keyed members first) (right : Keyed members second) : first = second := by
  induction left generalizing second with
  | nil => cases right; rfl
  | cons denoted _ inductionHypothesis =>
      cases right with
      | cons again rest =>
          cases denoted.symm.trans again
          rw [inductionHypothesis rest]

/-- What some decoding of members satisfies is what theirs does. -/
theorem Keyed.exists_iff {members : List (List Piece × Form)} {entries : List (String × Form)}
    (keyed : Keyed members entries) {satisfied : List (String × Form) -> Prop} :
    (Exists fun found => Keyed members found ∧ satisfied found) ↔ satisfied entries := by
  constructor
  · intro given
    rcases given with ⟨found, again, holds⟩
    cases keyed.unique again
    exact holds
  · exact fun holds => ⟨entries, keyed, holds⟩

/-- A value has what a form denotes, with the members of every object in any
order that keeps the items of one name in theirs. -/
inductive Tells : Form -> Value -> Prop
  | null : Tells .null .null
  | boolean {b : Bool} : Tells (.boolean b) (.boolean b)
  | number {numeral : Numeral} {n : Number} (inRange : numeral.number = .ok n) :
      Tells (.number numeral) (.number n)
  | text {pieces : List Piece} {s : String} (denoted : Piece.denoted? pieces = some s) :
      Tells (.text pieces) (.text s)
  | array {items : List Form} {values : List Value} (inner : List.Forall₂ Tells items values) :
      Tells (.array items) (.array values)
  | object {members : List (List Piece × Form)} {entries : List (String × Form)}
      {values : List (String × Value)} (keyed : Keyed members entries)
      (each : forall name, List.Forall₂ Tells (named name entries) (named name values)) :
      Tells (.object members) (.object values)

theorem denoteAll_iff {allowance : Nat} {items : List Form} {values : List Value} :
    DenoteAll allowance items values ↔ List.Forall₂ (Denotes allowance) items values := by
  constructor
  · intro denoted
    induction items generalizing values with
    | nil => cases denoted; exact .nil
    | cons item items inductionHypothesis =>
        cases denoted with
        | cons first rest => exact .cons first (inductionHypothesis rest)
  · intro denoted
    induction denoted with
    | nil => exact .nil
    | cons first _ inductionHypothesis => exact .cons first inductionHypothesis

/-- Members are decoded when their names are, and then their items. -/
theorem denoteMembers_iff {allowance : Nat} {members : List (List Piece × Form)}
    {values : List (String × Value)} :
    DenoteMembers allowance members values ↔
      Exists fun entries => Keyed members entries ∧
        List.Forall₂ (fun entry value => entry.1 = value.1 ∧ Denotes allowance entry.2 value.2)
          entries values := by
  constructor
  · intro denoted
    induction members generalizing values with
    | nil => cases denoted; exact ⟨[], .nil, .nil⟩
    | cons member members inductionHypothesis =>
        cases denoted with
        | cons name first rest =>
            rcases inductionHypothesis rest with ⟨entries, keyed, all⟩
            exact ⟨_, .cons name keyed, .cons ⟨rfl, first⟩ all⟩
  · intro given
    rcases given with ⟨entries, keyed, all⟩
    induction keyed generalizing values with
    | nil => cases all; exact .nil
    | cons denoted _ inductionHypothesis =>
        rcases values with _ | ⟨⟨name, value⟩, values⟩
        · cases all
        · rcases List.forall₂_cons.mp all with ⟨⟨same, first⟩, rest⟩
          cases same
          exact .cons denoted first (inductionHypothesis rest)

mutual

/-- What a form denotes has the items of each name. -/
theorem Denotes.tells {allowance : Nat} {form : Form} {value : Value} :
    Denotes allowance form value -> Tells form value
  | .null => .null
  | .boolean => .boolean
  | .number inRange => .number inRange
  | .text denoted => .text denoted
  | .array inner => .array inner.tells
  | .object inner => by
      rcases inner.tells with ⟨entries, keyed, all⟩
      exact .object keyed (named_forall₂ all)

theorem DenoteAll.tells {allowance : Nat} {items : List Form} {values : List Value} :
    DenoteAll allowance items values -> List.Forall₂ Tells items values
  | .nil => .nil
  | .cons first rest => .cons first.tells rest.tells

theorem DenoteMembers.tells {allowance : Nat} {members : List (List Piece × Form)}
    {values : List (String × Value)} : DenoteMembers allowance members values ->
      Exists fun entries => Keyed members entries ∧
        List.Forall₂ (fun entry value => entry.1 = value.1 ∧ Tells entry.2 value.2)
          entries values
  | .nil => ⟨[], .nil, .nil⟩
  | .cons denoted first rest => by
      rcases rest.tells with ⟨entries, keyed, all⟩
      exact ⟨_, .cons denoted keyed, .cons ⟨rfl, first.tells⟩ all⟩

end

mutual

/-- A greater allowance changes nothing that is denoted. -/
theorem Denotes.mono {allowance more : Nat} (least : allowance ≤ more) {form : Form}
    {value : Value} : Denotes allowance form value -> Denotes more form value
  | .null => .null
  | .boolean => .boolean
  | .number inRange => .number inRange
  | .text denoted => .text denoted
  | .array inner => by
      rcases more with _ | more
      · exact absurd least (Nat.not_succ_le_zero _)
      · exact .array (inner.mono (Nat.le_of_succ_le_succ least))
  | .object inner => by
      rcases more with _ | more
      · exact absurd least (Nat.not_succ_le_zero _)
      · exact .object (inner.mono (Nat.le_of_succ_le_succ least))

theorem DenoteAll.mono {allowance more : Nat} (least : allowance ≤ more) {items : List Form}
    {values : List Value} : DenoteAll allowance items values -> DenoteAll more items values
  | .nil => .nil
  | .cons first rest => .cons (first.mono least) (rest.mono least)

theorem DenoteMembers.mono {allowance more : Nat} (least : allowance ≤ more)
    {members : List (List Piece × Form)} {values : List (String × Value)} :
    DenoteMembers allowance members values -> DenoteMembers more members values
  | .nil => .nil
  | .cons denoted first rest => .cons denoted (first.mono least) (rest.mono least)

end

theorem Decodes.mono {allowance more : Nat} (least : allowance ≤ more) {form : Form}
    (decodes : form.Decodes allowance) : form.Decodes more := by
  rcases decodes with ⟨value, denotes⟩
  exact ⟨value, denotes.mono least⟩

/-- Items have related partners one by one when each has one. -/
theorem exists_forall₂_iff {relation : ι -> κ -> Prop} {items : List ι} :
    (Exists fun others => List.Forall₂ relation items others) ↔
      ∀ item ∈ items, Exists fun other => relation item other := by
  induction items with
  | nil => exact ⟨fun _ _ => (nomatch ·), fun _ => ⟨[], .nil⟩⟩
  | cons item items inductionHypothesis =>
      rw [List.forall_mem_cons, ← inductionHypothesis]
      constructor
      · intro given
        rcases given with ⟨others, related⟩
        cases related with
        | cons first rest => exact ⟨⟨_, first⟩, _, rest⟩
      · intro given
        rcases given with ⟨⟨other, first⟩, others, rest⟩
        exact ⟨other :: others, .cons first rest⟩

/-- An array decodes when its items do, with one container fewer. -/
theorem decodes_array_iff {allowance : Nat} {items : List Form} :
    (Form.array items).Decodes (allowance + 1) ↔ ∀ item ∈ items, item.Decodes allowance := by
  refine Iff.trans ?_ exists_forall₂_iff
  constructor
  · intro given
    rcases given with ⟨value, denotes⟩
    cases denotes with
    | array inner => exact ⟨_, denoteAll_iff.mp inner⟩
  · intro given
    rcases given with ⟨values, inner⟩
    exact ⟨_, .array (denoteAll_iff.mpr inner)⟩

/-- Entries have values when each of them decodes. -/
theorem exists_values_iff {allowance : Nat} {entries : List (String × Form)} :
    (Exists fun values : List (String × Value) =>
      List.Forall₂ (fun entry value => entry.1 = value.1 ∧ Denotes allowance entry.2 value.2)
        entries values) ↔
    ∀ entry ∈ entries, entry.2.Decodes allowance := by
  refine exists_forall₂_iff.trans (forall_congr' fun entry => imp_congr_right fun _ => ?_)
  constructor
  · intro given
    rcases given with ⟨value, _, denotes⟩
    exact ⟨value.2, denotes⟩
  · intro given
    rcases given with ⟨value, denotes⟩
    exact ⟨(entry.1, value), rfl, denotes⟩

/-- An object decodes when its names do and its items, with one container fewer. -/
theorem decodes_object_iff {allowance : Nat} {members : List (List Piece × Form)} :
    (Form.object members).Decodes (allowance + 1) ↔
      Exists fun entries => Keyed members entries ∧
        ∀ entry ∈ entries, entry.2.Decodes allowance := by
  constructor
  · intro given
    rcases given with ⟨value, denotes⟩
    cases denotes with
    | object inner =>
        rcases denoteMembers_iff.mp inner with ⟨entries, keyed, all⟩
        exact ⟨entries, keyed, exists_values_iff.mp ⟨_, all⟩⟩
  · intro given
    rcases given with ⟨entries, keyed, decode⟩
    rcases exists_values_iff.mpr decode with ⟨values, all⟩
    exact ⟨_, .object (denoteMembers_iff.mpr ⟨entries, keyed, all⟩)⟩

/-- The entries of an object that decodes are decoded inside of it. -/
theorem Keyed.decode_of_decodes {members : List (List Piece × Form)}
    {entries : List (String × Form)} (keyed : Keyed members entries) {allowance : Nat}
    (decodes : (Form.object members).Decodes allowance) :
    ∀ entry ∈ entries, entry.2.Decodes (allowance - 1) := by
  rcases allowance with _ | allowance
  · rcases decodes with ⟨value, denotes⟩
    cases denotes
  · exact keyed.exists_iff.mp (decodes_object_iff.mp decodes)

end Form
end Json
end RepoInspector
