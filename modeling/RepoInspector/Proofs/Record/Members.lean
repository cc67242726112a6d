import RepoInspector.Proofs.Json.Entries
import RepoInspector.Record.Document

namespace RepoInspector
namespace Record

open Json

/-!
# Members and rows

A record reads its members one by one into slots, and so does every route that
leads to it.  What comes of this can be said field by field, without an order
of the members: a field whose name no member has keeps what it stores when it
is missing, a field with one member stores what that member tells, and a field
with two members is refused.  The statements hold for members of any kind, of
which each field can tell what they store.
-/

variable {ι κ : Type}

def names (fields : List Field) : List String := fields.map Field.name

theorem mem_names_cons {name : String} {field : Field} {fields : List Field} :
    name ∈ names (field :: fields) ↔ name = field.name ∨ name ∈ names fields := by
  rw [names, List.map_cons, List.mem_cons, ← names]

/-- What a field stores after its items: without one what it stores when it is
missing, and with one what that item tells. -/
def Stores {σ : Type} (absent : Option σ) (tells : ι -> σ -> Prop) : List ι -> σ -> Prop
  | [], stored => absent = some stored
  | [item], stored => tells item stored
  | _ :: _ :: _, _ => False

/-- What members tell the fields of a record, where `tells` is what an item
tells a field. -/
def Row.Told (tells : (field : Field) -> ι -> field.Stored -> Prop)
    (members : List (String × ι)) : {fields : List Field} -> Row fields -> Prop
  | [], () => True
  | field :: _, (stored, row) =>
      Stores field.absent (tells field) (named field.name members) stored ∧
        Row.Told tells members row

/-- What a slot becomes after items of its name. -/
def Refills {σ : Type} (tells : ι -> σ -> Prop) (slot : Option σ) : List ι -> Option σ -> Prop
  | [], after => after = slot
  | [item], after => slot = none ∧ Exists fun stored => tells item stored ∧ after = some stored
  | _ :: _ :: _, _ => False

/-- What slots become after members. -/
def Slots.Become (tells : (field : Field) -> ι -> field.Stored -> Prop)
    (members : List (String × ι)) : {fields : List Field} -> Slots fields -> Slots fields -> Prop
  | [], (), () => True
  | field :: _, (slot, slots), (after, afters) =>
      Refills (tells field) slot (named field.name members) after ∧
        Slots.Become tells members slots afters

/-- What the items of an array tell the fields of a record, one field after the
other.  Fields beyond the last item store what they do when missing. -/
def Row.Listed (tells : (field : Field) -> ι -> field.Stored -> Prop) :
    {fields : List Field} -> List ι -> Row fields -> Prop
  | [], [], () => True
  | [], _ :: _, () => False
  | field :: _, [], (stored, row) =>
      field.absent = some stored ∧ Row.Listed tells [] row
  | field :: _, item :: items, (stored, row) =>
      tells field item stored ∧ Row.Listed tells items row

section Slots

variable {tells : (field : Field) -> ι -> field.Stored -> Prop}

theorem Slots.become_nil {fields : List Field} {slots after : Slots fields} :
    Slots.Become tells [] slots after ↔ after = slots := by
  induction fields with
  | nil => exact ⟨fun _ => rfl, fun _ => trivial⟩
  | cons field fields inductionHypothesis =>
      rcases slots with ⟨slot, slots⟩
      rcases after with ⟨after, afters⟩
      simp only [Slots.Become, named_nil, Refills, inductionHypothesis, Prod.mk.injEq]

/-- A member that no field is named after changes no slot. -/
theorem Slots.become_unnamed {fields : List Field} {slots after : Slots fields}
    {member : String × ι} (unnamed : member.1 ∉ names fields) :
    Slots.Become tells [member] slots after ↔ after = slots := by
  induction fields with
  | nil => exact ⟨fun _ => rfl, fun _ => trivial⟩
  | cons field fields inductionHypothesis =>
      rcases slots with ⟨slot, slots⟩
      rcases after with ⟨after, afters⟩
      rw [mem_names_cons, not_or] at unnamed
      simp only [Slots.Become, named_cons, if_neg unnamed.1, named_nil, Refills,
        inductionHypothesis unnamed.2, Prod.mk.injEq]

theorem refills_cons {σ : Type} {tell : ι -> σ -> Prop} {slot after : Option σ} {item : ι}
    {items : List ι} :
    Refills tell slot (item :: items) after ↔
      Exists fun middle => Refills tell slot [item] middle ∧ Refills tell middle items after := by
  match items with
  | [] =>
      constructor
      · intro refills; exact ⟨after, refills, rfl⟩
      · intro given
        rcases given with ⟨middle, refills, same⟩
        rw [show after = middle from same]
        exact refills
  | [second] =>
      constructor
      · intro refills; exact refills.elim
      · intro given
        rcases given with ⟨middle, ⟨_, stored, _, rfl⟩, taken, _⟩
        cases taken
  | second :: third :: items =>
      constructor
      · intro refills; exact refills.elim
      · rintro ⟨middle, _, refills⟩; exact refills.elim

/-- Members fill slots one after the other. -/
theorem Slots.become_cons {fields : List Field} {slots after : Slots fields}
    {member : String × ι} {members : List (String × ι)} :
    Slots.Become tells (member :: members) slots after ↔
      Exists fun middle : Slots fields =>
        Slots.Become tells [member] slots middle ∧ Slots.Become tells members middle after := by
  induction fields with
  | nil => exact ⟨fun _ => ⟨(), trivial, trivial⟩, fun _ => trivial⟩
  | cons field fields inductionHypothesis =>
      rcases slots with ⟨slot, slots⟩
      rcases after with ⟨after, afters⟩
      have one : Refills (tells field) slot (named field.name (member :: members)) after ↔
          Exists fun middle => Refills (tells field) slot (named field.name [member]) middle ∧
            Refills (tells field) middle (named field.name members) after := by
        by_cases same : member.1 = field.name
        · simp only [named_cons, if_pos same, named_nil]
          exact refills_cons
        · simp only [named_cons, if_neg same, named_nil]
          constructor
          · intro refills; exact ⟨slot, rfl, refills⟩
          · intro given
            rcases given with ⟨middle, same, refills⟩
            rw [← show middle = slot from same]
            exact refills
      simp only [Slots.Become, one, inductionHypothesis]
      constructor
      · intro given
        rcases given with ⟨⟨middle, first, second⟩, middles, firsts, seconds⟩
        exact ⟨(middle, middles), ⟨first, firsts⟩, second, seconds⟩
      · intro given
        rcases given with ⟨⟨middle, middles⟩, ⟨first, firsts⟩, second, seconds⟩
        exact ⟨⟨middle, first, second⟩, middles, firsts, seconds⟩

theorem Slots.fill?_eq_none {ε : Type} {fields : List Field} {slots : Slots fields}
    {name : String} {repeated : ε} {read : (field : Field) -> Except ε field.Stored} :
    slots.fill? name repeated read = none ↔ name ∉ names fields := by
  induction fields with
  | nil => exact ⟨fun _ => (nomatch ·), fun _ => rfl⟩
  | cons field fields inductionHypothesis =>
      rcases slots with ⟨slot, slots⟩
      rw [mem_names_cons, not_or, ← @inductionHypothesis slots]
      by_cases same : field.name = name
      · constructor
        · intro unfilled
          cases slot <;> simp only [Slots.fill?, if_pos same, reduceCtorEq] at unfilled
        · intro both
          exact absurd same.symm both.1
      · have different : name ≠ field.name := fun equal => same equal.symm
        simp only [Slots.fill?, if_neg same, different, not_false_eq_true, true_and]
        cases slots.fill? name repeated read <;> simp only [reduceCtorEq]

/-- The slot of the first field is filled when it is empty. -/
theorem Slots.known_of_fill? {ε : Type} {fields : List Field} {slots : Slots fields}
    {name : String} {repeated : ε} {read : (field : Field) -> Except ε field.Stored}
    {result : Except ε (Slots fields)} (filled : slots.fill? name repeated read = some result) :
    name ∈ names fields := by
  by_contra unknown
  rw [Slots.fill?_eq_none.mpr unknown] at filled
  cases filled

theorem Slots.fill?_first {ε : Type} {field : Field} {fields : List Field}
    (unnamed : field.name ∉ names fields) {slots after : Slots (field :: fields)} {repeated : ε}
    {read : (field : Field) -> Except ε field.Stored} {item : ι}
    (reads : forall stored : field.Stored, read field = .ok stored ↔ tells field item stored)
    {result : Except ε (Slots (field :: fields))}
    (filled : slots.fill? field.name repeated read = some result) :
    result = .ok after ↔ Slots.Become tells [(field.name, item)] slots after := by
  rcases slots with ⟨slot, slots⟩
  rcases after with ⟨after, afters⟩
  have others : Slots.Become tells [(field.name, item)] slots afters ↔ afters = slots :=
    Slots.become_unnamed unnamed
  simp only [Slots.Become, named_cons_self, named_nil, others]
  cases slot with
  | some stored =>
      simp only [Slots.fill?, if_true, Option.some.injEq] at filled
      rw [← filled]
      exact ⟨nofun, fun becomes => (nomatch becomes.1.1)⟩
  | none =>
      simp only [Slots.fill?, if_true, Option.some.injEq] at filled
      rw [← filled, map_eq_ok_iff]
      simp only [Refills, reads, Prod.mk.injEq]
      constructor
      · intro given
        rcases given with ⟨stored, told, rfl, rfl⟩
        exact ⟨⟨trivial, stored, told, rfl⟩, rfl⟩
      · intro given
        rcases given with ⟨⟨_, stored, told, rfl⟩, rfl⟩
        exact ⟨stored, told, rfl, rfl⟩

/-- Filling the slot of a name is what one member of that name does. -/
theorem Slots.fill?_eq_some {ε : Type} {fields : List Field} (distinct : (names fields).Nodup)
    {slots after : Slots fields} {name : String} {repeated : ε}
    {read : (field : Field) -> Except ε field.Stored} {item : ι}
    (reads : ∀ field ∈ fields, forall stored : field.Stored,
      read field = .ok stored ↔ tells field item stored)
    {result : Except ε (Slots fields)} (filled : slots.fill? name repeated read = some result) :
    result = .ok after ↔ Slots.Become tells [(name, item)] slots after := by
  induction fields with
  | nil => cases filled
  | cons field fields inductionHypothesis =>
      have split := List.nodup_cons.mp distinct
      by_cases same : field.name = name
      · subst same
        exact Slots.fill?_first split.1 (reads field List.mem_cons_self) filled
      · rcases slots with ⟨slot, slots⟩
        rcases after with ⟨after, afters⟩
        simp only [Slots.fill?, if_neg same] at filled
        cases inner : slots.fill? name repeated read with
        | none =>
            rw [inner] at filled
            cases filled
        | some innerResult =>
            rw [inner] at filled
            have rest : innerResult = .ok afters ↔
                Slots.Become tells [(name, item)] slots afters :=
              inductionHypothesis split.2
                (fun other listed => reads other (List.mem_cons_of_mem field listed)) inner
            have isResult := Option.some.inj filled
            rw [← isResult, map_eq_ok_iff]
            have different : name ≠ field.name := fun equal => same equal.symm
            simp only [Slots.Become, named_cons_of_ne different, named_nil, Refills, ← rest,
              Prod.mk.injEq]
            constructor
            · intro given
              rcases given with ⟨found, isFound, rfl, rfl⟩
              exact ⟨rfl, isFound⟩
            · intro given
              rcases given with ⟨rfl, isFound⟩
              exact ⟨afters, isFound, rfl, rfl⟩

/-- What fills a slot, unless it is full, is read for the first field or fills a
slot of the others. -/
theorem Slots.fill?_cons {ε : Type} {field : Field} {fields : List Field}
    {slots : Slots (field :: fields)} {name : String} {repeated : ε}
    {read : (field : Field) -> Except ε field.Stored} {result : Except ε (Slots (field :: fields))}
    (filled : slots.fill? name repeated read = some result) :
    result = .error repeated ∨
    result = (read field).map (fun stored => (some stored, slots.2)) ∨
    Exists fun rest => slots.2.fill? name repeated read = some rest ∧
      result = rest.map (fun others => (slots.1, others)) := by
  rcases slots with ⟨slot, slots⟩
  by_cases same : field.name = name
  · cases slot with
    | some stored =>
        simp only [Slots.fill?, if_pos same, Option.some.injEq] at filled
        exact .inl filled.symm
    | none =>
        simp only [Slots.fill?, if_pos same, Option.some.injEq] at filled
        exact .inr (.inl filled.symm)
  · simp only [Slots.fill?, if_neg same] at filled
    cases inner : slots.fill? name repeated read with
    | none =>
        rw [inner] at filled
        cases filled
    | some rest =>
        rw [inner] at filled
        exact .inr (.inr ⟨rest, rfl, (Option.some.inj filled).symm⟩)

/-- A slot that is filled belongs to one of the fields, and whatever is read for
that field is put there. -/
theorem Slots.fill?_puts {ε : Type} {fields : List Field} {slots after : Slots fields}
    {name : String} {repeated : ε} {read : (field : Field) -> Except ε field.Stored}
    (filled : slots.fill? name repeated read = some (.ok after)) :
    Exists fun field : Field => field ∈ fields ∧
      Exists fun put : field.Stored -> Slots fields =>
        forall (again : ε) (other : (field : Field) -> Except ε field.Stored),
          slots.fill? name again other = some ((other field).map put) := by
  induction fields with
  | nil => cases filled
  | cons field fields inductionHypothesis =>
      rcases slots with ⟨slot, slots⟩
      by_cases same : field.name = name
      · cases slot with
        | some stored =>
            simp only [Slots.fill?, if_pos same, Option.some.injEq, reduceCtorEq] at filled
        | none =>
            refine ⟨field, List.mem_cons_self, fun stored => (some stored, slots), fun _ _ => ?_⟩
            simp only [Slots.fill?, if_pos same]
      · simp only [Slots.fill?, if_neg same] at filled
        cases inner : slots.fill? name repeated read with
        | none =>
            rw [inner] at filled
            cases filled
        | some rest =>
            rw [inner] at filled
            rcases map_eq_ok_iff.mp (Option.some.inj filled) with ⟨others, rfl, _⟩
            rcases inductionHypothesis inner with ⟨known, listed, put, puts⟩
            refine ⟨known, List.mem_cons_of_mem field listed, fun stored => (slot, put stored),
              fun again other => ?_⟩
            simp only [Slots.fill?, if_neg same, puts]
            cases other known <;> rfl

/-- A slot that is filled was read for one of the fields. -/
theorem Slots.read_of_fill? {ε : Type} {fields : List Field} {slots after : Slots fields}
    {name : String} {repeated : ε} {read : (field : Field) -> Except ε field.Stored}
    (filled : slots.fill? name repeated read = some (.ok after)) :
    Exists fun field : Field => field ∈ fields ∧ Exists fun stored => read field = .ok stored := by
  rcases Slots.fill?_puts filled with ⟨field, listed, put, puts⟩
  rw [puts, Option.some.injEq] at filled
  rcases map_eq_ok_iff.mp filled with ⟨stored, isRead, _⟩
  exact ⟨field, listed, stored, isRead⟩

theorem Slots.complete_iff {fields : List Field} {members : List (String × ι)} {row : Row fields} :
    (Exists fun after : Slots fields =>
      Slots.Become tells members (Slots.empty fields) after ∧ after.complete = .ok row) ↔
    Row.Told tells members row := by
  induction fields with
  | nil => exact ⟨fun _ => trivial, fun _ => ⟨(), trivial, rfl⟩⟩
  | cons field fields inductionHypothesis =>
      rcases row with ⟨stored, row⟩
      have one : (Exists fun after : Option field.Stored =>
          Refills (tells field) none (named field.name members) after ∧
            after.or field.absent = some stored) ↔
          Stores field.absent (tells field) (named field.name members) stored := by
        match named field.name members with
        | [] =>
            constructor
            · rintro ⟨after, rfl, found⟩; exact found
            · intro found; exact ⟨none, rfl, found⟩
        | [item] =>
            constructor
            · intro given
              rcases given with ⟨after, ⟨_, told, isTold, rfl⟩, found⟩
              cases found
              exact isTold
            · intro isTold; exact ⟨some stored, ⟨rfl, stored, isTold, rfl⟩, rfl⟩
        | _ :: _ :: _ =>
            constructor
            · rintro ⟨after, refills, _⟩; exact refills.elim
            · intro impossible; exact impossible.elim
      rw [Row.Told, ← one, ← inductionHypothesis]
      constructor
      · intro given
        rcases given with ⟨⟨after, afters⟩, ⟨refills, becomes⟩, completed⟩
        simp only [Slots.complete] at completed
        split at completed
        case h_1 => cases completed
        case h_2 found isFound =>
          rcases bind_eq_ok_iff.mp completed with ⟨others, isOthers, done⟩
          cases done
          exact ⟨⟨after, refills, isFound⟩, afters, becomes, isOthers⟩
      · intro given
        rcases given with ⟨⟨after, refills, isFound⟩, afters, becomes, isOthers⟩
        refine ⟨(after, afters), ⟨refills, becomes⟩, ?_⟩
        simp only [Slots.complete, isFound]
        exact bind_eq_ok_iff.mpr ⟨row, isOthers, rfl⟩

end Slots

/-- Items that tell the same leave the same stored. -/
theorem stores_congr {σ : Type} {absent : Option σ} {first : ι -> σ -> Prop}
    {second : κ -> σ -> Prop} {items : List ι} {others : List κ}
    (same : List.Forall₂ (fun item other => forall stored, first item stored ↔ second other stored)
      items others) (stored : σ) :
    Stores absent first items stored ↔ Stores absent second others stored := by
  cases same with
  | nil => exact Iff.rfl
  | cons head tail =>
      cases tail with
      | nil => exact head stored
      | cons => exact Iff.rfl

/-- Rows are listed the same by items that tell each field the same. -/
theorem Row.listed_congr {fields : List Field}
    {first : (field : Field) -> ι -> field.Stored -> Prop}
    {second : (field : Field) -> κ -> field.Stored -> Prop} {items : List ι} {others : List κ}
    (same : List.Forall₂ (fun item other => ∀ field ∈ fields, forall stored : field.Stored,
      first field item stored ↔ second field other stored) items others) (row : Row fields) :
    Row.Listed first items row ↔ Row.Listed second others row := by
  induction fields generalizing items others with
  | nil => cases same <;> exact Iff.rfl
  | cons field fields inductionHypothesis =>
      rcases row with ⟨stored, row⟩
      cases same with
      | nil => rw [Row.Listed, Row.Listed, inductionHypothesis .nil]
      | cons head tail =>
          rw [Row.Listed, Row.Listed, head field List.mem_cons_self stored, inductionHypothesis]
          exact List.Forall₂.imp
            (fun _ _ each other listed => each other (List.mem_cons_of_mem field listed)) tail

/-- Rows are told the same where each field stores the same. -/
theorem Row.told_of_stores {fields : List Field}
    {first : (field : Field) -> ι -> field.Stored -> Prop}
    {second : (field : Field) -> κ -> field.Stored -> Prop} {members : List (String × ι)}
    {others : List (String × κ)}
    (same : ∀ field ∈ fields, forall stored : field.Stored,
      Stores field.absent (first field) (named field.name members) stored ↔
        Stores field.absent (second field) (named field.name others) stored) (row : Row fields) :
    Row.Told first members row ↔ Row.Told second others row := by
  induction fields with
  | nil => exact Iff.rfl
  | cons field fields inductionHypothesis =>
      rcases row with ⟨stored, row⟩
      rw [Row.Told, Row.Told, same field List.mem_cons_self,
        inductionHypothesis fun other listed => same other (List.mem_cons_of_mem field listed)]

/-- Rows are told the same by items that tell each field the same. -/
theorem Row.told_congr {fields : List Field}
    {first : (field : Field) -> ι -> field.Stored -> Prop}
    {second : (field : Field) -> κ -> field.Stored -> Prop} {members : List (String × ι)}
    {others : List (String × κ)}
    (same : ∀ field ∈ fields, List.Forall₂
      (fun item other => forall stored, first field item stored ↔ second field other stored)
      (named field.name members) (named field.name others)) (row : Row fields) :
    Row.Told first members row ↔ Row.Told second others row :=
  Row.told_of_stores (fun field listed => stores_congr (same field listed)) row

/-- Rows are told the same by members that have the same items under the names
of the fields. -/
theorem Row.told_of_named {tells : (field : Field) -> ι -> field.Stored -> Prop}
    {fields : List Field} {members others : List (String × ι)}
    (same : ∀ name ∈ names fields, named name members = named name others) (row : Row fields) :
    Row.Told tells members row ↔ Row.Told tells others row := by
  refine Row.told_congr (fun field listed => ?_) row
  rw [same field.name (List.mem_map_of_mem listed)]
  exact List.forall₂_same.mpr fun _ _ _ => Iff.rfl

/-- An item under the name of a field tells that field something. -/
theorem Row.Told.tells {tells : (field : Field) -> ι -> field.Stored -> Prop}
    {fields : List Field} {members : List (String × ι)} {row : Row fields}
    (told : Row.Told tells members row) {name : String} {item : ι}
    (listed : (name, item) ∈ members) (known : name ∈ names fields) :
    Exists fun field : Field => field ∈ fields ∧ field.name = name ∧
      Exists fun stored => tells field item stored := by
  induction fields with
  | nil => cases known
  | cons field fields inductionHypothesis =>
      rcases row with ⟨stored, row⟩
      rcases told with ⟨first, others⟩
      by_cases same : field.name = name
      · subst same
        refine ⟨field, List.mem_cons_self, rfl, stored, ?_⟩
        have isNamed := mem_named.mpr listed
        revert first isNamed
        match named field.name members with
        | [] => exact fun _ isNamed => (nomatch isNamed)
        | [only] =>
            intro first isNamed
            rw [List.mem_singleton.mp isNamed]
            exact first
        | _ :: _ :: _ => exact fun first _ => first.elim
      · have later := (mem_names_cons.mp known).resolve_left (Ne.symm same)
        rcases inductionHypothesis others later with ⟨other, otherListed, found⟩
        exact ⟨other, List.mem_cons_of_mem field otherListed, found⟩

/-- Items in the order of the fields tell what members of those names tell. -/
theorem Row.listed_iff {tells : (field : Field) -> ι -> field.Stored -> Prop}
    {fields : List Field} (distinct : (names fields).Nodup) {items : List ι} {row : Row fields} :
    Row.Listed tells items row ↔
      items.length ≤ (names fields).length ∧ Row.Told tells ((names fields).zip items) row := by
  induction fields generalizing items with
  | nil =>
      cases items with
      | nil => exact ⟨fun _ => ⟨Nat.le_refl _, trivial⟩, fun _ => trivial⟩
      | cons item items => exact ⟨False.elim, fun both => absurd both.1 (Nat.not_succ_le_zero _)⟩
  | cons field fields inductionHypothesis =>
      rcases row with ⟨stored, row⟩
      have split := List.nodup_cons.mp distinct
      cases items with
      | nil =>
          have rest := @inductionHypothesis split.2 [] row
          rw [List.zip_nil_right] at rest
          simp only [Row.Listed, Row.Told, rest, names, List.zip_nil_right, named_nil, Stores,
            List.length_nil, Nat.zero_le, true_and]
      | cons item items =>
          have pairs : (names (field :: fields)).zip (item :: items) =
              (field.name, item) :: (names fields).zip items := by
            rw [names, List.map_cons, List.zip_cons_cons, names]
          have alone : named field.name ((names fields).zip items) = [] :=
            named_eq_nil fun member listed (same : member.1 = field.name) =>
              split.1 (same ▸ (List.of_mem_zip listed).1)
          have later : Row.Told tells ((field.name, item) :: (names fields).zip items) row ↔
              Row.Told tells ((names fields).zip items) row :=
            Row.told_of_named (fun name listed =>
              named_cons_of_ne (fun same : field.name = name => split.1 (same ▸ listed)) item _)
              row
          have count : (item :: items).length ≤ (names (field :: fields)).length ↔
              items.length ≤ (names fields).length := Nat.succ_le_succ_iff
          rw [pairs, Row.Listed, Row.Told, later, named_cons_self, alone, Stores,
            inductionHypothesis split.2, count]
          exact and_left_comm

/-- The members that no field is named after. -/
def others (fields : List Field) (members : List (String × ι)) : List (String × ι) :=
  members.filter fun member => member.1 ∉ names fields

theorem others_cons_known {fields : List Field} {member : String × ι}
    (known : member.1 ∈ names fields) (members : List (String × ι)) :
    others fields (member :: members) = others fields members := by
  rw [others, List.filter_cons_of_neg (by simpa using known), others]

theorem others_cons_unknown {fields : List Field} {member : String × ι}
    (unknown : member.1 ∉ names fields) (members : List (String × ι)) :
    others fields (member :: members) = member :: others fields members := by
  rw [others, List.filter_cons_of_pos (by simpa using unknown), others]

theorem mem_others {fields : List Field} {members : List (String × ι)} {member : String × ι} :
    member ∈ others fields members ↔ member ∈ members ∧ member.1 ∉ names fields := by
  rw [others, List.mem_filter, decide_eq_true_eq]

/-- Of the members that no field is named after, the fields have none. -/
theorem named_others_known {fields : List Field} {name : String} (known : name ∈ names fields)
    (members : List (String × ι)) : named name (others fields members) = [] :=
  named_eq_nil fun _ listed same => (mem_others.mp listed).2 (same ▸ known)

theorem named_others {fields : List Field} {name : String} (unnamed : name ∉ names fields)
    (members : List (String × ι)) : named name (others fields members) = named name members := by
  induction members with
  | nil => rfl
  | cons member members inductionHypothesis =>
      by_cases known : member.1 ∈ names fields
      · have different : member.1 ≠ name := fun same => unnamed (same ▸ known)
        rw [others_cons_known known, named_cons, if_neg different, inductionHypothesis]
      · rw [others_cons_unknown known, named_cons, named_cons, inductionHypothesis]

end Record
end RepoInspector
