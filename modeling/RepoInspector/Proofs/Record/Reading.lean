import RepoInspector.Proofs.Record.Meaning
import RepoInspector.Proofs.Record.Members

namespace RepoInspector
namespace Record

open Json

/-!
# What records mean

A record reads its members in text order, and its array form field by field.
Both come to what the entries of the record tell its fields, whichever reader
is used.  Members that no field asks for are passed over, and then only have
to be grammatical, or they are buffered, and then have to decode.
-/

/-- What a form means to the codec of a field. -/
abbrev Field.Means (field : Field) : Form -> field.Stored -> Prop := field.codec.Means

/-- The entries of a record stand in an object, or as the items of an array in
the order of the fields. -/
inductive Lists (fieldNames : List String) : Form -> List (String × Form) -> Prop
  | object {members : List (List Piece × Form)} {entries : List (String × Form)}
      (keyed : Form.Keyed members entries) : Lists fieldNames (.object members) entries
  | array {items : List Form} (fits : items.length ≤ fieldNames.length) :
      Lists fieldNames (.array items) (fieldNames.zip items)

/-- What a form means as a record. -/
def RecordMeans (fields : List Field) (form : Form) (row : Row fields) : Prop :=
  Exists fun entries => Lists (names fields) form entries ∧ Row.Told Field.Means entries row

/-!
## Decoded members
-/

section Decoded

variable {route : Route} {fields : List Field}

/-- A field interprets a value as data. -/
def Interprets (route : Route) (field : Field) (value : Value) (stored : field.Stored) : Prop :=
  field.codec.interpret route value = .ok stored

theorem interpretMembers_iff (distinct : (names fields).Nodup) {slots after : Slots fields}
    {values rest : List (String × Value)} :
    interpretMembers route slots values = .ok (after, rest) ↔
      Slots.Become (Interprets route) values slots after ∧ rest = others fields values := by
  induction values generalizing slots after rest with
  | nil =>
      rw [Slots.become_nil]
      constructor
      · intro done; cases done; exact ⟨rfl, rfl⟩
      · rintro ⟨rfl, rfl⟩; rfl
  | cons member values inductionHypothesis =>
      rcases member with ⟨name, value⟩
      rw [Slots.become_cons]
      cases filled : slots.fill? name (.repeated name)
        (fun field => field.codec.interpret route value) with
      | some result =>
          have known := Slots.known_of_fill? filled
          have one : forall middle : Slots fields, result = .ok middle ↔
              Slots.Become (Interprets route) [(name, value)] slots middle :=
            fun middle => Slots.fill?_eq_some distinct (fun _ _ _ => Iff.rfl) filled
          simp only [interpretMembers, filled]
          rw [bind_eq_ok_iff, others_cons_known known]
          constructor
          · intro given
            rcases given with ⟨middle, isMiddle, done⟩
            rcases inductionHypothesis.mp done with ⟨becomes, isRest⟩
            exact ⟨⟨middle, (one middle).mp isMiddle, becomes⟩, isRest⟩
          · intro given
            rcases given with ⟨⟨middle, first, becomes⟩, isRest⟩
            exact ⟨middle, (one middle).mpr first, inductionHypothesis.mpr ⟨becomes, isRest⟩⟩
      | none =>
          have unknown := Slots.fill?_eq_none.mp filled
          simp only [interpretMembers, filled]
          rw [bind_eq_ok_iff, others_cons_unknown unknown]
          constructor
          · intro given
            rcases given with ⟨⟨found, others⟩, isFound, done⟩
            cases done
            rcases inductionHypothesis.mp isFound with ⟨becomes, rfl⟩
            exact ⟨⟨slots, (Slots.become_unnamed unknown).mpr rfl, becomes⟩, rfl⟩
          · intro given
            rcases given with ⟨⟨middle, first, becomes⟩, rfl⟩
            cases (Slots.become_unnamed unknown).mp first
            exact ⟨(after, _), inductionHypothesis.mpr ⟨becomes, rfl⟩, rfl⟩

/-- A record is interpreted as what the members tell its fields. -/
theorem interpretRecord_iff (distinct : (names fields).Nodup) {values : List (String × Value)}
    {row : Row fields} :
    interpretRecord route fields values = .ok row ↔ Row.Told (Interprets route) values row := by
  rw [interpretRecord, bind_eq_ok_iff, ← Slots.complete_iff]
  constructor
  · intro given
    rcases given with ⟨⟨after, rest⟩, isAfter, completed⟩
    exact ⟨after, ((interpretMembers_iff distinct).mp isAfter).1, completed⟩
  · intro given
    rcases given with ⟨after, becomes, completed⟩
    exact ⟨(after, _), (interpretMembers_iff distinct).mpr ⟨becomes, rfl⟩, completed⟩

/-- An extended record is interpreted as what the members tell its own fields,
and the inner record as the other members. -/
theorem interpretExtended_iff {β : Type} {inner : List (String × Value) -> Except Mismatch β}
    (distinct : (names fields).Nodup) {values : List (String × Value)} {row : Row fields}
    {base : β} :
    interpretExtended route fields inner values = .ok (row, base) ↔
      Row.Told (Interprets route) values row ∧ inner (others fields values) = .ok base := by
  rw [interpretExtended, bind_eq_ok_iff, ← Slots.complete_iff]
  constructor
  · intro given
    rcases given with ⟨⟨after, rest⟩, isAfter, done⟩
    rcases (interpretMembers_iff distinct).mp isAfter with ⟨becomes, rfl⟩
    rcases bind_eq_ok_iff.mp done with ⟨found, completed, done⟩
    rcases bind_eq_ok_iff.mp done with ⟨foundBase, isBase, same⟩
    cases same
    exact ⟨⟨after, becomes, completed⟩, isBase⟩
  · intro given
    rcases given with ⟨⟨after, becomes, completed⟩, isBase⟩
    refine ⟨(after, _), (interpretMembers_iff distinct).mpr ⟨becomes, rfl⟩, ?_⟩
    exact bind_eq_ok_iff.mpr ⟨row, completed, bind_eq_ok_iff.mpr ⟨base, isBase, rfl⟩⟩

theorem interpretItems_iff {tooShort : Nat -> Mismatch} {tooLong : Mismatch} {index : Nat}
    {values : List Value} {row : Row fields} :
    interpretItems route tooShort tooLong fields index values = .ok row ↔
      Row.Listed (Interprets route) values row := by
  induction fields generalizing index values with
  | nil =>
      cases values with
      | nil => exact ⟨fun _ => trivial, fun _ => rfl⟩
      | cons value values => exact ⟨nofun, False.elim⟩
  | cons field fields inductionHypothesis =>
      rcases row with ⟨stored, row⟩
      cases values with
      | nil =>
          rw [Row.Listed, ← @inductionHypothesis (index + 1) []]
          cases absent : field.absent with
          | none =>
              simp only [interpretItems, absent]
              constructor
              · intro refused; cases refused
              · rintro ⟨missing, _⟩; cases missing
          | some default =>
              simp only [interpretItems, absent]
              exact prepend_eq_ok_iff
      | cons value values =>
          rw [Row.Listed, ← @inductionHypothesis (index + 1) values]
          exact pair_eq_ok_iff

end Decoded

/-!
## Trees
-/

section Trees

variable {fields : List Field} {depth allowance : Nat}

/-- Every field has a lawful codec. -/
def LawfulFields (fields : List Field) (depth : Nat) : Prop :=
  ∀ field ∈ fields, field.codec.Lawful depth

theorem LawfulFields.nil : LawfulFields [] depth := fun _ => (nomatch ·)

theorem LawfulFields.cons {field : Field} (first : field.codec.Lawful depth)
    (rest : LawfulFields fields depth) : LawfulFields (field :: fields) depth :=
  List.forall_mem_cons.mpr ⟨first, rest⟩

/-- What is kept of the members that no field asks for. -/
def Others.Keep (kind : Others) (allowance : Nat) (entries : List (String × Form))
    (rest : List (String × Value)) : Prop :=
  match kind with
  | .passed => rest = []
  | .buffered =>
      List.Forall₂ (fun entry value => entry.1 = value.1 ∧ entry.2.Denotes allowance value.2)
        entries rest

theorem Others.keep_nil {kind : Others} {rest : List (String × Value)} :
    kind.Keep allowance [] rest ↔ rest = [] := by
  cases kind with
  | passed => exact Iff.rfl
  | buffered => exact List.forall₂_nil_left_iff

theorem Others.keep_cons {kind : Others} {node : Node} {form : Form} (holds : node.Holds form)
    {name : String} {entries : List (String × Form)} {rest : List (String × Value)} :
    kind.Keep allowance ((name, form) :: entries) rest ↔
      Exists fun kept => kind.read allowance node = .ok kept ∧
        Exists fun later => kind.Keep allowance entries later ∧
          rest = kept.elim later (fun value => (name, value) :: later) := by
  cases kind with
  | passed =>
      constructor
      · rintro rfl
        exact ⟨none, bind_eq_ok_iff.mpr ⟨(), Node.pass_holds holds, rfl⟩, [], rfl, rfl⟩
      · intro given
        rcases given with ⟨kept, isRead, later, rfl, rfl⟩
        rcases bind_eq_ok_iff.mp isRead with ⟨_, _, same⟩
        cases same
        rfl
  | buffered =>
      constructor
      · intro keeps
        rcases List.forall₂_cons_left_iff.mp keeps with ⟨⟨other, value⟩, later, ⟨same, denotes⟩,
          keepsLater, rfl⟩
        cases same
        have isRead := (Node.buffer_iff holds allowance value).mpr denotes
        exact ⟨some value, bind_eq_ok_iff.mpr ⟨value, isRead, rfl⟩, later, keepsLater, rfl⟩
      · intro given
        rcases given with ⟨kept, isRead, later, keepsLater, rfl⟩
        rcases bind_eq_ok_iff.mp isRead with ⟨value, isValue, same⟩
        cases same
        exact .cons ⟨rfl, (Node.buffer_iff holds allowance value).mp isValue⟩ keepsLater

/-- A member of a field's name fills its slot. -/
theorem readMembers_known {kind : Others} (lawful : LawfulFields fields depth)
    (deep : depth ≤ allowance) (within : allowance ≤ nestingAllowance)
    (distinct : (names fields).Nodup) {key : Key} {node : Node} {form : Form} {name : String}
    (isName : key.read = .ok name) (colon : key.colon = .ok ()) (holds : node.Holds form)
    (known : name ∈ names fields) {members : List (Key × Node)} {slots after : Slots fields}
    {rest : List (String × Value)} :
    readMembers kind allowance slots ((key, node) :: members) = .ok (after, rest) ↔
      Exists fun middle : Slots fields => Slots.Become Field.Means [(name, form)] slots middle ∧
        readMembers kind allowance middle members = .ok (after, rest) := by
  simp only [readMembers, isName, colon, ok_bind]
  cases filled : slots.fill? name (.ofMismatch (.repeated name) key.next.closingMark)
    (fun field => field.codec.read allowance node) with
  | none => exact absurd known (Slots.fill?_eq_none.mp filled)
  | some result =>
      refine bind_eq_ok_iff.trans (exists_congr fun middle => and_congr_left fun _ => ?_)
      exact Slots.fill?_eq_some distinct
        (fun field listed stored => (lawful field listed).reads holds deep within) filled

/-- A member that no field is named after is kept or passed over. -/
theorem readMembers_unknown {kind : Others} {key : Key} {node : Node} {name : String}
    (isName : key.read = .ok name) (colon : key.colon = .ok ()) (unknown : name ∉ names fields)
    {members : List (Key × Node)} {slots after : Slots fields} {rest : List (String × Value)} :
    readMembers kind allowance slots ((key, node) :: members) = .ok (after, rest) ↔
      Exists fun kept => kind.read allowance node = .ok kept ∧
        Exists fun later => readMembers kind allowance slots members = .ok (after, later) ∧
          rest = kept.elim later (fun value => (name, value) :: later) := by
  simp only [readMembers, isName, colon, ok_bind, Slots.fill?_eq_none.mpr unknown]
  refine bind_eq_ok_iff.trans (exists_congr fun kept => and_congr_right fun _ => ?_)
  rw [bind_eq_ok_iff]
  constructor
  · intro given
    rcases given with ⟨⟨found, later⟩, isFound, same⟩
    cases kept <;> cases same <;> exact ⟨later, isFound, rfl⟩
  · intro given
    rcases given with ⟨later, isFound, rfl⟩
    exact ⟨(after, later), isFound, by cases kept <;> rfl⟩

/-- Members that are read have filled the slots of their names. -/
theorem readMembers_fills {kind : Others} (lawful : LawfulFields fields depth)
    (deep : depth ≤ allowance) (within : allowance ≤ nestingAllowance)
    (distinct : (names fields).Nodup) {members : List (Key × Node)}
    {forms : List (List Piece × Form)} (holds : Node.HoldMembers members forms)
    {slots after : Slots fields} {rest : List (String × Value)}
    (done : readMembers kind allowance slots members = .ok (after, rest)) :
    Exists fun entries => Form.Keyed forms entries ∧
      Slots.Become Field.Means entries slots after ∧
      kind.Keep allowance (others fields entries) rest := by
  induction members generalizing forms slots after rest with
  | nil =>
      cases holds with
      | nil =>
          cases done
          exact ⟨[], .nil, Slots.become_nil.mpr rfl, Others.keep_nil.mpr rfl⟩
  | cons member members inductionHypothesis =>
      cases holds with
      | @cons key node _ pieces form forms named first later =>
          have colon := Key.colon_holds named
          rcases bind_eq_ok_iff.mp done with ⟨name, isName, _⟩
          have denoted := (Key.read_iff named name).mp isName
          by_cases known : name ∈ names fields
          · rcases (readMembers_known lawful deep within distinct isName colon first known).mp
              done with ⟨middle, fills, doneLater⟩
            rcases inductionHypothesis later doneLater with ⟨entries, keyed, becomes, keeps⟩
            refine ⟨_, .cons denoted keyed, Slots.become_cons.mpr ⟨middle, fills, becomes⟩, ?_⟩
            rw [others_cons_known known]
            exact keeps
          · rcases (readMembers_unknown isName colon known).mp done with
              ⟨kept, isKept, restLater, doneLater, isRest⟩
            rcases inductionHypothesis later doneLater with ⟨entries, keyed, becomes, keeps⟩
            refine ⟨_, .cons denoted keyed, Slots.become_cons.mpr
              ⟨slots, (Slots.become_unnamed known).mpr rfl, becomes⟩, ?_⟩
            rw [others_cons_unknown known]
            exact (Others.keep_cons first).mpr ⟨kept, isKept, restLater, keeps, isRest⟩

/-- Members that can fill the slots of their names are read. -/
theorem readMembers_of_fills {kind : Others} (lawful : LawfulFields fields depth)
    (deep : depth ≤ allowance) (within : allowance ≤ nestingAllowance)
    (distinct : (names fields).Nodup) {members : List (Key × Node)}
    {forms : List (List Piece × Form)} (holds : Node.HoldMembers members forms)
    {slots after : Slots fields} {rest : List (String × Value)}
    {entries : List (String × Form)} (keyed : Form.Keyed forms entries)
    (becomes : Slots.Become Field.Means entries slots after)
    (keeps : kind.Keep allowance (others fields entries) rest) :
    readMembers kind allowance slots members = .ok (after, rest) := by
  induction members generalizing forms slots after rest entries with
  | nil =>
      cases holds with
      | nil =>
          cases keyed
          cases Slots.become_nil.mp becomes
          cases Others.keep_nil.mp keeps
          rfl
  | cons member members inductionHypothesis =>
      cases holds with
      | @cons key node _ pieces form forms named first later =>
          cases keyed with
          | @cons _ name _ _ entries denoted keyed =>
              have colon := Key.colon_holds named
              have isName := (Key.read_iff named name).mpr denoted
              rcases Slots.become_cons.mp becomes with ⟨middle, fills, becomesLater⟩
              by_cases known : name ∈ names fields
              · rw [others_cons_known known] at keeps
                have doneLater := inductionHypothesis later keyed becomesLater keeps
                exact (readMembers_known lawful deep within distinct isName colon first
                  known).mpr ⟨middle, fills, doneLater⟩
              · cases (Slots.become_unnamed known).mp fills
                rw [others_cons_unknown known] at keeps
                rcases (Others.keep_cons first).mp keeps with
                  ⟨kept, isKept, restLater, keepsLater, isRest⟩
                have doneLater := inductionHypothesis later keyed becomesLater keepsLater
                exact (readMembers_unknown isName colon known).mpr
                  ⟨kept, isKept, restLater, doneLater, isRest⟩

/-- Members of an object fill the slots of their names, and the others are kept. -/
theorem readMembers_iff {kind : Others} (lawful : LawfulFields fields depth)
    (deep : depth ≤ allowance) (within : allowance ≤ nestingAllowance)
    (distinct : (names fields).Nodup) {members : List (Key × Node)}
    {forms : List (List Piece × Form)} (holds : Node.HoldMembers members forms)
    {slots after : Slots fields} {rest : List (String × Value)} :
    readMembers kind allowance slots members = .ok (after, rest) ↔
      Exists fun entries => Form.Keyed forms entries ∧
        Slots.Become Field.Means entries slots after ∧
        kind.Keep allowance (others fields entries) rest := by
  constructor
  · exact readMembers_fills lawful deep within distinct holds
  · intro given
    rcases given with ⟨entries, keyed, becomes, keeps⟩
    exact readMembers_of_fills lawful deep within distinct holds keyed becomes keeps

/-- What readers of members accept has no member that breaks. -/
theorem Others.read_breaks {kind : Others} {node : Node} (breaks : node.Breaks)
    (kept : Option Value) : kind.read allowance node ≠ .ok kept := by
  intro accepted
  cases kind with
  | passed =>
      rcases bind_eq_ok_iff.mp accepted with ⟨_, passed, _⟩
      exact Node.pass_breaks breaks passed
  | buffered =>
      rcases bind_eq_ok_iff.mp accepted with ⟨value, buffered, _⟩
      exact Node.buffer_breaks breaks allowance value buffered

theorem readMembers_mem {kind : Others} (lawful : LawfulFields fields depth)
    {members : List (Key × Node)} {slots : Slots fields}
    {result : Slots fields × List (String × Value)}
    (accepted : readMembers kind allowance slots members = .ok result) {key : Key} {node : Node}
    (listed : (key, node) ∈ members) : ¬ key.Breaks ∧ ¬ node.Breaks := by
  induction members generalizing slots result with
  | nil => cases listed
  | cons member members inductionHypothesis =>
      rcases member with ⟨firstKey, firstNode⟩
      rcases bind_eq_ok_iff.mp accepted with ⟨name, isName, done⟩
      have first : firstKey.colon = .ok () ∧ ¬ firstNode.Breaks ∧
          Exists fun middle : Slots fields => Exists fun later =>
            readMembers kind allowance middle members = .ok later := by
        cases filled : slots.fill? name
          (.ofMismatch (.repeated name) firstKey.next.closingMark)
          (fun field => do
            firstKey.colon
            field.codec.read allowance firstNode) with
        | some found =>
            simp only [filled] at done
            rcases bind_eq_ok_iff.mp done with ⟨middle, rfl, isRest⟩
            rcases Slots.read_of_fill? filled with ⟨field, isField, stored, isRead⟩
            rcases bind_eq_ok_iff.mp isRead with ⟨_, colon, isStored⟩
            exact ⟨colon, fun breaks => (lawful field isField).rejects breaks isStored,
              middle, result, isRest⟩
        | none =>
            simp only [filled] at done
            rcases bind_eq_ok_iff.mp done with ⟨_, colon, afterColon⟩
            rcases bind_eq_ok_iff.mp afterColon with ⟨kept, isKept, afterKept⟩
            rcases bind_eq_ok_iff.mp afterKept with ⟨later, isRest, _⟩
            exact ⟨colon, fun breaks => Others.read_breaks breaks kept isKept, slots, later,
              isRest⟩
      rcases first with ⟨colon, whole, middle, later, isRest⟩
      cases List.mem_cons.mp listed with
      | inl same =>
          cases same
          exact ⟨fun breaks => Key.read_breaks breaks isName colon, whole⟩
      | inr isLater => exact inductionHypothesis isRest isLater

/-- An object whose members are read and whose end is accepted does not break. -/
theorem readMembers_breaks {kind : Others} (lawful : LawfulFields fields depth) {start : Token}
    {members : List (Key × Node)} {ending : ObjectEnd} {slots : Slots fields}
    {result : Slots fields × List (String × Value)}
    (accepted : readMembers kind allowance slots members = .ok result)
    (ended : ending.read = .ok ()) : ¬ (Node.object start members ending).Breaks := by
  intro breaks
  cases breaks with
  | objectEnding broken => exact ObjectEnd.read_breaks broken ended
  | key listed broken => exact (readMembers_mem lawful accepted listed).1 broken
  | member listed broken => exact (readMembers_mem lawful accepted listed).2 broken

theorem arrayEnds_breaks {rest : List Node} {ending : ArrayEnd} (breaks : ending.Breaks) :
    arrayEnds rest ending ≠ .ok () := by
  cases rest with
  | cons item rest => exact nofun
  | nil =>
      cases ending with
      | closed | broken => exact breaks.elim
      | afterComma | unseparated => exact nofun

theorem readItems_whole (lawful : LawfulFields fields depth) {tooShort : Nat -> Mismatch}
    {ending : ArrayEnd} {index : Nat} {items : List Node} {row : Row fields}
    (accepted : readItems allowance tooShort ending fields index items = .ok row) :
    ¬ ending.Breaks ∧ ∀ item ∈ items, ¬ item.Breaks := by
  induction fields generalizing index items with
  | nil =>
      rcases bind_eq_ok_iff.mp accepted with ⟨_, ended, _⟩
      refine ⟨fun breaks => arrayEnds_breaks breaks ended, ?_⟩
      cases items with
      | nil => exact fun _ => (nomatch ·)
      | cons item items => cases ended
  | cons field fields inductionHypothesis =>
      have later : LawfulFields fields depth := fun other listed =>
        lawful other (List.mem_cons_of_mem field listed)
      cases items with
      | nil =>
          rcases bind_eq_ok_iff.mp accepted with ⟨_, ended, _⟩
          exact ⟨fun breaks => ArrayEnd.read_breaks breaks ended, fun _ => (nomatch ·)⟩
      | cons item items =>
          rcases bind_eq_ok_iff.mp accepted with ⟨stored, isStored, done⟩
          rcases bind_eq_ok_iff.mp done with ⟨others, isOthers, _⟩
          rcases inductionHypothesis later isOthers with ⟨ends, whole⟩
          refine ⟨ends, List.forall_mem_cons.mpr ⟨fun breaks => ?_, whole⟩⟩
          exact (lawful field List.mem_cons_self).rejects breaks isStored

/-- Items of a whole array are read as what they list for the fields. -/
theorem readItems_iff (lawful : LawfulFields fields depth) (deep : depth ≤ allowance)
    (within : allowance ≤ nestingAllowance) {tooShort : Nat -> Mismatch} {close : Token}
    {index : Nat} {items : List Node} {forms : List Form} (holds : Node.HoldAll items forms)
    {row : Row fields} :
    readItems allowance tooShort (.closed close) fields index items = .ok row ↔
      Row.Listed Field.Means forms row := by
  induction fields generalizing index items forms with
  | nil =>
      cases holds with
      | nil => exact ⟨fun _ => trivial, fun _ => rfl⟩
      | cons first rest => exact ⟨nofun, False.elim⟩
  | cons field fields inductionHypothesis =>
      rcases row with ⟨stored, row⟩
      have later : LawfulFields fields depth := fun other listed =>
        lawful other (List.mem_cons_of_mem field listed)
      cases holds with
      | nil =>
          have rest : readItems allowance tooShort (.closed close) fields (index + 1) [] =
              .ok row ↔ Row.Listed Field.Means [] row := inductionHypothesis later .nil
          rw [Row.Listed, ← rest]
          cases absent : field.absent with
          | none =>
              simp only [readItems, absent, ArrayEnd.read, ok_bind]
              constructor
              · intro refused; cases refused
              · rintro ⟨missing, _⟩; cases missing
          | some default =>
              simp only [readItems, absent, ArrayEnd.read, ok_bind]
              exact prepend_eq_ok_iff
      | @cons item items form forms first rest =>
          have one : field.codec.read allowance item = .ok stored ↔ field.Means form stored :=
            (lawful field List.mem_cons_self).reads first deep within
          have others : readItems allowance tooShort (.closed close) fields (index + 1) items =
              .ok row ↔ Row.Listed Field.Means forms row := inductionHypothesis later rest
          rw [Row.Listed, ← one, ← others]
          exact pair_eq_ok_iff

end Trees

end Record
end RepoInspector
