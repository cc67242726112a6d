import RepoInspector.Proofs.Record.Members
import RepoInspector.Proofs.Json.Decoding

namespace RepoInspector
namespace Record

open Json

/-!
# The member that a record is refused for

A record takes its members in text order and stops at the first one that is
at fault, be it that its field does not take it or that its name is there
already.  A name that is lacking is noticed only when all members are taken.
This is told here for members of any kind, together with what is reported of
them, and then for the two loops that take members: of values that are decoded
already, and of a tree.
-/

variable {ι ε : Type}

/-- How a record takes its members, as far as reports tell it. -/
structure Reception (ι ε : Type) where
  /-- The report of a member whose name is there already. -/
  repeated : String -> ι -> ε
  read : (field : Field) -> ι -> Except ε field.Stored

namespace Reception

/-- A member is at fault: it has the name of a field, and that name is among
those before it, or the field does not take it. -/
inductive Offends (reception : Reception ι ε) (fields : List Field) (before : List String) :
    String × ι -> ε -> Prop
  | repeated {name : String} {item : ι} (known : name ∈ names fields) (again : name ∈ before) :
      Offends reception fields before (name, item) (reception.repeated name item)
  | refused {field : Field} {name : String} {item : ι} {fault : ε} (listed : field ∈ fields)
      (named : field.name = name) (fresh : name ∉ before)
      (refuses : reception.read field item = .error fault) :
      Offends reception fields before (name, item) fault

/-- No member is at fault. -/
def Blameless (reception : Reception ι ε) (fields : List Field) (members : List (String × ι)) :
    Prop :=
  forall before member after, members = before ++ member :: after ->
    forall fault, ¬ reception.Offends fields (before.map Prod.fst) member fault

/-- The first member at fault, and what is reported of it. -/
def FirstOffence (reception : Reception ι ε) (fields : List Field)
    (members : List (String × ι)) (member : String × ι) (fault : ε) : Prop :=
  Exists fun before => Exists fun after => members = before ++ member :: after ∧
    reception.Blameless fields before ∧
    reception.Offends fields (before.map Prod.fst) member fault

variable {reception : Reception ι ε} {fields : List Field}

variable (reception fields) in
theorem blameless_nil : reception.Blameless fields [] := by
  intro before member after split
  cases before <;> cases split

/-- Members stay without fault when one more has none. -/
theorem Blameless.concat {members : List (String × ι)}
    (blameless : reception.Blameless fields members)
    {member : String × ι}
    (passes : forall fault, ¬ reception.Offends fields (members.map Prod.fst) member fault) :
    reception.Blameless fields (members ++ [member]) := by
  intro before other after split
  rcases List.append_eq_append_iff.mp split with
    ⟨between, rfl, isLast⟩ | ⟨between, isMembers, rest⟩
  · rcases List.singleton_eq_append_iff.mp isLast with ⟨rfl, same⟩ | ⟨rfl, impossible⟩
    · cases same
      rw [List.append_nil]
      exact passes
    · cases impossible
  · cases between with
    | nil =>
        cases rest
        rw [isMembers, List.append_nil] at passes
        exact passes
    | cons first between =>
        cases rest
        exact blameless before other between isMembers

theorem Offends.known {before : List String} {member : String × ι} {fault : ε}
    (offends : reception.Offends fields before member fault) : member.1 ∈ names fields := by
  cases offends with
  | repeated known _ => exact known
  | refused listed named _ _ => exact named ▸ List.mem_map_of_mem listed

theorem FirstOffence.mem {members : List (String × ι)} {member : String × ι} {fault : ε}
    (first : reception.FirstOffence fields members member fault) : member ∈ members := by
  rcases first with ⟨before, after, rfl, _, _⟩
  exact List.mem_append_right _ List.mem_cons_self

theorem FirstOffence.known {members : List (String × ι)} {member : String × ι} {fault : ε}
    (first : reception.FirstOffence fields members member fault) : member.1 ∈ names fields := by
  rcases first with ⟨before, after, _, _, offends⟩
  exact offends.known

/-- Only names of the fields matter before a member. -/
theorem Offends.congr {before others : List String}
    (same : ∀ name ∈ names fields, name ∈ before ↔ name ∈ others) {member : String × ι}
    {fault : ε} (offends : reception.Offends fields before member fault) :
    reception.Offends fields others member fault := by
  have agrees := same member.1 offends.known
  cases offends with
  | repeated known again => exact .repeated known (agrees.mp again)
  | refused listed named fresh refuses =>
      exact .refused listed named (fun again => fresh (agrees.mpr again)) refuses

/-- Whether a field has a name among members does not hang on those that other
fields ask for. -/
theorem mem_names_others {outer : List Field} (apart : ∀ name ∈ names fields, name ∉ names outer)
    (members : List (String × ι)) {name : String} (known : name ∈ names fields) :
    name ∈ (others outer members).map Prod.fst ↔ name ∈ members.map Prod.fst := by
  simp only [List.mem_map, mem_others]
  constructor
  · intro given
    rcases given with ⟨member, ⟨listed, _⟩, isName⟩
    exact ⟨member, listed, isName⟩
  · intro given
    rcases given with ⟨member, listed, rfl⟩
    exact ⟨member, ⟨listed, apart member.1 known⟩, rfl⟩

/-- Members are without fault when those are that the fields can ask for. -/
theorem Blameless.of_others {outer : List Field}
    (apart : ∀ name ∈ names fields, name ∉ names outer) {members : List (String × ι)}
    (blameless : reception.Blameless fields (others outer members)) :
    reception.Blameless fields members := by
  intro before member after split fault offends
  have kept : others outer members = others outer before ++ member :: others outer after := by
    rw [split, others, List.filter_append, ← others, ← others,
      others_cons_unknown (apart member.1 offends.known)]
  exact blameless _ _ _ kept fault
    (offends.congr fun name known => (mem_names_others apart before known).symm)

/-- The first member at fault among those that the fields can ask for is the first
of all. -/
theorem FirstOffence.of_others {outer : List Field}
    (apart : ∀ name ∈ names fields, name ∉ names outer) {members : List (String × ι)}
    {member : String × ι} {fault : ε}
    (first : reception.FirstOffence fields (others outer members) member fault) :
    reception.FirstOffence fields members member fault := by
  rcases first with ⟨before, after, split, blameless, offends⟩
  rcases List.filter_eq_append_iff.mp split with ⟨front, back, rfl, rfl, isBack⟩
  rcases List.filter_eq_cons_iff.mp isBack with ⟨foreign, rest, rfl, unasked, _, _⟩
  have kept : others outer (front ++ foreign) = others outer front := by
    rw [others, List.filter_append, List.filter_eq_nil_iff.mpr unasked, List.append_nil, others]
  refine ⟨front ++ foreign, rest, (List.append_assoc _ _ _).symm, ?_, ?_⟩
  · exact Blameless.of_others apart (by rw [kept]; exact blameless)
  · rw [← others, ← kept] at offends
    exact offends.congr fun name known => mem_names_others apart _ known

end Reception

/-!
## What the slots have seen
-/

/-- The slots that are filled are those of names seen before. -/
def Slots.Mark : {fields : List Field} -> Slots fields -> List String -> Prop
  | [], (), _ => True
  | field :: _, (slot, slots), before =>
      (slot.isSome = true ↔ field.name ∈ before) ∧ slots.Mark before

namespace Slots

theorem mark_empty (fields : List Field) : (empty fields).Mark [] := by
  induction fields with
  | nil => trivial
  | cons field fields inductionHypothesis => exact ⟨⟨nofun, nofun⟩, inductionHypothesis⟩

/-- The name of an empty slot has not been seen. -/
theorem Mark.unseen {field : Field} {fields : List Field} {slots : Slots fields}
    {before : List String} (marks : @Mark (field :: fields) (none, slots) before) :
    field.name ∉ before := by
  intro seen
  cases marks.1.mpr seen

/-- Another name leaves the marks of the others. -/
theorem Mark.concat {fields : List Field} {slots : Slots fields} {before : List String}
    (marks : slots.Mark before) {name : String} (unnamed : name ∉ names fields) :
    slots.Mark (before ++ [name]) := by
  induction fields with
  | nil => trivial
  | cons field fields inductionHypothesis =>
      rcases slots with ⟨slot, slots⟩
      rcases not_or.mp (mt mem_names_cons.mpr unnamed) with ⟨different, others⟩
      refine ⟨?_, inductionHypothesis marks.2 others⟩
      rw [marks.1, List.mem_append, List.mem_singleton, or_iff_left (Ne.symm different)]

variable {reception : Reception ι ε} {fields : List Field} {slots : Slots fields}
  {before : List String} {name : String} {item : ι}

variable (reception item) in
/-- What keeps a slot from being filled is an offence. -/
theorem Mark.offends (marks : slots.Mark before) {fault : ε}
    (failed : slots.fill? name (reception.repeated name item)
      (fun field => reception.read field item) = some (.error fault)) :
    reception.Offends fields before (name, item) fault := by
  induction fields with
  | nil => cases failed
  | cons field fields inductionHypothesis =>
      rcases slots with ⟨slot, slots⟩
      by_cases same : field.name = name
      · subst same
        cases slot with
        | some stored =>
            simp only [fill?, if_true, Option.some.injEq, Except.error.injEq] at failed
            rw [← failed]
            exact .repeated (mem_names_cons.mpr (.inl rfl)) (marks.1.mp rfl)
        | none =>
            simp only [fill?, if_true, Option.some.injEq] at failed
            have fresh : field.name ∉ before := marks.unseen
            cases isRead : reception.read field item with
            | ok stored =>
                rw [isRead] at failed
                cases failed
            | error other =>
                rw [isRead] at failed
                cases failed
                exact .refused List.mem_cons_self rfl fresh isRead
      · simp only [fill?, if_neg same] at failed
        cases inner : slots.fill? name (reception.repeated name item)
            (fun field => reception.read field item) with
        | none =>
            rw [inner] at failed
            cases failed
        | some result =>
            rw [inner] at failed
            cases result with
            | ok after => cases failed
            | error other =>
                cases failed
                cases inductionHypothesis marks.2 inner with
                | repeated known again => exact .repeated (mem_names_cons.mpr (.inr known)) again
                | refused listed named fresh refuses =>
                    exact .refused (List.mem_cons_of_mem field listed) named fresh refuses

variable (reception item) in
/-- A slot that is filled marks its name, and its member is without fault. -/
theorem Mark.fills (distinct : (names fields).Nodup) (marks : slots.Mark before)
    {after : Slots fields}
    (filled : slots.fill? name (reception.repeated name item)
      (fun field => reception.read field item) = some (.ok after)) :
    (forall fault, ¬ reception.Offends fields before (name, item) fault) ∧
      after.Mark (before ++ [name]) := by
  induction fields with
  | nil => cases filled
  | cons field fields inductionHypothesis =>
      rcases slots with ⟨slot, slots⟩
      rcases List.nodup_cons.mp distinct with ⟨alone, others⟩
      by_cases same : field.name = name
      · subst same
        cases slot with
        | some stored => simp only [fill?, if_true, Option.some.injEq, reduceCtorEq] at filled
        | none =>
            simp only [fill?, if_true, Option.some.injEq] at filled
            rcases map_eq_ok_iff.mp filled with ⟨stored, isRead, rfl⟩
            have fresh : field.name ∉ before := marks.unseen
            refine ⟨fun fault offends => ?_, ?_, marks.2.concat alone⟩
            · cases offends with
              | repeated _ again => exact fresh again
              | refused listed named _ refuses =>
                  rcases List.mem_cons.mp listed with rfl | later
                  · rw [isRead] at refuses
                    cases refuses
                  · exact alone (named ▸ List.mem_map_of_mem later)
            · exact ⟨fun _ => List.mem_append_right _ (List.mem_singleton_self _), fun _ => rfl⟩
      · simp only [fill?, if_neg same] at filled
        cases inner : slots.fill? name (reception.repeated name item)
            (fun field => reception.read field item) with
        | none =>
            rw [inner] at filled
            cases filled
        | some result =>
            rw [inner] at filled
            rcases map_eq_ok_iff.mp (Option.some.inj filled) with ⟨afters, rfl, rfl⟩
            rcases inductionHypothesis others marks.2 inner with ⟨passes, marked⟩
            refine ⟨fun fault offends => ?_, ?_, marked⟩
            · cases offends with
              | repeated known again =>
                  have later := (mem_names_cons.mp known).resolve_left (Ne.symm same)
                  exact passes _ (.repeated later again)
              | refused listed named fresh refuses =>
                  rcases List.mem_cons.mp listed with rfl | later
                  · exact same named
                  · exact passes fault (.refused later named fresh refuses)
            · rw [marks.1, List.mem_append, List.mem_singleton, or_iff_left same]

end Slots

/-!
## What is missing
-/

/-- The names that may not be missing, in the order of the fields. -/
def requiredNames (fields : List Field) : List String :=
  names (fields.filter fun field => field.absent.isNone)

/-- The first name that may not be missing and is not there. -/
def firstMissing? (fields : List Field) (present : List String) : Option String :=
  (requiredNames fields).find? fun name => name ∉ present

theorem firstMissing?_cons {field : Field} {fields : List Field} {present : List String} :
    firstMissing? (field :: fields) present =
      if field.absent.isNone = true ∧ field.name ∉ present then some field.name
      else firstMissing? fields present := by
  simp only [firstMissing?, requiredNames, names]
  by_cases isRequired : field.absent.isNone = true
  · rw [List.filter_cons_of_pos (by exact isRequired), List.map_cons, List.find?_cons]
    by_cases lacks : field.name ∉ present
    · rw [if_pos ⟨isRequired, lacks⟩]
      simp only [lacks, not_false_eq_true, decide_true]
    · rw [if_neg fun both => lacks both.2]
      simp only [lacks, decide_false]
  · rw [List.filter_cons_of_neg (by exact isRequired), if_neg fun both => isRequired both.1]

/-- Only names of the fields matter for what is missing. -/
theorem firstMissing?_congr {fields : List Field} {present others : List String}
    (same : ∀ name ∈ names fields, name ∈ present ↔ name ∈ others) :
    firstMissing? fields present = firstMissing? fields others := by
  induction fields with
  | nil => rfl
  | cons field fields inductionHypothesis =>
      simp only [firstMissing?_cons, same field.name List.mem_cons_self,
        inductionHypothesis fun name known => same name (List.mem_cons_of_mem _ known)]

/-- Slots are complete unless a name is missing. -/
theorem Slots.Mark.complete_eq {fields : List Field} {slots : Slots fields}
    {present : List String} (marks : slots.Mark present) :
    match firstMissing? fields present with
    | none => Exists fun row => slots.complete = .ok row
    | some name => slots.complete = .error (.missing name) := by
  induction fields with
  | nil => exact ⟨(), rfl⟩
  | cons field fields inductionHypothesis =>
      rcases slots with ⟨slot, slots⟩
      have rest := inductionHypothesis marks.2
      rw [firstMissing?_cons]
      cases filled : slot.or field.absent with
      | none =>
          rcases Option.or_eq_none_iff.mp filled with ⟨rfl, isRequired⟩
          have lacks : field.name ∉ present := marks.unseen
          rw [if_pos ⟨by rw [isRequired]; rfl, lacks⟩]
          simp only [complete, filled]
      | some stored =>
          have present : ¬ (field.absent.isNone = true ∧ field.name ∉ present) := by
            intro given
            rcases given with ⟨isRequired, lacks⟩
            have empty : slot = none := by
              cases slot with
              | none => rfl
              | some stored => exact absurd (marks.1.mp rfl) lacks
            rw [empty, Option.isNone_iff_eq_none.mp isRequired] at filled
            cases filled
          rw [if_neg present]
          simp only [complete, filled]
          split at rest
          case h_1 =>
            rcases rest with ⟨row, isRow⟩
            exact ⟨(stored, row), by rw [isRow]; rfl⟩
          case h_2 => rw [rest]; rfl

/-!
## Taking all members
-/

/-- What comes of taking members: the first offence, or slots that have seen all
names, with what is kept of the members that no field asks for. -/
inductive Reception.Outcome (reception : Reception ι ε) (fields : List Field)
    (members : List (String × ι)) (kept : List (String × Value)) :
    Except ε (Slots fields × List (String × Value)) -> Prop
  | error {member : String × ι} {fault : ε}
      (first : reception.FirstOffence fields members member fault) :
      Outcome reception fields members kept (.error fault)
  | ok {after : Slots fields} (blameless : reception.Blameless fields members)
      (marks : after.Mark (members.map Prod.fst)) :
      Outcome reception fields members kept (.ok (after, kept))

/-- How values that are decoded already are taken. -/
def ofValues (route : Route) : Reception Value Mismatch where
  repeated name _ := .repeated name
  read field value := field.codec.interpret route value

/-- The members of a tree under their names. -/
def namedMembers (members : List (Key × Node)) : List (String × (Key × Node)) :=
  members.filterMap fun member => member.1.read.toOption.map fun name => (name, member)

theorem namedMembers_cons {key : Key} {name : String} (isName : key.read = .ok name) (node : Node)
    (members : List (Key × Node)) :
    namedMembers ((key, node) :: members) = (name, (key, node)) :: namedMembers members := by
  rw [namedMembers, List.filterMap_cons, isName]
  rfl

theorem mem_of_namedMembers {members : List (Key × Node)} {name : String} {member : Key × Node}
    (listed : (name, member) ∈ namedMembers members) : member ∈ members := by
  rcases List.mem_filterMap.mp listed with ⟨other, otherListed, isNamed⟩
  rcases Option.map_eq_some_iff.mp isNamed with ⟨_, _, same⟩
  cases same
  exact otherListed

/-- How the members of a tree are taken.  A name that is there already is noticed
when the token after it has been looked at. -/
def ofNodes (allowance : Nat) : Reception (Key × Node) Fault where
  repeated name member := .ofMismatch (.repeated name) member.1.next.closingMark
  read field member := field.codec.read allowance member.2

/-- What is kept of decoded members that no field asks for. -/
def Others.kept (kind : Others) (fields : List Field) (values : List (String × Value)) :
    List (String × Value) :=
  match kind with
  | .passed => []
  | .buffered => others fields values

theorem Others.kept_known {kind : Others} {fields : List Field} {member : String × Value}
    (known : member.1 ∈ names fields) (values : List (String × Value)) :
    kind.kept fields (member :: values) = kind.kept fields values := by
  cases kind with
  | passed => rfl
  | buffered => exact others_cons_known known values

section Loops

variable {fields : List Field} {slots : Slots fields}

/-- Sorting decoded members, from slots that have seen those before. -/
theorem interpretMembers_outcome {route : Route} (distinct : (names fields).Nodup)
    {before : List (String × Value)} (marks : slots.Mark (before.map Prod.fst))
    (blameless : (ofValues route).Blameless fields before) (members : List (String × Value)) :
    (ofValues route).Outcome fields (before ++ members) (others fields members)
      (interpretMembers route slots members) := by
  induction members generalizing slots before with
  | nil =>
      rw [List.append_nil]
      exact .ok blameless marks
  | cons member members inductionHypothesis =>
      rcases member with ⟨name, value⟩
      have grown : before ++ (name, value) :: members = before ++ [(name, value)] ++ members := by
        rw [List.append_assoc, List.singleton_append]
      have seen : (before ++ [(name, value)]).map Prod.fst = before.map Prod.fst ++ [name] := by
        rw [List.map_append, List.map_singleton]
      rw [interpretMembers]
      cases filled : slots.fill? name (.repeated name)
          (fun field => field.codec.interpret route value) with
      | none =>
          have unknown := Slots.fill?_eq_none.mp filled
          have rest := inductionHypothesis (seen ▸ marks.concat unknown)
            (blameless.concat fun fault offends => unknown offends.known)
          rw [grown, others_cons_unknown unknown]
          generalize interpretMembers route slots members = result at rest
          cases rest with
          | error first => exact .error first
          | ok blameless marks => exact .ok blameless marks
      | some result =>
          have known := Slots.known_of_fill? filled
          cases result with
          | error mismatch =>
              exact .error ⟨before, members, rfl, blameless,
                marks.offends (ofValues route) value filled⟩
          | ok after =>
              rcases marks.fills (ofValues route) value distinct filled with ⟨passes, marked⟩
              rw [grown, others_cons_known known]
              exact inductionHypothesis (seen ▸ marked) (blameless.concat passes)

/-- A member that no field asks for is taken whatever it is, when it can be decoded. -/
theorem Others.outcome_unknown (kind : Others) {reception : Reception ι Fault} {allowance : Nat}
    {node : Node} {form : Form} (held : node.Holds form) {value : Value}
    (isValue : node.buffer allowance = .ok value) {name : String} (unknown : name ∉ names fields)
    {members : List (String × ι)} {values : List (String × Value)}
    {result : Except Fault (Slots fields × List (String × Value))}
    (outcome : reception.Outcome fields members (kind.kept fields values) result) :
    reception.Outcome fields members (kind.kept fields ((name, value) :: values)) (do
      let kept ← kind.read allowance node
      let (slots, rest) ← result
      match kept with
      | none => .ok (slots, rest)
      | some value => .ok (slots, (name, value) :: rest)) := by
  cases kind with
  | passed =>
      simp only [Others.read, Node.pass_holds held, ok_bind]
      cases outcome with
      | error first => exact .error first
      | ok blameless marks => exact .ok blameless marks
  | buffered =>
      simp only [Others.read, isValue, ok_bind]
      rw [Others.kept, others_cons_unknown unknown]
      cases outcome with
      | error first => exact .error first
      | ok blameless marks => exact .ok blameless marks

/-- Sorting the members of a tree, from slots that have seen those before, when
everything in them can be decoded. -/
theorem readMembers_outcome (kind : Others) {allowance : Nat} (distinct : (names fields).Nodup)
    {before : List (String × (Key × Node))} (marks : slots.Mark (before.map Prod.fst))
    (blameless : (ofNodes allowance).Blameless fields before) {members : List (Key × Node)}
    {forms : List (List Piece × Form)} (holds : Node.HoldMembers members forms)
    {values : List (String × Value)}
    (decoded : Node.bufferMembers allowance members = .ok values) :
    (ofNodes allowance).Outcome fields (before ++ namedMembers members) (kind.kept fields values)
      (readMembers kind allowance slots members) := by
  induction members generalizing slots before forms values with
  | nil =>
      cases decoded
      rw [namedMembers, List.filterMap_nil, List.append_nil]
      cases kind <;> exact .ok blameless marks
  | cons member members inductionHypothesis =>
      rcases member with ⟨key, node⟩
      cases holds with
      | cons _ held others =>
      rcases bind_eq_ok_iff.mp decoded with ⟨name, isName, afterName⟩
      rcases bind_eq_ok_iff.mp afterName with ⟨_, colon, afterColon⟩
      rcases bind_eq_ok_iff.mp afterColon with ⟨value, isValue, afterValue⟩
      rcases bind_eq_ok_iff.mp afterValue with ⟨later, isLater, done⟩
      cases done
      have grown : before ++ namedMembers ((key, node) :: members) =
          before ++ [(name, (key, node))] ++ namedMembers members := by
        rw [namedMembers_cons isName, List.append_assoc, List.singleton_append]
      have seen : (before ++ [(name, (key, node))]).map Prod.fst =
          before.map Prod.fst ++ [name] := by
        rw [List.map_append, List.map_singleton]
      have taken : (fun field : Field => key.colon >>= fun _ => field.codec.read allowance node) =
          fun field => field.codec.read allowance node := by
        funext field
        rw [colon, ok_bind]
      rw [readMembers, isName, ok_bind]
      simp only [taken]
      cases filled : slots.fill? name (.ofMismatch (.repeated name) key.next.closingMark)
          (fun field => field.codec.read allowance node) with
      | none =>
          have unknown := Slots.fill?_eq_none.mp filled
          have rest := inductionHypothesis (seen ▸ marks.concat unknown)
            (blameless.concat fun fault offends => unknown offends.known) others isLater
          rw [← grown] at rest
          simp only [colon, ok_bind]
          exact kind.outcome_unknown held isValue unknown rest
      | some result =>
          have known := Slots.known_of_fill? filled
          cases result with
          | error fault =>
              rw [namedMembers_cons isName]
              exact .error ⟨before, _, rfl, blameless,
                marks.offends (ofNodes allowance) (key, node) filled⟩
          | ok after =>
              rcases marks.fills (ofNodes allowance) (key, node) distinct filled with
                ⟨passes, marked⟩
              rw [grown, Others.kept_known known]
              exact inductionHypothesis (seen ▸ marked) (blameless.concat passes) others isLater

end Loops

/-!
## Records
-/

section Records

variable {fields : List Field} {route : Route} {members : List (String × Value)}
  {mismatch : Mismatch}

/-- A record is refused for its first member at fault, and else for the first
name that is missing. -/
theorem interpretRecord_error (distinct : (names fields).Nodup)
    (refused : interpretRecord route fields members = .error mismatch) :
    (Exists fun member => (ofValues route).FirstOffence fields members member mismatch) ∨
    (ofValues route).Blameless fields members ∧
      Exists fun name => firstMissing? fields (members.map Prod.fst) = some name ∧
        mismatch = .missing name := by
  have outcome := interpretMembers_outcome distinct (Slots.mark_empty fields)
    (Reception.blameless_nil (ofValues route) fields) members
  rw [interpretRecord] at refused
  generalize interpretMembers route (Slots.empty fields) members = result at outcome refused
  cases outcome with
  | error first =>
      cases refused
      exact .inl ⟨_, first⟩
  | @ok slots blameless marks =>
      refine .inr ⟨blameless, ?_⟩
      have completed := marks.complete_eq
      have incomplete : slots.complete = .error mismatch := refused
      split at completed
      case h_1 =>
        rcases completed with ⟨row, isRow⟩
        rw [isRow] at incomplete
        cases incomplete
      case h_2 name isMissing =>
        rw [completed] at incomplete
        exact ⟨name, isMissing, (Except.error.inj incomplete).symm⟩

/-- A record around another one, none of whose own names is required, is refused
for its own members first. -/
theorem interpretExtended_error {β : Type}
    {inner : List (String × Value) -> Except Mismatch β} (distinct : (names fields).Nodup)
    (lenient : requiredNames fields = [])
    (refused : interpretExtended route fields inner members = .error mismatch) :
    (Exists fun member => (ofValues route).FirstOffence fields members member mismatch) ∨
    (ofValues route).Blameless fields members ∧
      inner (others fields members) = .error mismatch := by
  have outcome := interpretMembers_outcome distinct (Slots.mark_empty fields)
    (Reception.blameless_nil (ofValues route) fields) members
  rw [interpretExtended] at refused
  generalize interpretMembers route (Slots.empty fields) members = result at outcome refused
  cases outcome with
  | error first =>
      cases refused
      exact .inl ⟨_, first⟩
  | @ok slots blameless marks =>
      refine .inr ⟨blameless, ?_⟩
      have completed := marks.complete_eq
      rw [firstMissing?, lenient, List.find?_nil] at completed
      rcases completed with ⟨row, isRow⟩
      simp only [ok_bind, isRow] at refused
      cases isBase : inner (others fields members) with
      | ok base =>
          rw [isBase] at refused
          cases refused
      | error other =>
          rw [isBase] at refused
          cases refused
          rfl

/-- The same when the members are read from a tree in which everything can be
decoded.  A fault of the inner record has its place where the object is closed. -/
theorem Codec.extending_error {β : Type} {name : String}
    {inner : List (String × Value) -> Except Mismatch β}
    {innerMembers : β -> List (String × Value)} (distinct : (names fields).Nodup)
    (lenient : requiredNames fields = []) {allowance : Nat} {start close : Token}
    {nodes : List (Key × Node)} {forms : List (List Piece × Form)}
    (holds : Node.HoldMembers nodes forms)
    (decoded : Node.bufferMembers allowance nodes = .ok members) {fault : Fault}
    (refused : (Codec.extending name fields inner innerMembers).read (allowance + 1)
      (.object start nodes (.closed close)) = .error fault) :
    (Exists fun member =>
      (ofNodes allowance).FirstOffence fields (namedMembers nodes) member fault) ∨
    (ofNodes allowance).Blameless fields (namedMembers nodes) ∧
      Exists fun mismatch => inner (others fields members) = .error mismatch ∧
        fault = .ofMismatch mismatch (.after close.stop) := by
  have outcome := readMembers_outcome .buffered distinct (Slots.mark_empty fields)
    (Reception.blameless_nil (ofNodes allowance) fields) holds decoded
  simp only [Codec.extending, ObjectEnd.read] at refused
  generalize readMembers .buffered allowance (Slots.empty fields) nodes = result
    at outcome refused
  cases outcome with
  | error first =>
      cases refused
      exact .inl ⟨_, first⟩
  | @ok slots blameless marks =>
      refine .inr ⟨blameless, ?_⟩
      have completed := marks.complete_eq
      rw [firstMissing?, lenient, List.find?_nil] at completed
      rcases completed with ⟨row, isRow⟩
      simp only [ok_bind, isRow, Others.kept] at refused
      cases isBase : inner (others fields members) with
      | ok base =>
          rw [isBase] at refused
          cases refused
      | error mismatch =>
          rw [isBase] at refused
          cases refused
          exact ⟨mismatch, rfl, rfl⟩

end Records

end Record
end RepoInspector
