import RepoInspector.Proofs.Json.Entries
import RepoInspector.Proofs.Json.TextWriting

namespace RepoInspector
namespace Json

/-!
# Settled forms

A dictionary keeps of members with equal names the last one.  The same can be
done to a form, where the members that are kept stay in text order.  Decoding
a document and settling the value then amounts to decoding the document in
which every object keeps only the last of its members with equal names.
-/

section KeepLast

variable {ι κ : Type} [DecidableEq κ]

/-- The items whose key no later item has. -/
def keepLast (key : ι -> κ) : List ι -> List ι
  | [] => []
  | item :: items =>
      if key item ∈ items.map key then keepLast key items else item :: keepLast key items

theorem keepLast_sublist (key : ι -> κ) (items : List ι) :
    List.Sublist (keepLast key items) items := by
  induction items with
  | nil => exact .slnil
  | cons item items inductionHypothesis =>
      by_cases again : key item ∈ items.map key
      · rw [keepLast, if_pos again]
        exact .cons item inductionHypothesis
      · rw [keepLast, if_neg again]
        exact .cons_cons item inductionHypothesis

theorem notMem_keepLast {key : ι -> κ} {items : List ι} {name : κ} (absent : name ∉ items.map key) :
    name ∉ (keepLast key items).map key :=
  fun listed => absent ((List.Sublist.map key (keepLast_sublist key items)).subset listed)

/-- Of every key an item stays. -/
theorem mem_keepLast {key : ι -> κ} {items : List ι} {name : κ} (listed : name ∈ items.map key) :
    name ∈ (keepLast key items).map key := by
  induction items with
  | nil => cases listed
  | cons item items inductionHypothesis =>
      by_cases again : key item ∈ items.map key
      · rw [keepLast, if_pos again]
        rcases List.mem_cons.mp listed with rfl | later
        · exact inductionHypothesis again
        · exact inductionHypothesis later
      · rw [keepLast, if_neg again, List.map_cons, List.mem_cons]
        exact (List.mem_cons.mp listed).imp_right inductionHypothesis

theorem nodup_keepLast (key : ι -> κ) (items : List ι) : ((keepLast key items).map key).Nodup := by
  induction items with
  | nil => exact List.nodup_nil
  | cons item items inductionHypothesis =>
      by_cases again : key item ∈ items.map key
      · rw [keepLast, if_pos again]
        exact inductionHypothesis
      · rw [keepLast, if_neg again, List.map_cons, List.nodup_cons]
        exact ⟨notMem_keepLast again, inductionHypothesis⟩

theorem keepLast_of_nodup {key : ι -> κ} {items : List ι} (distinct : (items.map key).Nodup) :
    keepLast key items = items := by
  induction items with
  | nil => rfl
  | cons item items inductionHypothesis =>
      rw [List.map_cons, List.nodup_cons] at distinct
      rw [keepLast, if_neg distinct.1, inductionHypothesis distinct.2]

/-- Of items in front those are kept whose key no item behind them has. -/
theorem keepLast_append (key : ι -> κ) (before later : List ι) :
    keepLast key (before ++ later) =
      (keepLast key before).filter (fun item => key item ∉ later.map key) ++
        keepLast key later := by
  induction before with
  | nil => rfl
  | cons item before inductionHypothesis =>
      have again_iff : key item ∈ (before ++ later).map key ↔
          key item ∈ before.map key ∨ key item ∈ later.map key := by
        rw [List.map_append, List.mem_append]
      rw [List.cons_append, keepLast, keepLast, inductionHypothesis]
      by_cases again : key item ∈ before.map key
      · rw [if_pos (again_iff.mpr (.inl again)), if_pos again]
      · by_cases behind : key item ∈ later.map key
        · rw [if_pos (again_iff.mpr (.inr behind)), if_neg again,
            List.filter_cons_of_neg (by simpa using behind)]
        · rw [if_neg (mt again_iff.mp (not_or.mpr ⟨again, behind⟩)), if_neg again,
            List.filter_cons_of_pos (by simpa using behind), List.cons_append]

/-- The last item of a key is kept, whatever it is. -/
theorem keepLast_around (key : ι -> κ) (before : List ι) {after : List ι} {name : κ}
    (last : name ∉ after.map key) :
    Exists fun left => forall item, key item = name ->
      keepLast key (before ++ item :: after) = left ++ item :: keepLast key after := by
  refine ⟨(keepLast key before).filter fun item => key item ∉ name :: after.map key, ?_⟩
  rintro item rfl
  rw [keepLast_append, List.map_cons, keepLast, if_neg last]

/-- An item of a new key is kept, and with it what is kept without it. -/
theorem keepLast_inserted {key : ι -> κ} {before after : List ι} {name : κ}
    (fresh : name ∉ (before ++ after).map key) :
    Exists fun left => Exists fun right => keepLast key (before ++ after) = left ++ right ∧
      forall item, key item = name ->
        keepLast key (before ++ item :: after) = left ++ item :: right := by
  rw [List.map_append, List.mem_append, not_or] at fresh
  refine ⟨_, _, keepLast_append key before after, ?_⟩
  rintro item rfl
  rw [keepLast_append, List.map_cons, keepLast, if_neg fresh.2]
  congr 1
  apply List.filter_congr
  intro other listed
  have isBefore := (keepLast_sublist key before).subset listed
  have different : key other ≠ key item := fun same => fresh.1 (same ▸ List.mem_map_of_mem isBefore)
  simp only [List.mem_cons, different, false_or]

end KeepLast

section Dictionary

variable {ι κ : Type}

theorem named_eq_nil_iff {name : String} {members : List (String × ι)} :
    named name members = [] ↔ name ∉ members.map Prod.fst := by
  constructor
  · intro empty listed
    rcases List.mem_map.mp listed with ⟨⟨other, item⟩, isMember, rfl⟩
    have found := mem_named.mpr isMember
    rw [empty] at found
    cases found
  · intro absent
    apply named_eq_nil
    intro member listed same
    apply absent
    rw [← same]
    exact List.mem_map_of_mem listed

/-- Of the items of a name the last one is kept. -/
theorem named_keepLast (name : String) (members : List (String × ι)) :
    named name (keepLast Prod.fst members) = (named name members).getLast?.toList := by
  induction members with
  | nil => rfl
  | cons member members inductionHypothesis =>
      rw [named_cons]
      by_cases again : member.1 ∈ members.map Prod.fst
      · rw [keepLast, if_pos again, inductionHypothesis]
        split
        case isTrue same =>
          have some_item : named name members ≠ [] := fun empty =>
            named_eq_nil_iff.mp empty (same ▸ again)
          rw [List.getLast?_cons_of_ne_nil some_item]
        case isFalse => rfl
      · rw [keepLast, if_neg again, named_cons]
        split
        case isTrue same =>
          have no_item := named_eq_nil_iff.mpr (same ▸ again)
          rw [inductionHypothesis, no_item]
          rfl
        case isFalse => exact inductionHypothesis

/-- Members in ascending order of names. -/
def Ascending (members : List (String × ι)) : Prop :=
  members.Pairwise fun first second => first.1 < second.1

theorem mem_putMember {name : String} {item : ι} {members : List (String × ι)}
    {member : String × ι} (listed : member ∈ putMember name item members) :
    member = (name, item) ∨ member ∈ members := by
  fun_induction putMember name item members with
  | case1 => exact .inl (List.mem_singleton.mp listed)
  | case2 first members before =>
      exact List.mem_cons.mp listed
  | case3 first members notBefore same =>
      rcases List.mem_cons.mp listed with isNew | later
      · exact .inl isNew
      · exact .inr (List.mem_cons_of_mem first later)
  | case4 first members notBefore different inductionHypothesis =>
      rcases List.mem_cons.mp listed with isFirst | later
      · exact .inr (isFirst ▸ List.mem_cons_self)
      · exact (inductionHypothesis later).imp_right (List.mem_cons_of_mem first)

theorem lt_of_not_lt_of_ne {name other : String} (notBefore : ¬ name < other)
    (different : name ≠ other) : other < name := by
  apply Decidable.byContradiction
  intro notAfter
  exact different (String.le_antisymm (String.not_lt.mp notAfter) (String.not_lt.mp notBefore))

/-- A dictionary stays in order. -/
theorem ascending_putMember {name : String} {item : ι} {members : List (String × ι)}
    (ascending : Ascending members) : Ascending (putMember name item members) := by
  fun_induction putMember name item members with
  | case1 => exact List.pairwise_singleton _ _
  | case2 first members before =>
      refine List.pairwise_cons.mpr ⟨fun member listed => ?_, ascending⟩
      rcases List.mem_cons.mp listed with rfl | later
      · exact before
      · exact String.lt_trans before ((List.pairwise_cons.mp ascending).1 member later)
  | case3 first members notBefore same =>
      rcases List.pairwise_cons.mp ascending with ⟨firstBefore, rest⟩
      exact List.pairwise_cons.mpr ⟨fun member listed => same ▸ firstBefore member listed, rest⟩
  | case4 first members notBefore different inductionHypothesis =>
      rcases List.pairwise_cons.mp ascending with ⟨firstBefore, rest⟩
      refine List.pairwise_cons.mpr ⟨fun member listed => ?_, inductionHypothesis rest⟩
      rcases mem_putMember listed with rfl | old
      · exact lt_of_not_lt_of_ne notBefore different
      · exact firstBefore member old

/-- A dictionary has under a new name the new item alone, and under every other
name what it had. -/
theorem named_putMember {name : String} {item : ι} {members : List (String × ι)}
    (ascending : Ascending members) (other : String) :
    named other (putMember name item members) =
      if name = other then [item] else named other members := by
  fun_induction putMember name item members with
  | case1 =>
      rw [named_cons]
      rfl
  | case2 first members before =>
      rw [named_cons]
      split
      case isTrue same =>
        cases same
        rw [named_eq_nil fun member listed isName => ?_]
        rcases List.mem_cons.mp listed with rfl | later
        · exact String.lt_irrefl _ (isName ▸ before)
        · have after := String.lt_trans before ((List.pairwise_cons.mp ascending).1 member later)
          exact String.lt_irrefl _ (isName ▸ after)
      case isFalse => rfl
  | case3 first members notBefore same =>
      rw [named_cons, named_cons, ← same]
      split
      case isTrue isOther =>
        cases isOther
        rw [named_eq_nil fun member listed isName => ?_]
        have after := (List.pairwise_cons.mp ascending).1 member listed
        rw [← same, isName] at after
        exact String.lt_irrefl _ after
      case isFalse => rfl
  | case4 first members notBefore different inductionHypothesis =>
      rw [named_cons, inductionHypothesis (List.pairwise_cons.mp ascending).2]
      by_cases isOther : name = other
      · cases isOther
        rw [if_neg fun same => different same.symm, if_pos rfl, if_pos rfl]
      · rw [if_neg isOther, if_neg isOther, named_cons]

theorem ascending_dictionary_from (members : List (String × ι)) {known : List (String × ι)}
    (ascending : Ascending known) (name : String) :
    named name (members.foldl (fun known member => putMember member.1 member.2 known) known) =
      if named name members = [] then named name known
      else (named name members).getLast?.toList := by
  induction members generalizing known with
  | nil => rfl
  | cons member members inductionHypothesis =>
      rw [List.foldl_cons, inductionHypothesis (ascending_putMember ascending),
        named_putMember ascending, named_cons]
      by_cases same : member.1 = name
      · rw [if_pos same, if_pos same, if_neg (List.cons_ne_nil _ _)]
        split
        case isTrue empty => rw [empty]; rfl
        case isFalse some_item => rw [List.getLast?_cons_of_ne_nil some_item]
      · rw [if_neg same, if_neg same]

/-- A dictionary has under each name the last item of that name. -/
theorem named_dictionary (name : String) (members : List (String × ι)) :
    named name (dictionary members) = (named name members).getLast?.toList := by
  rw [dictionary, ascending_dictionary_from members List.Pairwise.nil]
  split
  case isTrue empty => rw [empty]; rfl
  case isFalse => rfl

theorem forall₂_getLast? {relation : ι -> κ -> Prop} {items : List ι} {others : List κ}
    (related : List.Forall₂ relation items others) :
    List.Forall₂ relation items.getLast?.toList others.getLast?.toList := by
  induction related with
  | nil => exact .nil
  | cons first rest inductionHypothesis =>
      cases rest with
      | nil => exact .cons first .nil
      | cons second rest =>
          rw [List.getLast?_cons_cons, List.getLast?_cons_cons]
          exact inductionHypothesis

end Dictionary

namespace Form

mutual

/-- The form in which every object keeps only the last of its members with
equal names. -/
def settled : Form -> Form
  | .null => .null
  | .boolean b => .boolean b
  | .number numeral => .number numeral
  | .text pieces => .text pieces
  | .array items => .array (settledItems items)
  | .object members =>
      .object (keepLast (fun member => Piece.denoted? member.1) (settledMembers members))

def settledItems : List Form -> List Form
  | [] => []
  | item :: items => item.settled :: settledItems items

def settledMembers : List (List Piece × Form) -> List (List Piece × Form)
  | [] => []
  | (pieces, form) :: members => (pieces, form.settled) :: settledMembers members

end

mutual

/-- No object has two members with equal names. -/
def Distinct : Form -> Prop
  | .null | .boolean _ | .number _ | .text _ => True
  | .array items => AllDistinct items
  | .object members =>
      (members.map fun member => Piece.denoted? member.1).Nodup ∧ MembersDistinct members

def AllDistinct : List Form -> Prop
  | [] => True
  | item :: items => item.Distinct ∧ AllDistinct items

def MembersDistinct : List (List Piece × Form) -> Prop
  | [] => True
  | (_, form) :: members => form.Distinct ∧ MembersDistinct members

end

mutual

/-- A form without repeated names is settled. -/
theorem settled_of_distinct (form : Form) : form.Distinct -> form.settled = form := by
  match form with
  | .null | .boolean _ | .number _ | .text _ => exact fun _ => rfl
  | .array items =>
      intro distinct
      rw [settled, settledItems_of_distinct items distinct]
  | .object members =>
      intro distinct
      rw [settled, settledMembers_of_distinct members distinct.2, keepLast_of_nodup distinct.1]

theorem settledItems_of_distinct (items : List Form) :
    AllDistinct items -> settledItems items = items := by
  match items with
  | [] => exact fun _ => rfl
  | item :: items =>
      intro distinct
      rw [settledItems, settled_of_distinct item distinct.1,
        settledItems_of_distinct items distinct.2]

theorem settledMembers_of_distinct (members : List (List Piece × Form)) :
    MembersDistinct members -> settledMembers members = members := by
  match members with
  | [] => exact fun _ => rfl
  | (pieces, form) :: members =>
      intro distinct
      rw [settledMembers, settled_of_distinct form distinct.1,
        settledMembers_of_distinct members distinct.2]

end

theorem membersDistinct_sublist {kept members : List (List Piece × Form)}
    (sublist : List.Sublist kept members) (distinct : MembersDistinct members) :
    MembersDistinct kept := by
  induction sublist with
  | slnil => exact trivial
  | cons member _ inductionHypothesis => exact inductionHypothesis distinct.2
  | cons_cons member _ inductionHypothesis => exact ⟨distinct.1, inductionHypothesis distinct.2⟩

mutual

/-- Settling leaves no repeated name. -/
theorem distinct_settled (form : Form) : form.settled.Distinct := by
  match form with
  | .null | .boolean _ | .number _ | .text _ => exact trivial
  | .array items => exact allDistinct_settledItems items
  | .object members =>
      exact ⟨nodup_keepLast _ _,
        membersDistinct_sublist (keepLast_sublist _ _) (membersDistinct_settledMembers members)⟩

theorem allDistinct_settledItems (items : List Form) : AllDistinct (settledItems items) := by
  match items with
  | [] => exact trivial
  | item :: items => exact ⟨distinct_settled item, allDistinct_settledItems items⟩

theorem membersDistinct_settledMembers (members : List (List Piece × Form)) :
    MembersDistinct (settledMembers members) := by
  match members with
  | [] => exact trivial
  | (_, form) :: members => exact ⟨distinct_settled form, membersDistinct_settledMembers members⟩

end

theorem settledItems_eq_map (items : List Form) : settledItems items = items.map settled := by
  induction items with
  | nil => rfl
  | cons item items inductionHypothesis => rw [settledItems, inductionHypothesis, List.map_cons]

theorem settledMembers_eq_map (members : List (List Piece × Form)) :
    settledMembers members = members.map fun member => (member.1, member.2.settled) := by
  induction members with
  | nil => rfl
  | cons member members inductionHypothesis =>
      rw [settledMembers, inductionHypothesis, List.map_cons]

theorem settledMembers_around (before after : List (List Piece × Form)) (pieces : List Piece)
    (form : Form) :
    settledMembers (before ++ (pieces, form) :: after) =
      settledMembers before ++ (pieces, form.settled) :: settledMembers after := by
  simp only [settledMembers_eq_map, List.map_append, List.map_cons]

theorem settledMembers_append (before after : List (List Piece × Form)) :
    settledMembers (before ++ after) = settledMembers before ++ settledMembers after := by
  simp only [settledMembers_eq_map, List.map_append]

/-- Members have the same names when they are settled. -/
theorem map_denoted_settledMembers (members : List (List Piece × Form)) :
    (settledMembers members).map (fun member => Piece.denoted? member.1) =
      members.map fun member => Piece.denoted? member.1 := by
  rw [settledMembers_eq_map, List.map_map]
  rfl

section Around

variable {before after : List (List Piece × Form)} {pieces : List Piece} {name : String}

/-- The last member of a name stays, whatever its value is. -/
theorem exists_settled_around (denoted : Piece.denoted? pieces = some name)
    (last : some name ∉ after.map fun member => Piece.denoted? member.1) :
    Exists fun left => Exists fun right =>
      some name ∉ (right.map fun member => Piece.denoted? member.1) ∧
      forall form, (Form.object (before ++ (pieces, form) :: after)).settled =
        .object (left ++ (pieces, form.settled) :: right) := by
  rw [← map_denoted_settledMembers] at last
  rcases keepLast_around (fun member => Piece.denoted? member.1) (settledMembers before) last with
    ⟨left, kept⟩
  refine ⟨left, _, notMem_keepLast last, fun form => ?_⟩
  rw [settled, settledMembers_around, kept _ denoted]

/-- A member of a new name stays, and with it what stays without it. -/
theorem exists_settled_inserted (denoted : Piece.denoted? pieces = some name)
    (absent : some name ∉ (before ++ after).map fun member => Piece.denoted? member.1) :
    Exists fun left => Exists fun right =>
      some name ∉ ((left ++ right).map fun member => Piece.denoted? member.1) ∧
      (Form.object (before ++ after)).settled = .object (left ++ right) ∧
      forall form, (Form.object (before ++ (pieces, form) :: after)).settled =
        .object (left ++ (pieces, form.settled) :: right) := by
  rw [← map_denoted_settledMembers, settledMembers_append] at absent
  rcases keepLast_inserted absent with ⟨left, right, kept, inserted⟩
  refine ⟨left, right, ?_, ?_, fun form => ?_⟩
  · rw [← kept]
    exact notMem_keepLast absent
  · rw [settled, settledMembers_append, kept]
  · rw [settled, settledMembers_around, inserted _ denoted]

end Around

/-- Settling the values of members leaves their names alone. -/
theorem Keyed.settled {members : List (List Piece × Form)} {entries : List (String × Form)}
    (keyed : Keyed members entries) :
    Keyed (settledMembers members) (entries.map fun entry => (entry.1, entry.2.settled)) := by
  induction keyed with
  | nil => exact .nil
  | cons denoted _ inductionHypothesis => exact .cons denoted inductionHypothesis

theorem Keyed.names {members : List (List Piece × Form)} {entries : List (String × Form)}
    (keyed : Keyed members entries) :
    members.map (fun member => Piece.denoted? member.1) = (entries.map Prod.fst).map some := by
  induction keyed with
  | nil => rfl
  | cons denoted _ inductionHypothesis =>
      rw [List.map_cons, inductionHypothesis, denoted]
      rfl

/-- Which members are the last of their names can be said before and after the
names are decoded. -/
theorem Keyed.keepLast {members : List (List Piece × Form)} {entries : List (String × Form)}
    (keyed : Keyed members entries) :
    Keyed (keepLast (fun member => Piece.denoted? member.1) members)
      (Json.keepLast Prod.fst entries) := by
  induction keyed with
  | nil => exact .nil
  | @cons pieces name form members entries denoted rest inductionHypothesis =>
      have again_iff : Piece.denoted? pieces ∈
          members.map (fun member => Piece.denoted? member.1) ↔ name ∈ entries.map Prod.fst := by
        rw [rest.names, denoted, List.mem_map]
        constructor
        · intro given
          rcases given with ⟨other, listed, same⟩
          cases same
          exact listed
        · exact fun listed => ⟨name, listed, rfl⟩
      rw [Json.keepLast, Json.keepLast]
      by_cases again : name ∈ entries.map Prod.fst
      · rw [if_pos (again_iff.mpr again), if_pos again]
        exact inductionHypothesis
      · rw [if_neg (mt again_iff.mp again), if_neg again]
        exact .cons denoted inductionHypothesis

mutual

/-- A form that decodes still decodes when it is settled, into what its
settled value has under each name. -/
theorem Denotes.settled {allowance : Nat} {form : Form} {value : Value} :
    Denotes allowance form value ->
      form.settled.Decodes allowance ∧ Tells form.settled value.settled
  | .null => ⟨⟨_, .null⟩, .null⟩
  | .boolean => ⟨⟨_, .boolean⟩, .boolean⟩
  | .number inRange => ⟨⟨_, .number inRange⟩, .number inRange⟩
  | .text denoted => ⟨⟨_, .text denoted⟩, .text denoted⟩
  | .array inner => ⟨decodes_array_iff.mpr inner.settled.1, .array inner.settled.2⟩
  | .object inner => by
      rcases inner.settled with ⟨entries, keyed, decode, all⟩
      refine ⟨decodes_object_iff.mpr ⟨_, keyed.keepLast, fun entry listed => ?_⟩,
        .object keyed.keepLast fun name => ?_⟩
      · exact decode entry ((keepLast_sublist _ _).subset listed)
      · rw [named_keepLast, named_dictionary]
        exact forall₂_getLast? (named_forall₂ all name)

theorem DenoteAll.settled {allowance : Nat} {items : List Form} {values : List Value} :
    DenoteAll allowance items values ->
      (∀ item ∈ settledItems items, item.Decodes allowance) ∧
        List.Forall₂ Tells (settledItems items) (Value.settledItems values)
  | .nil => ⟨fun _ => (nomatch ·), .nil⟩
  | .cons first rest =>
      ⟨List.forall_mem_cons.mpr ⟨first.settled.1, rest.settled.1⟩,
        .cons first.settled.2 rest.settled.2⟩

theorem DenoteMembers.settled {allowance : Nat} {members : List (List Piece × Form)}
    {values : List (String × Value)} : DenoteMembers allowance members values ->
      Exists fun entries => Keyed (settledMembers members) entries ∧
        (∀ entry ∈ entries, entry.2.Decodes allowance) ∧
        List.Forall₂ (fun entry value => entry.1 = value.1 ∧ Tells entry.2 value.2)
          entries (Value.settledMembers values)
  | .nil => ⟨[], .nil, fun _ => (nomatch ·), .nil⟩
  | .cons denoted first rest => by
      rcases rest.settled with ⟨entries, keyed, decode, all⟩
      have ⟨decodes, tells⟩ := first.settled
      refine ⟨_, .cons denoted keyed, ?_, .cons ⟨rfl, tells⟩ all⟩
      exact List.forall_mem_cons.mpr ⟨decodes, decode⟩

end

end Form

/-!
## Documents of settled forms

Settling only takes lexemes away, so what was written can be written without
the members that it drops.
-/

/-- Digits are spelled in ASCII. -/
theorem digitBytes_ascii (digits : List Digit) : ∀ byte ∈ digitBytes digits, byte.toNat < 128 :=
  Numeral.digitBytes_each (by decide) digits

theorem startsAscii_digits {digits : List Digit} (some_digit : digits ≠ []) (later : List UInt8) :
    StartsAscii (digitBytes digits ++ later) := by
  rcases digits with _ | ⟨digit, digits⟩
  · exact absurd rfl some_digit
  · intro byte isFirst
    cases isFirst
    exact digitBytes_ascii (digit :: digits) _ List.mem_cons_self

theorem blank_ascii {byte : UInt8} (isBlank : isBlankByte byte = true) : byte.toNat < 128 := by
  have known : byte = 0x20 ∨ byte = 0x0a ∨ byte = 0x09 ∨ byte = 0x0d := by
    simpa [isBlankByte, or_assoc] using isBlank
  rcases known with rfl | rfl | rfl | rfl <;> decide

theorem Numeral.Spelled.startsAscii {numeral : Numeral} {bytes : List UInt8}
    (spelled : numeral.Spelled bytes) (later : List UInt8) : StartsAscii (bytes ++ later) := by
  cases spelled with
  | intro whole fraction exponent =>
      cases negative : numeral.negative with
      | true => intro byte isFirst; cases isFirst; decide
      | false =>
          rw [List.append_assoc, List.append_assoc]
          exact startsAscii_digits whole.1 _

/-- Every lexeme starts with an ASCII byte. -/
theorem Lexeme.Spelled.startsAscii {lexeme : Lexeme} {bytes : List UInt8}
    (spelled : lexeme.Spelled bytes) (later : List UInt8) : StartsAscii (bytes ++ later) := by
  cases spelled with
  | number spelled => exact spelled.startsAscii later
  | comma | colon | arrayStart | arrayEnd | objectStart | objectEnd | null | trueWord | falseWord
  | text => intro byte isFirst; cases isFirst; decide

theorem Layout.startsAscii {lexemes : List Lexeme} {bytes : List UInt8}
    (layout : Layout lexemes bytes) : StartsAscii bytes := by
  cases layout with
  | nil => exact fun _ => (nomatch ·)
  | lexeme first _ => exact first.startsAscii _
  | blank isBlank _ =>
      intro byte isFirst
      cases isFirst
      exact blank_ascii isBlank

/-- A property of lexemes that punctuation has, so that it is about the scalars
of a form and the names in it. -/
structure Lexeme.OfScalars (holds : Lexeme -> Prop) : Prop where
  comma : holds .comma
  colon : holds .colon
  arrayStart : holds .arrayStart
  arrayEnd : holds .arrayEnd
  objectStart : holds .objectStart
  objectEnd : holds .objectEnd

section Scalars

variable {holds : Lexeme -> Prop} (ofScalars : Lexeme.OfScalars holds)

include ofScalars

namespace Form

theorem each_laterItems {items : List Form} :
    (∀ lexeme ∈ laterItemLexemes items, holds lexeme) ↔
      ∀ item ∈ items, ∀ lexeme ∈ item.lexemes, holds lexeme := by
  induction items with
  | nil => exact ⟨fun _ _ => (nomatch ·), fun _ _ => (nomatch ·)⟩
  | cons item items inductionHypothesis =>
      rw [laterItemLexemes, List.forall_mem_cons, List.forall_mem_append, inductionHypothesis,
        List.forall_mem_cons]
      exact ⟨fun all => all.2, fun all => ⟨ofScalars.comma, all⟩⟩

/-- The scalars of an array are those of its items. -/
theorem each_array {items : List Form} :
    (∀ lexeme ∈ (Form.array items).lexemes, holds lexeme) ↔
      ∀ item ∈ items, ∀ lexeme ∈ item.lexemes, holds lexeme := by
  rw [lexemes, List.forall_mem_cons, List.forall_mem_append]
  have inner : (∀ lexeme ∈ itemLexemes items, holds lexeme) ↔
      ∀ item ∈ items, ∀ lexeme ∈ item.lexemes, holds lexeme := by
    cases items with
    | nil => exact ⟨fun _ _ => (nomatch ·), fun _ _ => (nomatch ·)⟩
    | cons item items =>
        rw [itemLexemes, List.forall_mem_append, each_laterItems ofScalars, List.forall_mem_cons]
  rw [inner]
  constructor
  · exact fun all => all.2.1
  · exact fun all => ⟨ofScalars.arrayStart, all, List.forall_mem_singleton.mpr ofScalars.arrayEnd⟩

theorem each_laterMembers {members : List (List Piece × Form)} :
    (∀ lexeme ∈ laterMemberLexemes members, holds lexeme) ↔
      ∀ member ∈ members, holds (.closedText member.1) ∧
        ∀ lexeme ∈ member.2.lexemes, holds lexeme := by
  induction members with
  | nil => exact ⟨fun _ _ => (nomatch ·), fun _ _ => (nomatch ·)⟩
  | cons member members inductionHypothesis =>
      rw [laterMemberLexemes, List.forall_mem_cons, List.forall_mem_cons, List.forall_mem_cons,
        List.forall_mem_append, inductionHypothesis, List.forall_mem_cons]
      constructor
      · intro given
        rcases given with ⟨_, name, _, form, rest⟩
        exact ⟨⟨name, form⟩, rest⟩
      · intro given
        rcases given with ⟨⟨name, form⟩, rest⟩
        exact ⟨ofScalars.comma, name, ofScalars.colon, form, rest⟩

/-- The scalars of an object are those of its members, and their names. -/
theorem each_object {members : List (List Piece × Form)} :
    (∀ lexeme ∈ (Form.object members).lexemes, holds lexeme) ↔
      ∀ member ∈ members, holds (.closedText member.1) ∧
        ∀ lexeme ∈ member.2.lexemes, holds lexeme := by
  rw [lexemes, List.forall_mem_cons, List.forall_mem_append]
  have inner : (∀ lexeme ∈ memberLexemes members, holds lexeme) ↔
      ∀ member ∈ members, holds (.closedText member.1) ∧
        ∀ lexeme ∈ member.2.lexemes, holds lexeme := by
    cases members with
    | nil => exact ⟨fun _ _ => (nomatch ·), fun _ _ => (nomatch ·)⟩
    | cons member members =>
        rw [memberLexemes, List.forall_mem_cons, List.forall_mem_cons, List.forall_mem_append,
          each_laterMembers ofScalars, List.forall_mem_cons]
        constructor
        · intro given
          rcases given with ⟨name, _, form, rest⟩
          exact ⟨⟨name, form⟩, rest⟩
        · intro given
          rcases given with ⟨⟨name, form⟩, rest⟩
          exact ⟨name, ofScalars.colon, form, rest⟩
  rw [inner]
  constructor
  · exact fun all => all.2.1
  · exact fun all => ⟨ofScalars.objectStart, all,
      List.forall_mem_singleton.mpr ofScalars.objectEnd⟩

end Form

end Scalars

/-- A lexeme can be spelled in a text. -/
def Lexeme.Writable (lexeme : Lexeme) : Prop :=
  Exists fun chars => lexeme.Spelled (encodedChars chars)

theorem Layout.writable {lexemes : List Lexeme} {bytes : List UInt8}
    (layout : Layout lexemes bytes) {chars : List Char} (isText : bytes = encodedChars chars) :
    ∀ lexeme ∈ lexemes, lexeme.Writable := by
  induction layout generalizing chars with
  | nil => exact fun _ => (nomatch ·)
  | @blank byte _ bytes _ rest inductionHypothesis =>
      have whole : [byte] ++ bytes = encodedChars chars := isText
      rcases encodedChars_cut whole rest.startsAscii with ⟨_, right, _, isRight⟩
      exact inductionHypothesis isRight
  | lexeme spelled rest inductionHypothesis =>
      rcases encodedChars_cut isText rest.startsAscii with ⟨left, right, isLeft, isRight⟩
      exact List.forall_mem_cons.mpr ⟨⟨left, isLeft ▸ spelled⟩, inductionHypothesis isRight⟩

theorem Layout.of_writable {lexemes : List Lexeme}
    (writable : ∀ lexeme ∈ lexemes, lexeme.Writable) :
    Exists fun chars => Layout lexemes (encodedChars chars) := by
  induction lexemes with
  | nil => exact ⟨[], .nil⟩
  | cons lexeme lexemes inductionHypothesis =>
      rcases List.forall_mem_cons.mp writable with ⟨⟨spelled, first⟩, rest⟩
      rcases inductionHypothesis rest with ⟨chars, layout⟩
      refine ⟨spelled ++ chars, ?_⟩
      rw [encodedChars_append]
      exact .lexeme first layout

namespace Form

/-- Every number and text of a form can be written. -/
def Writable (form : Form) : Prop := ∀ lexeme ∈ form.lexemes, lexeme.Writable

theorem writable_ofScalars : Lexeme.OfScalars Lexeme.Writable where
  comma := ⟨[','], .comma⟩
  colon := ⟨[':'], .colon⟩
  arrayStart := ⟨['['], .arrayStart⟩
  arrayEnd := ⟨[']'], .arrayEnd⟩
  objectStart := ⟨['\x7b'], .objectStart⟩
  objectEnd := ⟨['\x7d'], .objectEnd⟩

theorem writable_array {items : List Form} :
    (Form.array items).Writable ↔ ∀ item ∈ items, item.Writable :=
  each_array writable_ofScalars

/-- The name of a member can be written, and its value. -/
def MemberWritable (member : List Piece × Form) : Prop :=
  (Lexeme.closedText member.1).Writable ∧ member.2.Writable

theorem writable_object {members : List (List Piece × Form)} :
    (Form.object members).Writable ↔ ∀ member ∈ members, MemberWritable member :=
  each_object writable_ofScalars

mutual

theorem Writable.settled (form : Form) : form.Writable -> form.settled.Writable := by
  match form with
  | .null | .boolean _ | .number _ | .text _ => exact id
  | .array items =>
      intro writable
      rw [Form.settled, writable_array]
      exact writable_settledItems items (writable_array.mp writable)
  | .object members =>
      intro writable
      rw [Form.settled, writable_object]
      intro member listed
      have isMember := (keepLast_sublist _ _).subset listed
      exact writable_settledMembers members (writable_object.mp writable) member isMember

theorem writable_settledItems (items : List Form) :
    (∀ item ∈ items, item.Writable) -> ∀ item ∈ settledItems items, item.Writable := by
  match items with
  | [] => exact fun _ _ => (nomatch ·)
  | item :: items =>
      intro writable
      rcases List.forall_mem_cons.mp writable with ⟨first, rest⟩
      exact List.forall_mem_cons.mpr
        ⟨Writable.settled item first, writable_settledItems items rest⟩

theorem writable_settledMembers (members : List (List Piece × Form)) :
    (∀ member ∈ members, MemberWritable member) ->
      ∀ member ∈ settledMembers members, MemberWritable member := by
  match members with
  | [] => exact fun _ _ => (nomatch ·)
  | (pieces, form) :: members =>
      intro writable
      rcases List.forall_mem_cons.mp writable with ⟨⟨name, first⟩, rest⟩
      exact List.forall_mem_cons.mpr
        ⟨⟨name, Writable.settled form first⟩, writable_settledMembers members rest⟩

end

/-- What is written in a text can be written. -/
theorem Written.writable {form : Form} {text : String}
    (written : form.Written text.toUTF8.toList) : form.Writable :=
  Layout.writable written (toList_toUTF8 text)

/-- What is written in a text can be written settled in a text. -/
theorem Written.settled {form : Form} {text : String}
    (written : form.Written text.toUTF8.toList) :
    Exists fun other : String => form.settled.Written other.toUTF8.toList := by
  rcases Layout.of_writable (Writable.settled form written.writable) with ⟨chars, layout⟩
  refine ⟨String.ofList chars, ?_⟩
  rw [toList_toUTF8_ofList]
  exact layout

end Form
end Json
end RepoInspector
