import RepoInspector.Proofs.Json.CutReading
import RepoInspector.Proofs.Record.Laws
import RepoInspector.Proofs.Record.Overlong

namespace RepoInspector
namespace Record

open Json

/-!
# Numbers that no field asks for

Of the data that is accepted the fields know every scalar, but for those in
the values of members that no field asks for.  So a number that no field can
take stands in such a value, and its shape says where those can be.
-/

/-- A scalar stands in the value of a member that no field asks for. -/
inductive Unasked (token : Token) : Shape -> Node -> Prop
  | here {fieldNames : List String} {inner : String -> Shape} {start : Token}
      {members : List (Key × Node)} {ending : ObjectEnd} {name : String} {member : Key × Node}
      (listed : (name, member) ∈ namedMembers members) (unknown : name ∉ fieldNames)
      (within : member.2.HasLeaf token) :
      Unasked token (.record fieldNames inner) (.object start members ending)
  | member {fieldNames : List String} {inner : String -> Shape} {start : Token}
      {members : List (Key × Node)} {ending : ObjectEnd} {name : String} {member : Key × Node}
      (known : name ∈ fieldNames) (listed : (name, member) ∈ namedMembers members)
      (within : Unasked token (inner name) member.2) :
      Unasked token (.record fieldNames inner) (.object start members ending)
  | item {fieldNames : List String} {inner : String -> Shape} {start : Token} {items : List Node}
      {ending : ArrayEnd} {name : String} {item : Node}
      (placed : (name, item) ∈ fieldNames.zip items) (within : Unasked token (inner name) item) :
      Unasked token (.record fieldNames inner) (.array start items ending)

/-- Of what means something to a codec, numbers that are no whole numbers of 64
bits are not asked for. -/
def Codec.Asks {α : Type} (codec : Codec α) (shape : Shape) : Prop :=
  forall ⦃node : Node⦄ ⦃form : Form⦄ ⦃a : α⦄ ⦃token : Token⦄, node.Holds form ->
    codec.Means form a -> node.HasLeaf token -> token.Unnatural -> Unasked token shape node

/-!
## Scalars
-/

/-- No number, or a whole number of 64 bits. -/
def Plain : Form -> Prop
  | .null | .boolean _ | .text _ => True
  | .number numeral => numeral.Natural
  | .array _ | .object _ => False

theorem Plain.not_unnatural {form : Form} (plain : Plain form) {node : Node}
    (holds : node.Holds form) {token : Token} (stands : node.HasLeaf token) :
    ¬ token.Unnatural := by
  intro unnatural
  rcases unnatural with ⟨numeral, isNumber, notNatural⟩
  cases holds with
  | leaf scalar =>
      cases stands
      have same : token.Holds (.number numeral) := isNumber
      cases Token.holds_unique scalar same
      exact notNatural plain
  | array | object => exact plain

namespace Codec

variable {α β : Type}

/-- A codec that takes plain forms only. -/
theorem asks_of_plain {codec : Codec α}
    (plain : forall {form : Form} {a : α}, codec.Means form a -> Plain form) (shape : Shape) :
    codec.Asks shape :=
  fun _ _ _ _ holds meant stands unnatural =>
    absurd unnatural ((plain meant).not_unnatural holds stands)

theorem text_asks : text.Asks .scalar := by
  apply asks_of_plain
  intro form s meant
  rcases (text_follows.means_iff (Nat.zero_le _)).mp meant with ⟨pieces, rfl, _⟩
  trivial

theorem boolean_asks : boolean.Asks .scalar := by
  apply asks_of_plain
  intro form b meant
  rw [(boolean_follows.means_iff (Nat.zero_le _)).mp meant]
  trivial

theorem unsigned_asks : unsigned.Asks .scalar := by
  apply asks_of_plain
  intro form n meant
  rcases (unsigned_follows.means_iff (Nat.zero_le _)).mp meant with ⟨numeral, rfl, inRange⟩
  exact ⟨n, inRange⟩

theorem instant_asks : instant.Asks .scalar := by
  apply asks_of_plain
  intro form moment meant
  rcases (instant_follows.means_iff (Nat.zero_le _)).mp meant with ⟨pieces, s, rfl, _⟩
  trivial

theorem Asks.through {codec : Codec α} {shape : Shape} (asks : codec.Asks shape)
    (forth : α -> β) (back : β -> α) : (codec.through forth back).Asks shape := by
  intro node form b token holds meant
  rcases meant with ⟨other, otherHolds, accepted⟩
  rcases map_eq_ok_iff.mp accepted with ⟨a, isRead, _⟩
  exact asks holds ⟨other, otherHolds, isRead⟩

theorem Asks.optional {codec : Codec α} {shape : Shape} (asks : codec.Asks shape) :
    codec.optional.Asks shape := by
  intro node form data token holds meant stands unnatural
  rcases meant with ⟨other, otherHolds, accepted⟩
  simp only [Codec.optional] at accepted
  split at accepted
  case h_1 start stop =>
    cases otherHolds with
    | leaf scalar =>
        have isNull : Token.Holds ⟨.null, start, stop⟩ .null := rfl
        cases Token.holds_unique scalar isNull
        have plain : Plain .null := trivial
        exact absurd unnatural (plain.not_unnatural holds stands)
  case h_2 =>
    rcases map_eq_ok_iff.mp accepted with ⟨a, isRead, _⟩
    exact asks holds ⟨other, otherHolds, isRead⟩ stands unnatural

end Codec

/-!
## Records
-/

/-- The codecs of fields ask for every number but those that are unasked inside. -/
def AskingFields (fields : List Field) (inner : String -> Shape) : Prop :=
  ∀ field ∈ fields, field.codec.Asks (inner field.name)

section Fields

variable {fields : List Field} {inner : String -> Shape}

/-- In the values of what entries tell the fields, numbers are asked for. -/
theorem AskingFields.asks (asking : AskingFields fields inner) {entries : List (String × Form)}
    {row : Row fields} (told : Row.Told Field.Means entries row) {name : String} {form : Form}
    (listed : (name, form) ∈ entries) (known : name ∈ names fields) {node : Node}
    (holds : node.Holds form) {token : Token} (stands : node.HasLeaf token)
    (unnatural : token.Unnatural) : Unasked token (inner name) node := by
  rcases told.tells listed known with ⟨field, isField, rfl, stored, meant⟩
  exact asking field isField holds meant stands unnatural

/-- Each member of an object has its name and its entry. -/
theorem entry_of_mem {members : List (Key × Node)} {forms : List (List Piece × Form)}
    (holds : Node.HoldMembers members forms) {entries : List (String × Form)}
    (keyed : Form.Keyed forms entries) {key : Key} {node : Node}
    (listed : (key, node) ∈ members) : Exists fun name => Exists fun form =>
      (name, (key, node)) ∈ namedMembers members ∧ (name, form) ∈ entries ∧ node.Holds form := by
  induction keyed generalizing members with
  | nil =>
      cases holds
      cases listed
  | @cons pieces name form forms entries denoted rest inductionHypothesis =>
      cases holds with
      | cons named held holdRest =>
      rw [namedMembers_cons ((Key.read_iff named name).mpr denoted)]
      rcases List.mem_cons.mp listed with same | later
      · cases same
        exact ⟨name, form, List.mem_cons_self, List.mem_cons_self, held⟩
      · rcases inductionHypothesis holdRest later with ⟨other, found, isNamed, isEntry, otherHeld⟩
        exact ⟨other, found, List.mem_cons_of_mem _ isNamed, List.mem_cons_of_mem _ isEntry,
          otherHeld⟩

/-- Each item of an array that fits the fields has the name of one of them. -/
theorem place_of_mem {items : List Node} {forms : List Form} (holds : Node.HoldAll items forms)
    {fieldNames : List String} (fits : forms.length ≤ fieldNames.length) {item : Node}
    (listed : item ∈ items) : Exists fun name => Exists fun form =>
      (name, item) ∈ fieldNames.zip items ∧ (name, form) ∈ fieldNames.zip forms ∧
        item.Holds form := by
  induction fieldNames generalizing items forms with
  | nil =>
      cases holds with
      | nil => cases listed
      | cons => exact absurd fits (Nat.not_succ_le_zero _)
  | cons fieldName fieldNames inductionHypothesis =>
      cases holds with
      | nil => cases listed
      | @cons first items form forms held holdRest =>
      rcases List.mem_cons.mp listed with rfl | later
      · exact ⟨fieldName, form, List.mem_cons_self, List.mem_cons_self, held⟩
      · rcases inductionHypothesis holdRest (Nat.le_of_succ_le_succ fits) later with
          ⟨name, other, placed, isEntry, otherHeld⟩
        exact ⟨name, other, List.mem_cons_of_mem _ placed, List.mem_cons_of_mem _ isEntry,
          otherHeld⟩

/-- A scalar of an object is unasked for if it is so within each member that has
the name of a field. -/
theorem Unasked.of_members {fieldNames : List String} {token start : Token}
    {members : List (Key × Node)} {ending : ObjectEnd} {forms : List (List Piece × Form)}
    {entries : List (String × Form)} (holds : Node.HoldMembers members forms)
    (keyed : Form.Keyed forms entries) (stands : (Node.object start members ending).HasLeaf token)
    (each : forall {name : String} {form : Form} {node : Node}, (name, form) ∈ entries ->
      name ∈ fieldNames -> node.Holds form -> node.HasLeaf token ->
        Unasked token (inner name) node) :
    Unasked token (.record fieldNames inner) (.object start members ending) := by
  cases stands with
  | @member _ _ _ key node listed within =>
  rcases entry_of_mem holds keyed listed with ⟨name, form, isNamed, isEntry, held⟩
  by_cases known : name ∈ fieldNames
  · exact .member known isNamed (each isEntry known held within)
  · exact .here isNamed known within

theorem Codec.record_asks {depth : Nat} (name : String) (lawful : LawfulFields fields depth)
    (shallow : depth + 1 ≤ nestingAllowance) (distinct : (names fields).Nodup)
    (asking : AskingFields fields inner) :
    (Codec.record name fields).Asks (.record (names fields) inner) := by
  intro node form row token holds meant stands unnatural
  rcases ((record_follows lawful distinct).means_iff shallow).mp meant with ⟨entries, lists, told⟩
  cases holds with
  | leaf scalar => cases lists <;> exact scalar.elim
  | object holdMembers =>
      cases lists with
      | object keyed =>
          exact .of_members holdMembers keyed stands fun listed known held within =>
            asking.asks told listed known held within unnatural
  | @array start close items forms holdItems =>
      cases lists with
      | array fits =>
          cases stands with
          | item listed within =>
          rcases place_of_mem holdItems fits listed with ⟨name, form, placed, isEntry, held⟩
          have known := (List.of_mem_zip placed).1
          exact .item placed (asking.asks told isEntry known held within unnatural)

/-- A codec of any shape asks for every number but those that are unasked. -/
theorem Codec.Shaped.asks {α : Type} {codec : Codec α} {shape : Shape}
    (shaped : codec.Shaped shape) : codec.Asks shape := by
  induction shaped with
  | text => exact text_asks
  | boolean => exact boolean_asks
  | unsigned => exact unsigned_asks
  | instant => exact instant_asks
  | optional _ asks => exact asks.optional
  | through _ forth back asks => exact asks.through forth back
  | record name lawful shallow distinct _ asking =>
      exact record_asks name lawful shallow distinct asking

theorem ShapedFields.asking (shaped : ShapedFields fields inner) : AskingFields fields inner :=
  fun field listed => (shaped field listed).asks

end Fields

end Record
end RepoInspector
