import RepoInspector.Proofs.Json.Feeds
import RepoInspector.Proofs.Json.Settling
import RepoInspector.Record.Document

namespace RepoInspector
namespace Record

open Json

/-!
# What forms mean to codecs

A codec has two readers that share nothing, one of trees and one of decoded
values.  It is lawful when both come to the same: what a form means.  The laws
are kept by everything that codecs are built with, so what the two readers of
a record have in common never has to be argued for a whole record at once.
-/

/-- Every form is held by some node. -/
theorem exists_node (form : Form) : Exists fun node : Node => node.Holds form := by
  have spelled : (form.lexemes.map fun lexeme => Token.mk lexeme 0 0).map Token.lexeme =
      form.lexemes := by
    rw [List.map_map]
    exact List.map_id _
  rcases form.spanned spelled with ⟨node, holds, _⟩
  exact ⟨node, holds⟩

/-- A scalar form denotes the value that it tells and no other. -/
theorem scalar_denotes_iff {form : Form} {allowance : Nat} {value other : Value}
    (decoded : form.Tells value) (noArray : forall items, form ≠ .array items)
    (noObject : forall members, form ≠ .object members) :
    form.Denotes allowance other ↔ other = value := by
  constructor
  · intro denotes
    cases decoded with
    | null | boolean => cases denotes; rfl
    | number inRange =>
        cases denotes with
        | number again => cases inRange.symm.trans again; rfl
    | text denoted =>
        cases denotes with
        | text again => cases denoted.symm.trans again; rfl
    | array => exact absurd rfl (noArray _)
    | object => exact absurd rfl (noObject _)
  · rintro rfl
    cases decoded with
    | null => exact .null
    | boolean => exact .boolean
    | number inRange => exact .number inRange
    | text denoted => exact .text denoted
    | array => exact absurd rfl (noArray _)
    | object => exact absurd rfl (noObject _)

namespace Codec

variable {α β : Type}

/-- What a form means to a codec, as its reader of trees has it. -/
def Means (codec : Codec α) (form : Form) (a : α) : Prop :=
  Exists fun node : Node => node.Holds form ∧ codec.read nestingAllowance node = .ok a

/-- Both readers of a codec find what forms mean, where forms that mean
something open at most `depth` containers that the codec looks into. -/
structure Follows (codec : Codec α) (depth : Nat) (means : Form -> α -> Prop) : Prop where
  rejects : forall {node : Node} {allowance : Nat} {a : α}, node.Breaks ->
    codec.read allowance node ≠ .ok a
  reads : forall {node : Node} {form : Form} {allowance : Nat} {a : α}, node.Holds form ->
    depth ≤ allowance -> allowance ≤ nestingAllowance ->
      (codec.read allowance node = .ok a ↔ means form a)
  interprets : forall {route : Route} {form : Form} {value : Value} {a : α},
    form.Tells value -> form.Decodes nestingAllowance ->
      (codec.interpret route value = .ok a ↔ means form a)

/-- Both readers of a codec agree. -/
def Lawful (codec : Codec α) (depth : Nat) : Prop := codec.Follows depth codec.Means

namespace Follows

variable {codec : Codec α} {depth : Nat} {means : Form -> α -> Prop}

theorem means_iff (follows : codec.Follows depth means) (shallow : depth ≤ nestingAllowance)
    {form : Form} {a : α} : codec.Means form a ↔ means form a := by
  constructor
  · intro given
    rcases given with ⟨node, holds, accepted⟩
    exact (follows.reads holds shallow (Nat.le_refl _)).mp accepted
  · intro meant
    rcases exists_node form with ⟨node, holds⟩
    exact ⟨node, holds, (follows.reads holds shallow (Nat.le_refl _)).mpr meant⟩

theorem lawful (follows : codec.Follows depth means) (shallow : depth ≤ nestingAllowance) :
    codec.Lawful depth where
  rejects := follows.rejects
  reads holds deep within := by
    rw [follows.means_iff shallow]
    exact follows.reads holds deep within
  interprets decoded decodes := by
    rw [follows.means_iff shallow]
    exact follows.interprets decoded decodes

theorem congr (follows : codec.Follows depth means) {other : Form -> α -> Prop}
    (same : forall form a, means form a ↔ other form a) : codec.Follows depth other where
  rejects := follows.rejects
  reads holds deep within := (follows.reads holds deep within).trans (same _ _)
  interprets decoded decodes := (follows.interprets decoded decodes).trans (same _ _)

theorem deeper {more : Nat} (follows : codec.Follows depth means) (least : depth ≤ more) :
    codec.Follows more means where
  rejects := follows.rejects
  reads holds deep within := follows.reads holds (Nat.le_trans least deep) within
  interprets := follows.interprets

end Follows

/-!
## Scalars
-/

theorem located_eq_ok_iff {mark : Mark} {result : Except Mismatch α} {a : α} :
    located mark result = .ok a ↔ result = .ok a := by
  cases result with
  | ok found => rw [located, Except.ok.injEq, Except.ok.injEq]
  | error mismatch => exact ⟨nofun, nofun⟩

section Scalar

variable {expected : Expectation} {interpret : Value -> Except Mismatch α} {write : α -> Value}

theorem scalar_rejects {node : Node} {allowance : Nat} {a : α} (breaks : node.Breaks) :
    (scalar expected interpret write).read allowance node ≠ .ok a := by
  intro accepted
  cases breaks with
  | leaf never =>
      rcases bind_eq_ok_iff.mp accepted with ⟨value, isRead, _⟩
      rcases Token.holds_of_read isRead with ⟨form, holds⟩
      exact never form holds
  | arrayEnding | item | objectEnding | key | member => cases accepted

/-- An array in the place of a scalar denotes nothing that is interpreted. -/
theorem scalar_array (noArray : forall items a, interpret (.array items) ≠ .ok a)
    {items : List Form} {a : α} :
    ¬ Exists fun value =>
      (Form.array items).Denotes nestingAllowance value ∧ interpret value = .ok a := by
  intro given
  rcases given with ⟨value, denotes, interpreted⟩
  cases denotes with
  | array => exact noArray _ _ interpreted

theorem scalar_object (noObject : forall members a, interpret (.object members) ≠ .ok a)
    {members : List (List Piece × Form)} {a : α} :
    ¬ Exists fun value =>
      (Form.object members).Denotes nestingAllowance value ∧ interpret value = .ok a := by
  intro given
  rcases given with ⟨value, denotes, interpreted⟩
  cases denotes with
  | object => exact noObject _ _ interpreted

theorem scalar_reads (noArray : forall items a, interpret (.array items) ≠ .ok a)
    (noObject : forall members a, interpret (.object members) ≠ .ok a) {node : Node} {form : Form}
    {allowance : Nat} {a : α} (holds : node.Holds form) :
    (scalar expected interpret write).read allowance node = .ok a ↔
      Exists fun value => form.Denotes nestingAllowance value ∧ interpret value = .ok a := by
  cases holds with
  | leaf holds =>
      refine bind_eq_ok_iff.trans (exists_congr fun value => ?_)
      rw [Token.read_iff holds nestingAllowance, located_eq_ok_iff]
  | array inner => exact ⟨nofun, fun given => absurd given (scalar_array noArray)⟩
  | object inner => exact ⟨nofun, fun given => absurd given (scalar_object noObject)⟩

theorem scalar_interprets (noArray : forall items a, interpret (.array items) ≠ .ok a)
    (noObject : forall members a, interpret (.object members) ≠ .ok a) {form : Form}
    {value : Value} {a : α} (decoded : form.Tells value) :
    interpret value = .ok a ↔
      Exists fun value => form.Denotes nestingAllowance value ∧ interpret value = .ok a := by
  cases form with
  | array items =>
      cases decoded with
      | array inner =>
          exact ⟨fun interpreted => absurd interpreted (noArray _ _),
            fun given => absurd given (scalar_array noArray)⟩
  | object members =>
      cases decoded with
      | object keyed each =>
          exact ⟨fun interpreted => absurd interpreted (noObject _ _),
            fun given => absurd given (scalar_object noObject)⟩
  | null | boolean | number | text =>
      have only : forall other, Form.Denotes nestingAllowance _ other ↔ other = value :=
        fun other => scalar_denotes_iff decoded (fun _ => nofun) (fun _ => nofun)
      constructor
      · exact fun interpreted => ⟨value, (only value).mpr rfl, interpreted⟩
      · intro given
        rcases given with ⟨other, denotes, interpreted⟩
        cases (only other).mp denotes
        exact interpreted

/-- A codec for scalars reads what a form denotes and interprets it. -/
theorem scalar_follows (noArray : forall items a, interpret (.array items) ≠ .ok a)
    (noObject : forall members a, interpret (.object members) ≠ .ok a) :
    (scalar expected interpret write).Follows 0
      (fun form a => Exists fun value => form.Denotes nestingAllowance value ∧
        interpret value = .ok a) where
  rejects := scalar_rejects
  reads holds _ _ := scalar_reads noArray noObject holds
  interprets decoded _ := scalar_interprets noArray noObject decoded

end Scalar

/-- A text means what its pieces denote. -/
theorem text_follows : text.Follows 0 fun form s =>
    Exists fun pieces => form = .text pieces ∧ Piece.denoted? pieces = some s := by
  have follows : text.Follows 0 _ :=
    scalar_follows (fun _ _ => (nomatch ·)) (fun _ _ => (nomatch ·))
  apply follows.congr
  intro form s
  constructor
  · intro given
    rcases given with ⟨value, denotes, interpreted⟩
    cases denotes with
    | text denoted => cases interpreted; exact ⟨_, rfl, denoted⟩
    | null | boolean | array | object => cases interpreted
    | number => cases interpreted
  · intro given
    rcases given with ⟨pieces, rfl, denoted⟩
    exact ⟨.text s, .text denoted, rfl⟩

theorem boolean_follows : boolean.Follows 0 fun form b => form = .boolean b := by
  have follows : boolean.Follows 0 _ :=
    scalar_follows (fun _ _ => (nomatch ·)) (fun _ _ => (nomatch ·))
  apply follows.congr
  intro form b
  constructor
  · intro given
    rcases given with ⟨value, denotes, interpreted⟩
    cases denotes with
    | boolean => cases interpreted; rfl
    | null | number | text | array | object => cases interpreted
  · rintro rfl
    exact ⟨.boolean b, .boolean, rfl⟩

theorem unsigned_follows : unsigned.Follows 0 fun form n =>
    Exists fun numeral => form = .number numeral ∧ numeral.number = .ok (.natural n) := by
  have follows : unsigned.Follows 0 _ :=
    scalar_follows (fun _ _ => (nomatch ·)) (fun _ _ => (nomatch ·))
  apply follows.congr
  intro form n
  constructor
  · intro given
    rcases given with ⟨value, denotes, interpreted⟩
    cases denotes with
    | @number _ numeral number inRange =>
        cases number with
        | natural => cases interpreted; exact ⟨numeral, rfl, inRange⟩
        | negative | float => cases interpreted
    | null | boolean | text | array | object => cases interpreted
  · intro given
    rcases given with ⟨numeral, rfl, inRange⟩
    exact ⟨.number (.natural n), .number inRange, rfl⟩

theorem instant_follows : instant.Follows 0 fun form moment =>
    Exists fun pieces => Exists fun s => form = .text pieces ∧
      Piece.denoted? pieces = some s ∧ Time.Instant.ofText s = .ok moment := by
  have follows : instant.Follows 0 _ :=
    scalar_follows (fun _ _ => (nomatch ·)) (fun _ _ => (nomatch ·))
  apply follows.congr
  intro form moment
  constructor
  · intro given
    rcases given with ⟨value, denotes, interpreted⟩
    cases denotes with
    | @text _ pieces s denoted =>
        refine ⟨pieces, s, rfl, denoted, ?_⟩
        simp only at interpreted
        split at interpreted
        case h_1 found isRead => cases interpreted; exact isRead
        case h_2 => cases interpreted
    | null | boolean | number | array | object => cases interpreted
  · intro given
    rcases given with ⟨pieces, s, rfl, denoted, isRead⟩
    refine ⟨.text s, .text denoted, ?_⟩
    simp only [isRead]

/-!
## Combinators
-/

theorem through_follows {codec : Codec α} {depth : Nat} {means : Form -> α -> Prop}
    (follows : codec.Follows depth means) (forth : α -> β) (back : β -> α) :
    (codec.through forth back).Follows depth
      (fun form b => Exists fun a => means form a ∧ forth a = b) where
  rejects breaks accepted := by
    rcases map_eq_ok_iff.mp accepted with ⟨a, isRead, _⟩
    exact follows.rejects breaks isRead
  reads holds deep within := by
    refine map_eq_ok_iff.trans (exists_congr fun a => ?_)
    rw [follows.reads holds deep within]
  interprets decoded decodes := by
    refine map_eq_ok_iff.trans (exists_congr fun a => ?_)
    rw [follows.interprets decoded decodes]

/-- Null means that there is no data, and every other form what it means as data. -/
def OptionalMeans (means : Form -> α -> Prop) (form : Form) (data : Option α) : Prop :=
  (form = .null ∧ data = none) ∨ (form ≠ .null ∧ Exists fun a => means form a ∧ some a = data)

theorem optionalMeans_null {means : Form -> α -> Prop} {data : Option α} :
    OptionalMeans means .null data ↔ data = none := by
  simp only [OptionalMeans, true_and, ne_eq, not_true, false_and, or_false]

theorem optionalMeans_other {means : Form -> α -> Prop} {form : Form} (other : form ≠ .null)
    {data : Option α} :
    OptionalMeans means form data ↔ Exists fun a => means form a ∧ some a = data := by
  simp only [OptionalMeans, other, false_and, ne_eq, not_false_eq_true, true_and, false_or]

theorem optional_read_null {codec : Codec α} {allowance start stop : Nat} :
    codec.optional.read allowance (.leaf ⟨.null, start, stop⟩) = .ok none := rfl

theorem optional_read_other {codec : Codec α} {allowance : Nat} {node : Node}
    (other : forall start stop, node ≠ .leaf ⟨.null, start, stop⟩) :
    codec.optional.read allowance node = (codec.read allowance node).map some := by
  simp only [optional]

theorem optional_interpret_other {codec : Codec α} {route : Route} {value : Value}
    (other : value ≠ .null) :
    codec.optional.interpret route value = (codec.interpret route value).map some := by
  cases value with
  | null => exact absurd rfl other
  | boolean | number | text | array | object => rfl

theorem optional_follows {codec : Codec α} {depth : Nat} {means : Form -> α -> Prop}
    (follows : codec.Follows depth means) :
    codec.optional.Follows depth (OptionalMeans means) where
  rejects := by
    intro node allowance data breaks accepted
    have other : forall start stop, node ≠ .leaf ⟨.null, start, stop⟩ := by
      rintro start stop rfl
      cases breaks with
      | leaf never => exact never .null rfl
    rw [optional_read_other other] at accepted
    rcases map_eq_ok_iff.mp accepted with ⟨a, isRead, _⟩
    exact follows.rejects breaks isRead
  reads := by
    intro node form allowance data holds deep within
    by_cases isNull : form = .null
    · subst isNull
      rw [optionalMeans_null]
      cases holds with
      | @leaf token _ scalar =>
          rcases token with ⟨lexeme, start, stop⟩
          cases (show lexeme = .null from scalar)
          rw [optional_read_null, Except.ok.injEq]
          exact eq_comm
    · have other : forall start stop, node ≠ .leaf ⟨.null, start, stop⟩ := by
        rintro start stop rfl
        cases holds with
        | leaf scalar =>
            have alsoNull : Token.Holds ⟨.null, start, stop⟩ .null := rfl
            exact isNull (Token.holds_unique scalar alsoNull)
      rw [optional_read_other other, optionalMeans_other isNull]
      refine map_eq_ok_iff.trans (exists_congr fun a => ?_)
      rw [follows.reads holds deep within]
  interprets := by
    intro route form value data decoded decodes
    by_cases isNull : form = .null
    · subst isNull
      rw [optionalMeans_null]
      cases decoded with
      | null =>
          constructor
          · intro done; cases done; rfl
          · rintro rfl; rfl
    · have other : value ≠ .null := by
        rintro rfl
        cases decoded with
        | null => exact isNull rfl
      rw [optional_interpret_other other, optionalMeans_other isNull]
      refine map_eq_ok_iff.trans (exists_congr fun a => ?_)
      rw [follows.interprets decoded decodes]

end Codec

/-!
## Documents
-/

theorem reported_eq_ok_iff {α : Type} {medium : Medium} {supply : Supply}
    {result : Except Fault α} {a : α} : reported medium supply result = .ok a ↔ result = .ok a := by
  cases result with
  | ok found => rw [reported, Except.ok.injEq, Except.ok.injEq]
  | error fault => exact ⟨nofun, nofun⟩

theorem interpretDocument_iff {α : Type} {interpret : Value -> Except Mismatch α}
    {supply : Supply} {a : α} :
    interpretDocument interpret supply = .ok a ↔
      supply.failure = none ∧ Exists fun form : Form => form.Written supply.bytes ∧
        Exists fun value => form.Denotes nestingAllowance value ∧
          interpret value.settled = .ok a := by
  rw [interpretDocument, bind_eq_ok_iff]
  constructor
  · intro given
    rcases given with ⟨value, buffered, done⟩
    rcases Supply.buffer_iff.mp buffered with ⟨complete, form, written, denotes⟩
    refine ⟨complete, form, written, value, denotes, ?_⟩
    split at done
    case h_1 found interpreted => cases done; exact interpreted
    case h_2 => cases done
  · intro given
    rcases given with ⟨complete, form, written, value, denotes, interpreted⟩
    refine ⟨value, Supply.buffer_iff.mpr ⟨complete, form, written, denotes⟩, ?_⟩
    rw [interpreted]

/-- A document that is decoded and settled means what its settled form means, if
values are interpreted as the forms that they come from. -/
theorem settledDocument_iff {α : Type} {interpret : Value -> Except Mismatch α}
    {means : Form -> α -> Prop}
    (interprets : forall {form : Form} {value : Value} {a : α}, form.Tells value ->
      form.Decodes nestingAllowance -> (interpret value = .ok a ↔ means form a))
    {supply : Supply} {a : α} :
    interpretDocument interpret supply = .ok a ↔
      supply.failure = none ∧ Exists fun form : Form => form.Written supply.bytes ∧
        form.Decodes nestingAllowance ∧ means form.settled a := by
  rw [interpretDocument_iff]
  apply and_congr_right
  intro _
  apply exists_congr
  intro form
  apply and_congr_right
  intro _
  constructor
  · intro given
    rcases given with ⟨value, denotes, interpreted⟩
    have ⟨decodes, tells⟩ := denotes.settled
    exact ⟨⟨value, denotes⟩, (interprets tells decodes).mp interpreted⟩
  · intro given
    rcases given with ⟨⟨value, denotes⟩, meant⟩
    have ⟨decodes, tells⟩ := denotes.settled
    exact ⟨value, denotes, (interprets tells decodes).mpr meant⟩

namespace Codec

variable {α : Type} {codec : Codec α} {depth : Nat} {means : Form -> α -> Prop}

/-- What is read byte by byte is what is read with all bytes in hand. -/
theorem ofFeed_eq (codec : Codec α) (supply : Supply) :
    codec.ofFeed (.ofSupply supply) = codec.ofDocument supply := by
  rw [ofFeed, Feed.ofSupply_tree, ofDocument]

theorem decode_stream (codec : Codec α) (supply : Supply) :
    codec.decode .stream supply = reported .stream supply (codec.ofDocument supply) := by
  rw [decode, ofFeed_eq]
  rfl

/-- A document that is read directly means what its form means. -/
theorem Follows.ofDocument_iff (follows : codec.Follows depth means)
    (shallow : depth ≤ nestingAllowance) {supply : Supply} {a : α} :
    codec.ofDocument supply = .ok a ↔
      supply.failure = none ∧ Exists fun form : Form =>
        form.Written supply.bytes ∧ means form a :=
  supply.read_tree_iff follows.rejects
    (fun holds => follows.reads holds shallow (Nat.le_refl _))

/-- Texts are read as what their forms mean, and through their values as what
their settled forms mean. -/
structure ReadsForms {α : Type} (decode : Way -> Supply -> Except DocumentFault α)
    (means : Form -> α -> Prop) : Prop where
  text : forall {text : String} {a : α}, decode .text (supplyOfText text) = .ok a ↔
    Exists fun form : Form => form.Written text.toUTF8.toList ∧ means form a
  stream : forall {text : String} {a : α}, decode .stream (supplyOfText text) = .ok a ↔
    Exists fun form : Form => form.Written text.toUTF8.toList ∧ means form a
  settled : forall {text : String} {a : α}, decode .settled (supplyOfText text) = .ok a ↔
    Exists fun form : Form => form.Written text.toUTF8.toList ∧
      form.Decodes nestingAllowance ∧ means form.settled a

theorem Follows.readsForms (follows : codec.Follows depth means)
    (shallow : depth ≤ nestingAllowance) : ReadsForms codec.decode means where
  text := reported_eq_ok_iff.trans ((follows.ofDocument_iff shallow).trans (and_iff_right rfl))
  stream := by
    intro text a
    rw [decode_stream, reported_eq_ok_iff]
    exact (follows.ofDocument_iff shallow).trans (and_iff_right rfl)
  settled := reported_eq_ok_iff.trans
    ((settledDocument_iff follows.interprets).trans (and_iff_right rfl))

/-- A document without repeated names is read the same along every way. -/
theorem ReadsForms.of_distinct {decode : Way -> Supply -> Except DocumentFault α}
    (reads : ReadsForms decode means) {text : String} {form : Form}
    (written : form.Written text.toUTF8.toList) (decodes : form.Decodes nestingAllowance)
    (distinct : form.Distinct) {a : α} (meant : means form a) (way : Way) :
    decode way (supplyOfText text) = .ok a := by
  cases way with
  | text => exact reads.text.mpr ⟨form, written, meant⟩
  | stream => exact reads.stream.mpr ⟨form, written, meant⟩
  | settled =>
      have settledMeant : means form.settled a := by
        rw [Form.settled_of_distinct form distinct]
        exact meant
      exact reads.settled.mpr ⟨form, written, decodes, settledMeant⟩

end Codec
end Record
end RepoInspector
