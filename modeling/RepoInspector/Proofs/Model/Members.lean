import RepoInspector.Proofs.Record.Laws

namespace RepoInspector
namespace Model

open Json
open Record

/-!
# What members mean

The grammar of the models.  A member is required, or stands for a default when
it is missing, or may be missing or null, and its item has to be a
text, a truth value, a whole number, a moment or another record.  Fields of
codecs tell exactly this, so a record can be described by a table of its
members without a word about how it is read.
-/

/-- A text without lone surrogates and stray bytes. -/
def IsText (form : Form) (s : String) : Prop :=
  Exists fun pieces => form = .text pieces ∧ Piece.denoted? pieces = some s

def IsBoolean (form : Form) (b : Bool) : Prop := form = .boolean b

/-- Digits without a sign, a fraction and an exponent, for a number of 64 bits. -/
def IsNatural (form : Form) (n : UInt64) : Prop :=
  Exists fun numeral : Numeral => form = .number numeral ∧ numeral.negative = false ∧
    numeral.fraction = none ∧ numeral.exponent = none ∧ Digit.value numeral.whole = n.toNat

/-- The text of a timestamp. -/
def IsInstant (form : Form) (moment : Time.Instant) : Prop :=
  Exists fun s => IsText form s ∧ Time.Instant.ofText s = .ok moment

section Members

variable {α : Type}

/-- Exactly one member has the name, and its item means the data. -/
def Required (name : String) (means : Form -> α -> Prop) (entries : List (String × Form))
    (a : α) : Prop :=
  Exists fun form => named name entries = [form] ∧ means form a

/-- No member has the name and the data is the default, or one member means it. -/
def Defaulted (name : String) (default : α) (means : Form -> α -> Prop)
    (entries : List (String × Form)) (a : α) : Prop :=
  (named name entries = [] ∧ a = default) ∨ Required name means entries a

/-- There is no data when no member has the name or one that is null, and
otherwise one member means it. -/
def Optional (name : String) (means : Form -> α -> Prop) (entries : List (String × Form))
    (data : Option α) : Prop :=
  (named name entries = [] ∧ data = none) ∨ (named name entries = [.null] ∧ data = none) ∨
    Exists fun form => form ≠ .null ∧ named name entries = [form] ∧
      Exists fun a => means form a ∧ some a = data

variable {codec : Codec α} {depth : Nat} {means : Form -> α -> Prop} {name : String}
  {entries : List (String × Form)}

theorem stores_iff {σ : Type} {absent : Option σ} {tells : Form -> σ -> Prop}
    {items : List Form} {stored : σ} :
    Stores absent tells items stored ↔
      (items = [] ∧ absent = some stored) ∨
        Exists fun form => items = [form] ∧ tells form stored := by
  match items with
  | [] =>
      constructor
      · exact fun missing => .inl ⟨rfl, missing⟩
      · rintro (⟨_, missing⟩ | ⟨form, same, _⟩)
        · exact missing
        · cases same
  | [form] =>
      constructor
      · exact fun told => .inr ⟨form, rfl, told⟩
      · rintro (⟨same, _⟩ | ⟨other, same, told⟩)
        · cases same
        · cases same; exact told
  | _ :: _ :: _ =>
      refine ⟨False.elim, ?_⟩
      rintro (⟨same, _⟩ | ⟨other, same, _⟩) <;> cases same

theorem stores_required (follows : codec.Follows depth means) (shallow : depth ≤ nestingAllowance)
    {a : α} :
    Stores none codec.Means (named name entries) a ↔ Required name means entries a := by
  rw [stores_iff, Required]
  constructor
  · rintro (⟨_, missing⟩ | ⟨form, alone, told⟩)
    · cases missing
    · exact ⟨form, alone, (follows.means_iff shallow).mp told⟩
  · intro given
    rcases given with ⟨form, alone, said⟩
    exact .inr ⟨form, alone, (follows.means_iff shallow).mpr said⟩

theorem stores_defaulted (follows : codec.Follows depth means) (shallow : depth ≤ nestingAllowance)
    {default a : α} :
    Stores (some default) codec.Means (named name entries) a ↔
      Defaulted name default means entries a := by
  rw [stores_iff, Defaulted, Required]
  refine or_congr (and_congr_right fun _ => ?_)
    (exists_congr fun form => and_congr_right fun _ => follows.means_iff shallow)
  exact (Option.some.injEq default a).to_iff.trans eq_comm

theorem stores_optional (follows : codec.Follows depth means) (shallow : depth ≤ nestingAllowance)
    {data : Option α} :
    Stores (some none) codec.optional.Means (named name entries) data ↔
      Optional name means entries data := by
  have means_iff : forall form, codec.optional.Means form data ↔
      Codec.OptionalMeans means form data :=
    fun _ => (Codec.optional_follows follows).means_iff shallow
  rw [stores_iff, Optional]
  refine or_congr (and_congr_right fun _ => ?_) ?_
  · exact (Option.some.injEq none data).to_iff.trans eq_comm
  · constructor
    · intro given
      rcases given with ⟨form, alone, told⟩
      rcases (means_iff form).mp told with ⟨rfl, isNone⟩ | ⟨notNull, said⟩
      · exact .inl ⟨alone, isNone⟩
      · exact .inr ⟨form, notNull, alone, said⟩
    · rintro (⟨alone, isNone⟩ | ⟨form, notNull, alone, said⟩)
      · exact ⟨.null, alone, (means_iff .null).mpr (.inl ⟨rfl, isNone⟩)⟩
      · exact ⟨form, alone, (means_iff form).mpr (.inr ⟨notNull, said⟩)⟩

end Members

/-!
## Scalars
-/

section Scalars

variable {depth : Nat}

theorem text_follows : Codec.text.Follows depth IsText :=
  Codec.text_follows.deeper (Nat.zero_le depth)

theorem boolean_follows : Codec.boolean.Follows depth IsBoolean :=
  Codec.boolean_follows.deeper (Nat.zero_le depth)

theorem unsigned_follows : Codec.unsigned.Follows depth IsNatural :=
  (Codec.unsigned_follows.deeper (Nat.zero_le depth)).congr fun _ _ => exists_congr fun _ =>
    and_congr_right fun _ => Numeral.number_eq_natural_iff

theorem instant_follows : Codec.instant.Follows depth IsInstant :=
  (Codec.instant_follows.deeper (Nat.zero_le depth)).congr fun form moment => by
    constructor
    · intro given
      rcases given with ⟨pieces, s, isText, denoted, isRead⟩
      exact ⟨s, ⟨pieces, isText, denoted⟩, isRead⟩
    · intro given
      rcases given with ⟨s, ⟨pieces, isText, denoted⟩, isRead⟩
      exact ⟨pieces, s, isText, denoted, isRead⟩

end Scalars

end Model
end RepoInspector
