import RepoInspector.Proofs.Model.Arrays
import RepoInspector.Proofs.Model.Paths

namespace RepoInspector

namespace Json

/-!
# Whole numbers

The fields that are numbers and not texts hold whole numbers of 64 bits.  A
numeral is read into one of them if it is nothing but digits and its value
fits, and the data is that value.  Every other numeral spoils the document, be
it ever so close to a number: none is rounded, cut off or wrapped around.
-/

/-- Digits are taken for as long as the number that they denote fits a word, and
all of them are when the whole number does. -/
theorem extendSignificand_eq_iff {digits : List Digit} {n significand : Nat}
    (small : significand < wordLimit) :
    extendSignificand significand digits = (n, []) ↔
      digits.foldl (fun value digit => 10 * value + digit.val) significand = n ∧
        n < wordLimit := by
  have grows : forall (digits : List Digit) (value : Nat),
      value ≤ digits.foldl (fun value digit => 10 * value + digit.val) value := by
    intro digits
    induction digits with
    | nil => exact fun value => Nat.le_refl value
    | cons digit digits inductionHypothesis =>
        intro value
        have first : value ≤ 10 * value + digit.val := by omega
        exact Nat.le_trans first (inductionHypothesis _)
  induction digits generalizing significand with
  | nil =>
      rw [extendSignificand, List.foldl_nil, Prod.mk.injEq]
      exact ⟨fun given => ⟨given.1, given.1 ▸ small⟩, fun given => ⟨given.1, rfl⟩⟩
  | cons digit digits inductionHypothesis =>
      rw [extendSignificand, List.foldl_cons]
      by_cases fits : 10 * significand + digit.val < wordLimit
      · rw [if_pos fits]
        exact inductionHypothesis fits
      · rw [if_neg fits]
        refine iff_of_false (fun taken => ?_) (fun given => fits ?_)
        · cases taken
        · exact Nat.lt_of_le_of_lt (grows digits _) (given.1 ▸ given.2)

namespace Numeral

/-- Digits without a sign, a fraction and an exponent. -/
def Plain (numeral : Numeral) : Prop :=
  numeral.negative = false ∧ numeral.fraction = none ∧ numeral.exponent = none

/-- A plain numeral whose value fits 64 bits. -/
def IsCount (numeral : Numeral) : Prop :=
  numeral.Plain ∧ Digit.value numeral.whole < UInt64.size

/-- A reader that stops before a word overflows has taken all digits of a count. -/
theorem isCount_iff_taken {numeral : Numeral} :
    numeral.IsCount ↔ numeral.Plain ∧ Exists fun n =>
      extendSignificand 0 numeral.whole = (n, []) := by
  have taken_iff : forall n, extendSignificand 0 numeral.whole = (n, []) ↔
      Digit.value numeral.whole = n ∧ n < wordLimit :=
    fun _ => extendSignificand_eq_iff (by decide)
  simp only [taken_iff, exists_eq_left']
  rfl

end Numeral
end Json

namespace Model

open Json
open Record

theorem isNatural_iff {numeral : Numeral} {n : UInt64} :
    IsNatural (.number numeral) n ↔ numeral.IsCount ∧ n.toNat = Digit.value numeral.whole := by
  constructor
  · intro given
    rcases given with ⟨_, same, unsigned, noFraction, noExponent, value⟩
    cases same
    exact ⟨⟨⟨unsigned, noFraction, noExponent⟩, value ▸ n.toNat_lt⟩, value.symm⟩
  · intro given
    rcases given with ⟨⟨⟨unsigned, noFraction, noExponent⟩, _⟩, value⟩
    exact ⟨numeral, rfl, unsigned, noFraction, noExponent, value.symm⟩

theorem exists_isNatural_iff {numeral : Numeral} :
    (Exists fun n => IsNatural (.number numeral) n) ↔ numeral.IsCount := by
  constructor
  · intro given
    rcases given with ⟨n, natural⟩
    exact (isNatural_iff.mp natural).1
  · intro isCount
    exact ⟨UInt64.ofNat (Digit.value numeral.whole),
      isNatural_iff.mpr ⟨isCount, UInt64.toNat_ofNat_of_lt' isCount.2⟩⟩

/-- Counts decode, in whatever is open. -/
theorem decodes_of_isCount {numeral : Numeral} (isCount : numeral.IsCount) (allowance : Nat) :
    (Form.number numeral).Decodes allowance := by
  rcases exists_isNatural_iff.mpr isCount with ⟨n, _, same, value⟩
  cases same
  exact ⟨_, .number (Numeral.number_eq_natural_iff.mpr value)⟩

/-- Numerals that are both counts are accepted in each other's place. -/
theorem even_counts {numeral other : Numeral} (isCount : numeral.IsCount)
    (alsoCount : other.IsCount) : Even IsNatural (.number numeral) (.number other) where
  accepted := iff_of_true (exists_isNatural_iff.mpr isCount) (exists_isNatural_iff.mpr alsoCount)
  decodes allowance :=
    iff_of_true (decodes_of_isCount isCount allowance) (decodes_of_isCount alsoCount allowance)
  null_iff := ⟨nofun, nofun⟩

/-- The members that hold a whole number. -/
inductive Count : Kind -> Type
  | accountId : Count .account
  | organizationId : Count .organization
  | repositoryId : Count .repository
  | stars : Count .repository
  | forks : Count .repository
  | network : Count .detailedRepository
  | subscribers : Count .detailedRepository
  | permitted (count : Count .repository) : Count .permittedRepository
  | detailed (count : Count .permittedRepository) : Count .detailedRepository

namespace Count

def member {kind : Kind} : Count kind -> Member kind IsNatural
  | .accountId =>
      { name := "id"
        get := fun account => some account.id
        keeps := Kind.keeps_of_field unsigned_follows (Nat.zero_le _) 1 rfl .required
        shows := fun told listed _ => ⟨_, told.id.shows listed, rfl⟩ }
  | .organizationId =>
      { name := "id"
        get := fun organization => some organization.id
        keeps := Kind.keeps_of_field unsigned_follows (Nat.zero_le _) 1 rfl .required
        shows := fun told listed _ => ⟨_, told.id.shows listed, rfl⟩ }
  | .repositoryId =>
      { name := "id"
        get := fun repository => some repository.id
        keeps := Kind.keeps_of_field unsigned_follows (Nat.zero_le _) 0 rfl .required
        shows := fun told listed _ => ⟨_, told.id.shows listed, rfl⟩ }
  | .stars =>
      { name := "stargazers_count"
        get := fun repository => some repository.stars
        keeps := Kind.keeps_of_field unsigned_follows (Nat.zero_le _) 13 rfl .defaulted
        shows := fun told listed _ => ⟨_, told.stars.shows listed, rfl⟩ }
  | .forks =>
      { name := "forks_count"
        get := fun repository => some repository.forks
        keeps := Kind.keeps_of_field unsigned_follows (Nat.zero_le _) 14 rfl .defaulted
        shows := fun told listed _ => ⟨_, told.forks.shows listed, rfl⟩ }
  | .network =>
      { name := "network_count"
        get := fun detailed => detailed.networkCount
        keeps := Kind.keeps_of_field unsigned_follows (Nat.zero_le _) 6 rfl .optional
        shows := fun told => told.networkCount.shows }
  | .subscribers =>
      { name := "subscribers_count"
        get := fun detailed => detailed.subscribersCount
        keeps := Kind.keeps_of_field unsigned_follows (Nat.zero_le _) 7 rfl .optional
        shows := fun told => told.subscribersCount.shows }
  | .permitted count => count.member.permitted
  | .detailed count => count.member.detailed

end Count

/-- A numeral in the place of a whole number is accepted if it is a count, and
then the data is its value.  Whether a document with such a numeral is accepted
depends on nothing else about the numeral.  This holds of every model, wherever
it stands in another one, and on every way. -/
theorem counts_read_exactly {way : Way} {outer inner : Kind} {path : Path outer inner}
    {around hold : Form -> Form} (along : Along way path around) (count : Count inner)
    (under : Under way inner count.member.name hold) {numeral : Numeral} {text : String}
    (written : (around (hold (.number numeral))).Written text.toUTF8.toList) :
    (forall a, outer.codec.decode way (supplyOfText text) = .ok a ->
      numeral.IsCount ∧ Exists fun n : UInt64 =>
        path.data count.member a = some n ∧ n.toNat = Digit.value numeral.whole) ∧
    (forall {other : Numeral} {otherText : String}, other.IsCount ->
      (around (hold (.number other))).Written otherText.toUTF8.toList ->
        ((Exists fun a => outer.codec.decode way (supplyOfText text) = .ok a) ↔
          numeral.IsCount ∧
            Exists fun a => outer.codec.decode way (supplyOfText otherText) = .ok a)) ∧
    (numeral.IsCount ↔ numeral.Plain ∧
      Exists fun n => extendSignificand 0 numeral.whole = (n, [])) := by
  have seen_number : forall numeral, way.seen (.number numeral) = .number numeral := by
    cases way <;> exact fun _ => rfl
  have reads : forall a, outer.codec.decode way (supplyOfText text) = .ok a ->
      numeral.IsCount ∧ Exists fun n : UInt64 =>
        path.data count.member a = some n ∧ n.toNat = Digit.value numeral.whole := by
    intro a accepted
    have solid : way.seen (.number numeral) ≠ .null := by
      rw [seen_number]
      exact nofun
    rcases along.decode_shows under solid written accepted with ⟨n, natural, isData⟩
    rw [seen_number, isNatural_iff] at natural
    exact ⟨natural.1, n, isData, natural.2⟩
  refine ⟨reads, fun {other otherText} alsoCount otherWritten => ?_, Numeral.isCount_iff_taken⟩
  have together (isCount : numeral.IsCount) :=
    along.accepted_iff under (even_counts isCount alsoCount).decodes
      (by rw [seen_number, seen_number]; exact even_counts isCount alsoCount) written otherWritten
  constructor
  · intro accepted
    rcases accepted with ⟨a, isRead⟩
    have isCount := (reads a isRead).1
    exact ⟨isCount, (together isCount).mp ⟨a, isRead⟩⟩
  · intro given
    exact (together given.1).mpr given.2

/-- The form of an owner with this number. -/
def ownerForm (id : Form) : Form :=
  .object ([memberOf "login" (.text (Piece.ofText "o"))] ++ [memberOf "id" id])

/-- The largest number of 64 bits is read as the number of an owner, and the
next one is not. -/
theorem counts_read_exactly_largest :
    (Exists fun repository => Repository.codec.decode .settled (supplyOfText
      (ownedText "\x7b\"login\":\"o\",\"id\":18446744073709551615\x7d")) = .ok repository ∧
        repository.owner.id.toNat = UInt64.size - 1) ∧
    forall repository, Repository.codec.decode .settled (supplyOfText
      (ownedText "\x7b\"login\":\"o\",\"id\":18446744073709551616\x7d")) ≠ .ok repository := by
  have along : Along .settled (.step .owner .here) ownedForm :=
    .step (.member (Piece.denoted?_ofText "owner") (fun _ _ => nofun)) .here
  have under : Under .settled .account (Count.member .accountId).name ownerForm :=
    .member (Piece.denoted?_ofText "id") (fun _ _ => nofun)
  have written : (ownedForm (ownerForm (.number (numeralOf (UInt64.size - 1))))).Written
      (ownedText "\x7b\"login\":\"o\",\"id\":18446744073709551615\x7d").toUTF8.toList := by
    decide +kernel
  have tooLarge : (ownedForm (ownerForm (.number (numeralOf UInt64.size)))).Written
      (ownedText "\x7b\"login\":\"o\",\"id\":18446744073709551616\x7d").toUTF8.toList := by
    decide +kernel
  constructor
  · have owned : Repository.codec.decode .settled (supplyOfText
        (ownedText "\x7b\"login\":\"o\",\"id\":2\x7d")) =
          .ok DetailedRepository.squashRepository.repository := by
      decide +kernel
    have otherWritten : (ownedForm (ownerForm (.number (numeralOf 2)))).Written
        (ownedText "\x7b\"login\":\"o\",\"id\":2\x7d").toUTF8.toList := by
      decide +kernel
    have reads := counts_read_exactly along .accountId under written
    have isCount : forall n, n < UInt64.size -> (numeralOf n).IsCount := fun n fits =>
      ⟨⟨rfl, rfl, rfl⟩, (value_digitsOf n).symm ▸ fits⟩
    rcases (reads.2.1 (isCount 2 (by decide)) otherWritten).mpr
      ⟨isCount _ (by decide), _, owned⟩ with ⟨repository, accepted⟩
    rcases (reads.1 repository accepted).2 with ⟨n, isData, value⟩
    cases isData
    exact ⟨repository, accepted, value.trans (value_digitsOf _)⟩
  · intro repository accepted
    have isCount := ((counts_read_exactly along .accountId under tooLarge).1 repository accepted).1
    have fits : Digit.value (digitsOf UInt64.size) < UInt64.size := isCount.2
    rw [value_digitsOf] at fits
    exact Nat.lt_irrefl _ fits

end Model
end RepoInspector
