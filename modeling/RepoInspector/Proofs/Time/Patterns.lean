import RepoInspector.Proofs.Time.RoundTrip
import RepoInspector.Time.Pattern

namespace RepoInspector
namespace Time

/-!
# Patterns against payloads

The writer of patterns and the writer of payloads fill up their numbers in
different ways: one takes a number below a hundred digit by digit, splits a
year of four digits in two and counts the sign into the width of a year, the
other writes all digits of a number behind as many zeros as are missing.  They
are compared here part by part.
-/

theorem digitFrom_eq {n : Nat} (small : n < 10) : digitFrom n = n.digitChar := by
  have each : ∀ n < 10, digitFrom n = n.digitChar := by decide
  exact each n small

/-- Two digits are all digits of a number below a hundred, behind the zeros that
are missing. -/
theorem twoDigits_eq {n : Nat} (small : n < 100) : twoDigits n = padded 2 n := by
  have tens : digitFrom (n / 10) = (n / 10).digitChar := digitFrom_eq (by omega)
  have ones : digitFrom (n % 10) = (n % 10).digitChar := digitFrom_eq (Nat.mod_lt n (by decide))
  rw [twoDigits, tens, ones, padded]
  rcases Nat.lt_or_ge n 10 with single | double
  · rw [Nat.toDigits_of_lt_base single, Nat.div_eq_of_lt single, Nat.mod_eq_of_lt single]
    rfl
  · have first : Nat.toDigits 10 (n / 10) = [(n / 10).digitChar] :=
      Nat.toDigits_of_lt_base (by omega)
    rw [Nat.toDigits_of_base_le (by decide) double, first]
    rfl

/-- The digits of a number of four digits. -/
theorem toDigits_four {n : Nat} (long : 1000 ≤ n) (short : n < 10000) :
    Nat.toDigits 10 n =
      [(n / 1000).digitChar, (n / 100 % 10).digitChar, (n / 10 % 10).digitChar,
        (n % 10).digitChar] := by
  have thousands : Nat.toDigits 10 (n / 1000) = [(n / 1000).digitChar] :=
    Nat.toDigits_of_lt_base (by omega)
  have hundreds := Nat.toDigits_of_base_le (by decide : 1 < 10) (by omega : 10 ≤ n / 100)
  have tens := Nat.toDigits_of_base_le (by decide : 1 < 10) (by omega : 10 ≤ n / 10)
  have ones := Nat.toDigits_of_base_le (by decide : 1 < 10) (by omega : 10 ≤ n)
  rw [Nat.div_div_eq_div_mul] at hundreds tens
  rw [ones, tens, hundreds, thousands]
  rfl

/-- Two halves are all digits of a number of four digits. -/
theorem twoDigits_halves {n : Nat} (long : 1000 ≤ n) (short : n < 10000) :
    twoDigits (n / 100) ++ twoDigits (n % 100) = padded 4 n := by
  have thousands : n / 100 / 10 = n / 1000 := Nat.div_div_eq_div_mul n 100 10
  have tens : n % 100 / 10 = n / 10 % 10 := by omega
  have ones : n % 100 % 10 = n % 10 := by omega
  rw [padded, toDigits_four long short, twoDigits, twoDigits, thousands, tens, ones,
    digitFrom_eq (by omega), digitFrom_eq (Nat.mod_lt _ (by decide)),
    digitFrom_eq (Nat.mod_lt _ (by decide)), digitFrom_eq (Nat.mod_lt _ (by decide))]
  rfl

/-- A sign takes one of the characters that are filled up. -/
theorem zeroFilled_signed {n : Int} {width : Nat} {always : Bool} {sign : Char}
    (signed : (if n < 0 then ['-'] else if always then ['+'] else []) = [sign]) :
    zeroFilled (width + 1) always n = sign :: padded width n.natAbs := by
  simp only [zeroFilled, signed, padded, List.length_singleton, List.cons_append,
    List.nil_append]
  rw [Nat.add_comm 1, Nat.add_sub_add_right]

theorem zeroFilled_unsigned {n : Int} (width : Nat) (nonneg : 0 ≤ n) :
    zeroFilled width false n = padded width n.natAbs := by
  have unsigned : ¬ n < 0 := Int.not_lt.mpr nonneg
  simp only [zeroFilled, if_neg unsigned, padded, Bool.false_eq_true, if_false, List.length_nil,
    Nat.zero_add, List.nil_append]

theorem filledYear_eq (year : Int) : filledYear year = yearText year := by
  unfold filledYear yearText
  rcases Int.lt_or_le year 0 with negative | nonneg
  · rw [if_neg (by omega), if_neg (by omega), if_pos negative]
    apply zeroFilled_signed
    rw [if_pos negative]
  · rw [if_neg (by omega : ¬ year < 0)]
    rcases Int.lt_or_le 9999 year with long | short
    · rw [if_neg (by omega), if_neg (by omega), if_neg (by omega)]
      apply zeroFilled_signed
      rw [if_neg (by omega), if_pos rfl]
    · rw [if_pos short]
      split
      case isTrue four =>
        have same : year.toNat = year.natAbs := by omega
        rw [same]
        apply twoDigits_halves <;> omega
      case isFalse =>
        rw [if_pos (by omega)]
        exact zeroFilled_unsigned 4 nonneg

/-- The pattern of a summary shows the date and the time of day of a payload,
with a space between them. -/
theorem chars_summaryPattern (instant : Instant) :
    summaryPattern.chars instant = instant.date.text ++ ' ' :: instant.clock.text := by
  rcases instant.date.bounds with ⟨_, _, _, month, _, day⟩
  have hour := instant.clock.hour.isLt
  have minute := instant.clock.minute.isLt
  have second := instant.clock.second.isLt
  simp only [Pattern.chars, summaryPattern, List.flatMap_cons, List.flatMap_nil, Part.chars,
    filledYear_eq, Date.text, Clock.text, List.append_assoc, List.append_nil, List.cons_append,
    List.nil_append]
  rw [twoDigits_eq (by omega), twoDigits_eq (by omega), twoDigits_eq (by omega),
    twoDigits_eq (by omega), twoDigits_eq (by omega)]

end Time
end RepoInspector
