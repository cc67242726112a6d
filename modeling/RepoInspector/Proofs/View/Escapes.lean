import RepoInspector.View.Ink

namespace RepoInspector
namespace View

/-!
# Style sequences

A style sequence is an escape and a bracket, then digits and semicolons, and an
`m`.  All of them can be taken out of a text in one pass from left to right.
What is left is not looked at again, so a sequence that only forms where
another one was taken out stays.  This is why the removal does not commute with
putting texts together, and does when the second text cannot go on with a
sequence that the first one has begun.
-/

/-- A character between the bracket and the `m` of a style sequence. -/
def isParameter (c : Char) : Bool := c.isDigit || c == ';'

/-- What follows the parameters and the `m` of a style sequence. -/
def pastParameters? : List Char -> Option (List Char)
  | [] => none
  | c :: rest =>
      if c = 'm' then some rest
      else if isParameter c then pastParameters? rest
      else none

/-- What follows the style sequence that a text begins with. -/
def pastSequence? : List Char -> Option (List Char)
  | '\x1b' :: '[' :: rest => pastParameters? rest
  | _ => none

theorem pastParameters?_of_all {parameters : List Char}
    (all : ∀ c ∈ parameters, isParameter c = true) (rest : List Char) :
    pastParameters? (parameters ++ 'm' :: rest) = some rest := by
  induction parameters with
  | nil => rfl
  | cons c parameters inductionHypothesis =>
      rcases List.forall_mem_cons.mp all with ⟨parameter, others⟩
      have not_end : c ≠ 'm' := by
        rintro rfl
        cases parameter
      rw [List.cons_append, pastParameters?, if_neg not_end, if_pos parameter,
        inductionHypothesis others]

theorem exists_parameters {text rest : List Char} (past : pastParameters? text = some rest) :
    Exists fun parameters => (∀ c ∈ parameters, isParameter c = true) ∧
      text = parameters ++ 'm' :: rest := by
  induction text with
  | nil => cases past
  | cons c text inductionHypothesis =>
      rw [pastParameters?] at past
      split at past
      case isTrue isEnd =>
        cases past
        exact ⟨[], nofun, congrArg (fun head => head :: rest) isEnd⟩
      case isFalse =>
        split at past
        case isTrue parameter =>
          rcases inductionHypothesis past with ⟨parameters, all, rfl⟩
          exact ⟨c :: parameters, List.forall_mem_cons.mpr ⟨parameter, all⟩, rfl⟩
        case isFalse => cases past

theorem pastSequence?_iff {text rest : List Char} :
    pastSequence? text = some rest ↔
      Exists fun parameters => (∀ c ∈ parameters, isParameter c = true) ∧
        text = Ink.escape :: '[' :: parameters ++ 'm' :: rest := by
  constructor
  · intro past
    unfold pastSequence? at past
    split at past
    · rcases exists_parameters past with ⟨parameters, all, rfl⟩
      exact ⟨parameters, all, rfl⟩
    · cases past
  · rintro ⟨parameters, all, rfl⟩
    exact pastParameters?_of_all all rest

theorem length_pastSequence {text rest : List Char} (past : pastSequence? text = some rest) :
    rest.length < text.length := by
  rcases pastSequence?_iff.mp past with ⟨parameters, _, rfl⟩
  simp only [List.length_append, List.length_cons]
  omega

/-- A text without its style sequences, in one pass from left to right. -/
def unstyled : List Char -> List Char
  | [] => []
  | c :: rest =>
      match _ : pastSequence? (c :: rest) with
      | some later => unstyled later
      | none => c :: unstyled rest
termination_by text => text.length
decreasing_by
  · exact length_pastSequence (by assumption)
  · exact Nat.lt_succ_self _

theorem unstyled_of_sequence {text later : List Char} (past : pastSequence? text = some later) :
    unstyled text = unstyled later := by
  cases text with
  | nil => cases past
  | cons c rest =>
      rw [unstyled]
      split
      case h_1 found => rw [Option.some.inj (found.symm.trans past)]
      case h_2 absent => cases absent.symm.trans past

theorem unstyled_of_other {c : Char} {rest : List Char} (other : pastSequence? (c :: rest) = none) :
    unstyled (c :: rest) = c :: unstyled rest := by
  rw [unstyled]
  split
  case h_1 found => cases found.symm.trans other
  case h_2 => rfl

/-- What forms a sequence where another one was taken out stays. -/
example : unstyled "a\x1b[\x1b[1;31m0mb".toList = "a\x1b[0mb".toList := by decide +kernel

/-!
## Texts without escapes
-/

theorem pastSequence?_of_ne {c : Char} (different : c ≠ Ink.escape) (rest : List Char) :
    pastSequence? (c :: rest) = none := by
  unfold pastSequence?
  split
  case h_1 same => exact absurd (List.cons.inj same).1 different
  case h_2 => rfl

/-- What has no escape stays, whatever follows it. -/
theorem unstyled_plain {text : List Char} (plain : Ink.escape ∉ text) (rest : List Char) :
    unstyled (text ++ rest) = text ++ unstyled rest := by
  induction text with
  | nil => rfl
  | cons c text inductionHypothesis =>
      have different : c ≠ Ink.escape := (List.ne_of_not_mem_cons plain).symm
      rw [List.cons_append, unstyled_of_other (pastSequence?_of_ne different _),
        inductionHypothesis (List.not_mem_of_not_mem_cons plain), List.cons_append]

theorem unstyled_of_plain {text : List Char} (plain : Ink.escape ∉ text) :
    unstyled text = text := by
  have alone := unstyled_plain plain []
  rw [List.append_nil, unstyled, List.append_nil] at alone
  exact alone

/-!
## Texts one after the other
-/

/-- A text that cannot go on with a style sequence that was begun before it. -/
def Interrupts (text : List Char) : Prop :=
  ∀ c ∈ text.head?, c ≠ '[' ∧ c ≠ 'm' ∧ isParameter c = false

namespace Interrupts

theorem nil : Interrupts [] := nofun

theorem cons {c : Char} (apart : c ≠ '[' ∧ c ≠ 'm' ∧ isParameter c = false) (rest : List Char) :
    Interrupts (c :: rest) := by
  intro other isHead
  cases isHead
  exact apart

theorem append {text rest : List Char} (first : Interrupts text) (second : Interrupts rest) :
    Interrupts (text ++ rest) := by
  cases text with
  | nil => exact second
  | cons c text => exact cons (first c rfl) (text ++ rest)

/-- Only what a text begins with counts, so what follows it may be something else. -/
theorem exchange {text rest other : List Char} (whole : Interrupts (text ++ rest))
    (alike : Interrupts rest -> Interrupts other) : Interrupts (text ++ other) := by
  cases text with
  | nil => exact alike whole
  | cons c text => exact cons (whole c rfl) (text ++ other)

theorem pastParameters?_append {rest : List Char} (interrupts : Interrupts rest)
    (text : List Char) :
    pastParameters? (text ++ rest) = (pastParameters? text).map (fun past => past ++ rest) := by
  fun_induction pastParameters? text with
  | case1 =>
      cases rest with
      | nil => rfl
      | cons c rest =>
          rcases interrupts c rfl with ⟨_, not_end, not_parameter⟩
          rw [List.nil_append, pastParameters?, if_neg not_end, not_parameter]
          rfl
  | case2 text => rfl
  | case3 c text not_end parameter inductionHypothesis =>
      rw [List.cons_append, pastParameters?, if_neg not_end, if_pos parameter,
        inductionHypothesis]
  | case4 c text not_end not_parameter =>
      rw [List.cons_append, pastParameters?, if_neg not_end, if_neg not_parameter]
      rfl

/-- A sequence that ends in the first text, or else has not begun there. -/
theorem pastSequence?_append {rest : List Char} (interrupts : Interrupts rest) (c : Char)
    (text : List Char) :
    pastSequence? (c :: text ++ rest) =
      (pastSequence? (c :: text)).map (fun past => past ++ rest) := by
  by_cases isEscape : c = Ink.escape
  case neg => rw [List.cons_append, pastSequence?_of_ne isEscape, pastSequence?_of_ne isEscape]; rfl
  case pos =>
    cases isEscape
    cases text with
    | nil =>
        cases rest with
        | nil => rfl
        | cons c rest =>
            rcases interrupts c rfl with ⟨not_bracket, _⟩
            simp [pastSequence?, Ink.escape, not_bracket]
    | cons c text =>
        by_cases isBracket : c = '['
        case neg => simp [pastSequence?, Ink.escape, isBracket]
        case pos =>
          cases isBracket
          exact interrupts.pastParameters?_append text

theorem unstyled_append {rest : List Char} (interrupts : Interrupts rest) (text : List Char) :
    unstyled (text ++ rest) = unstyled text ++ unstyled rest := by
  fun_induction unstyled text with
  | case1 => rfl
  | case2 c text later past inductionHypothesis =>
      have whole := interrupts.pastSequence?_append c text
      rw [past] at whole
      rw [unstyled_of_sequence whole, inductionHypothesis]
  | case3 c text other inductionHypothesis =>
      have whole := interrupts.pastSequence?_append c text
      rw [other] at whole
      have step := unstyled_of_other whole
      rw [List.cons_append]
      exact step.trans (congrArg (List.cons c) inductionHypothesis)

end Interrupts

/-!
## The sequences of inks
-/

theorem isDigit_toString (n : Nat) : ∀ c ∈ (toString n).toList, c.isDigit = true := by
  intro c listed
  rw [Nat.toString_eq_repr, Nat.toList_repr] at listed
  exact Nat.isDigit_of_mem_toDigits (by decide) (by decide) listed

theorem isParameter_intercalate (codes : List Nat) :
    ∀ c ∈ (String.intercalate ";" (codes.map toString)).toList, isParameter c = true := by
  have digits : forall (code : Nat), ∀ c ∈ (toString code).toList, isParameter c = true := by
    intro code c listed
    rw [isParameter, isDigit_toString code c listed]
    rfl
  induction codes with
  | nil => exact nofun
  | cons code codes inductionHypothesis =>
      cases codes with
      | nil => exact digits code
      | cons next codes =>
          intro c listed
          simp only [List.map_cons, String.intercalate_cons_cons, String.toList_append,
            List.mem_append] at listed inductionHypothesis
          rcases listed with (isDigit | isMark) | later
          · exact digits code c isDigit
          · rw [List.mem_singleton.mp isMark]; rfl
          · exact inductionHypothesis c later

namespace Ink

variable (ink : Ink) (text : List Char)

theorem pastSequence?_opening : pastSequence? (ink.opening ++ text) = some text := by
  refine pastSequence?_iff.mpr ⟨_, isParameter_intercalate ink.codes, ?_⟩
  rw [opening, List.append_assoc]
  rfl

theorem unstyled_opening : unstyled (ink.opening ++ text) = unstyled text :=
  unstyled_of_sequence (pastSequence?_opening ink text)

theorem unstyled_reset : unstyled (reset ++ text) = unstyled text :=
  unstyled_of_sequence rfl

theorem interrupts_reset : Interrupts (reset ++ text) := .cons (by decide) _

theorem interrupts_paint (rest : List Char) : Interrupts (ink.paint text ++ rest) :=
  .cons (by decide) _

/-- An ink is used again behind a reset and nowhere else. -/
theorem reopen_cases (opening : List Char) (c : Char) :
    (Exists fun later => c :: text = reset ++ later ∧
      reopen opening (c :: text) = reset ++ opening ++ reopen opening later) ∨
    reopen opening (c :: text) = c :: reopen opening text := by
  rw [reopen.eq_def]
  split
  case h_1 later same => exact .inl ⟨later, same, rfl⟩
  case h_2 same =>
    cases same
    exact .inr rfl
  case h_3 none_left => cases none_left

/-- A text in which an ink is used again begins as it did. -/
theorem reopen_head (opening : List Char) (c : Char) :
    Exists fun rest => reopen opening (c :: text) = c :: rest := by
  rcases reopen_cases text opening c with ⟨later, same, again⟩ | again
  · rw [again, (List.cons.inj same).1]
    exact ⟨_, rfl⟩
  · exact ⟨_, again⟩

theorem reopen_cons {opening : List Char} {c : Char} (different : c ≠ escape) :
    reopen opening (c :: text) = c :: reopen opening text := by
  rcases reopen_cases text opening c with ⟨later, same, _⟩ | other
  · exact absurd (List.cons.inj same).1 different
  · exact other

/-- Where an ink is used again, parameters end at the same place. -/
theorem pastParameters?_reopen (opening : List Char) :
    pastParameters? (reopen opening text) = (pastParameters? text).map (reopen opening) := by
  induction text with
  | nil => rfl
  | cons c text inductionHypothesis =>
      by_cases isEscape : c = escape
      case pos =>
        rcases reopen_head text opening c with ⟨rest, again⟩
        rw [again, isEscape]
        rfl
      case neg =>
        rw [reopen_cons _ isEscape, pastParameters?, pastParameters?, inductionHypothesis]
        split
        case isTrue => rfl
        case isFalse => split <;> rfl

theorem pastSequence?_reopen (opening : List Char) (c : Char) :
    pastSequence? (c :: reopen opening text) =
      (pastSequence? (c :: text)).map (reopen opening) := by
  by_cases isEscape : c = escape
  case neg => rw [pastSequence?_of_ne isEscape, pastSequence?_of_ne isEscape]; rfl
  case pos =>
    cases isEscape
    cases text with
    | nil => rfl
    | cons next text =>
        by_cases isBracket : next = '['
        case pos =>
          rw [isBracket, reopen_cons text (by decide)]
          exact pastParameters?_reopen text opening
        case neg =>
          rcases reopen_head text opening next with ⟨rest, again⟩
          rw [again]
          simp [pastSequence?, escape, isBracket]

/-- An ink that is used again puts nothing but its own sequence into a text. -/
theorem unstyled_reopen : unstyled (reopen ink.opening text) = unstyled text := by
  fun_induction unstyled text with
  | case1 => rw [reopen, unstyled]
  | case2 c text later past inductionHypothesis =>
      rcases reopen_cases text ink.opening c with ⟨rest, same, again⟩ | again
      · -- The sequence is a reset, and the ink is used again behind it.
        have isRest : later = rest := by
          rw [same] at past
          exact (Option.some.inj past).symm
        rw [again, List.append_assoc, unstyled_reset, unstyled_opening, ← isRest,
          inductionHypothesis]
      · have step := pastSequence?_reopen text ink.opening c
        rw [past] at step
        rw [again, unstyled_of_sequence step, inductionHypothesis]
  | case3 c text other inductionHypothesis =>
      have again : reopen ink.opening (c :: text) = c :: reopen ink.opening text := by
        rcases reopen_cases text ink.opening c with ⟨rest, same, _⟩ | again
        · rw [same] at other
          cases other
        · exact again
      have step := pastSequence?_reopen text ink.opening c
      rw [other] at step
      rw [again, unstyled_of_other step, inductionHypothesis]

/-- Without style sequences a text in an ink is the text without them, whatever
follows it: the reset keeps the two apart. -/
theorem unstyled_paint (rest : List Char) :
    unstyled (ink.paint text ++ rest) = unstyled text ++ unstyled rest := by
  rw [paint, List.append_assoc, List.append_assoc, unstyled_opening,
    (interrupts_reset rest).unstyled_append, unstyled_reopen, unstyled_reset]

end Ink
end View
end RepoInspector
