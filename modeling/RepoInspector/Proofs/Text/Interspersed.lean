import Mathlib.Data.List.Basic

namespace RepoInspector

/-!
# Parts and what is between them

A text can be told apart into parts that matter and characters around them
that do not, such as tokens and blanks.  The parts keep their order and stand
in the text unbroken.
-/

/-- A text of parts in their order, with characters of one sort anywhere between,
before and after them. -/
inductive Interspersed (gap : Char -> Prop) : List (List Char) -> List Char -> Prop
  | nil : Interspersed gap [] []
  | gap {c : Char} {parts : List (List Char)} {chars : List Char} (between : gap c)
      (rest : Interspersed gap parts chars) : Interspersed gap parts (c :: chars)
  | part {part : List Char} {parts : List (List Char)} {chars : List Char}
      (rest : Interspersed gap parts chars) : Interspersed gap (part :: parts) (part ++ chars)

namespace Interspersed

variable {gap : Char -> Prop} {parts later : List (List Char)} {chars rest : List Char}

theorem append (first : Interspersed gap parts chars) (second : Interspersed gap later rest) :
    Interspersed gap (parts ++ later) (chars ++ rest) := by
  induction first with
  | nil => exact second
  | gap between _ inductionHypothesis => exact .gap between inductionHypothesis
  | part _ inductionHypothesis =>
      rw [List.append_assoc]
      exact .part inductionHypothesis

theorem single (part : List Char) : Interspersed gap [part] part := by
  have alone : Interspersed gap [part] (part ++ []) := .part .nil
  rw [List.append_nil] at alone
  exact alone

theorem gaps (all : ∀ c ∈ chars, gap c) : Interspersed gap [] chars := by
  induction chars with
  | nil => exact .nil
  | cons c chars inductionHypothesis =>
      rcases List.forall_mem_cons.mp all with ⟨first, others⟩
      exact .gap first (inductionHypothesis others)

/-- Without anything between them the parts are the whole text. -/
theorem eq_flatten (interspersed : Interspersed gap parts chars) (never : forall c, ¬ gap c) :
    chars = parts.flatten := by
  induction interspersed with
  | nil => rfl
  | gap between => exact absurd between (never _)
  | part _ inductionHypothesis => rw [List.flatten_cons, inductionHypothesis]

end Interspersed
end RepoInspector
