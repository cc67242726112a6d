import Mathlib.Data.List.Basic
import RepoInspector.Proofs.Json.Growth

namespace RepoInspector
namespace Json

/-!
# Values at the front of bytes

Where a value is due, a reading uses some of the bytes that are left and goes
on behind them.  How many it uses is a matter of the grammar alone.  If a value
stands at the front, just its bytes are used, and what is read of them goes
where it belongs, whatever is open around it.  If none does, the reading breaks
off.  No reader of nodes has a part in this, so passing a value over and
decoding it use the same bytes.
-/

/-- Every lexeme ends with a byte that is not blank. -/
theorem Lexeme.Spelled.unpadded {lexeme : Lexeme} {spelled : List UInt8}
    (spells : lexeme.Spelled spelled) : ∀ byte ∈ spelled.getLast?, isBlankByte byte = false := by
  intro byte isLast
  cases spells with
  | comma | colon | arrayStart | arrayEnd | objectStart | objectEnd | null | trueWord
  | falseWord =>
      cases isLast
      rfl
  | number spelledNumeral =>
      have unblank : ∀ byte ∈ spelled, isBlankByte byte = false :=
        spelledNumeral.each (by decide) (by decide) (by simp [isBlankByte])
      exact unblank byte (List.mem_of_getLast? isLast)
  | text =>
      rw [← List.cons_append, List.getLast?_concat] at isLast
      cases isLast
      rfl

/-!
## The tokens of a front
-/

/-- Tokens at the front of a scan are spelled at the front of its bytes, and
there they end. -/
theorem Token.scan_split {limit start : Nat} {failure : Option String} {bytes : List UInt8}
    {before after : List Token} {token : Token} (someToken : before ≠ [])
    (scanned : Token.scan limit failure start bytes = before ++ token :: after) :
    Exists fun front => Exists fun rest => bytes = front ++ rest ∧ Placed start before front ∧
      (∀ last ∈ before.getLast?, last.lexeme.Ends rest) ∧
      ∀ byte ∈ front.getLast?, isBlankByte byte = false := by
  fun_induction Token.scan limit failure start bytes generalizing before with
  | case1 start =>
      rcases before with _ | ⟨first, before⟩
      · exact absurd rfl someToken
      · simp at scanned
  | case2 start byte bytes isBlank inductionHypothesis =>
      rcases inductionHypothesis someToken scanned with
        ⟨front, rest, rfl, placed, ends, unpadded⟩
      refine ⟨byte :: front, rest, rfl, .blank isBlank placed, ends, ?_⟩
      rwa [← List.singleton_append,
        List.getLast?_append_of_ne_nil _ (placed.bytes_ne_nil someToken)]
  | case3 start byte bytes _ found single =>
      rcases before with _ | ⟨first, before⟩
      · exact absurd rfl someToken
      · simp at scanned
  | case4 start byte bytes _ found single goesOn =>
      rename_i inductionHypothesis
      rcases before with _ | ⟨first, before⟩
      · exact absurd rfl someToken
      rcases List.cons.inj scanned with ⟨rfl, others⟩
      rcases Lexeme.scan_ok (show Lexeme.scan limit failure start byte bytes =
        (found.1, found.2) from rfl) (Bool.eq_false_iff.mpr goesOn) with
        ⟨spelled, behind, split, spells, width, ends⟩
      have behindBytes : bytes.drop (found.2 - 1) = behind := width ▸ spells.drop split
      have next : start + 1 + (found.2 - 1) = start + spelled.length := by
        rcases spells.first with ⟨_, _, rfl, _⟩
        rw [List.length_cons] at width
        rw [← width, Nat.add_sub_cancel, Nat.add_assoc, Nat.add_comm 1, List.length_cons]
      have placedFirst : forall {tokens : List Token} {bytes : List UInt8},
          Placed (start + spelled.length) tokens bytes ->
            Placed start (single :: tokens) (spelled ++ bytes) := by
        intro tokens bytes placed
        have head : single = ⟨found.1, start, start + spelled.length⟩ := by rw [width]
        rw [head]
        exact .token spells placed
      by_cases last : before = []
      · rw [last]
        refine ⟨spelled, behind, split, ?_, fun token same => ?_, spells.unpadded⟩
        · rw [← List.append_nil spelled]
          exact placedFirst .nil
        · cases same
          exact ends
      · rw [behindBytes] at others inductionHypothesis
        rw [next] at others inductionHypothesis
        rcases inductionHypothesis last others with ⟨front, rest, rfl, placed, endsBehind, unpadded⟩
        refine ⟨spelled ++ front, rest, ?_, placedFirst placed, ?_, ?_⟩
        · rw [split, List.append_assoc]
        · rwa [← List.singleton_append, List.getLast?_append_of_ne_nil _ last]
        · rwa [List.getLast?_append_of_ne_nil _ (placed.bytes_ne_nil last)]

/-!
## Readings inside other readings
-/

namespace Reading

/-- A reading with further frames around it. -/
def within (outer : List Frame) : Reading -> Reading
  | .value frames => .value (frames ++ outer)
  | .firstItem start frames => .firstItem start (frames ++ outer)
  | .item start items frames => .item start items (frames ++ outer)
  | .nextItem start items frames => .nextItem start items (frames ++ outer)
  | .keyOrEnd start members comma frames => .keyOrEnd start members comma (frames ++ outer)
  | .colon start members name frames => .colon start members name (frames ++ outer)
  | .member start members frames => .member start members (frames ++ outer)
  | .finished root => deliver root outer
  | .done root none => breakOff root outer
  | .done root (some trailing) => .done root (some trailing)

variable (outer : List Frame)

theorem within_deliver (node : Node) (frames : List Frame) :
    (deliver node frames).within outer = deliver node (frames ++ outer) := by
  cases frames with
  | nil => rfl
  | cons frame frames => cases frame <;> rfl

theorem within_breakOff (node : Node) (frames : List Frame) :
    (breakOff node frames).within outer = breakOff node (frames ++ outer) := by
  simp only [breakOff, within, List.foldl_append]

theorem within_takeValue (frames : List Frame) (token : Token) :
    (takeValue frames token).within outer = takeValue (frames ++ outer) token := by
  unfold takeValue
  split <;> try split
  all_goals first | rfl | exact within_deliver _ _ _ | exact within_breakOff _ _ _

theorem within_takeKey (start : Token) (members : List (Key × Node)) (comma : Bool)
    (frames : List Frame) (token : Token) :
    (takeKey start members comma frames token).within outer =
      takeKey start members comma (frames ++ outer) token := by
  unfold takeKey
  split <;> try split
  all_goals first | rfl | exact within_deliver _ _ _ | exact within_breakOff _ _ _

/-- Whether more of the value is due. -/
def Unfinished : Reading -> Prop
  | .finished _ | .done _ _ => False
  | _ => True

/-- The frames around a value do not matter for the tokens in it. -/
theorem step_within {reading : Reading} (unfinished : reading.Unfinished) (token : Token) :
    step token (reading.within outer) = (step token reading).within outer := by
  cases reading with
  | value frames => exact (within_takeValue outer frames token).symm
  | keyOrEnd start members comma frames =>
      exact (within_takeKey outer start members comma frames token).symm
  | firstItem start frames =>
      change step token (.firstItem start (frames ++ outer)) = _
      simp only [step]
      split
      case h_1 => exact (within_deliver outer _ frames).symm
      case h_2 => exact (within_breakOff outer _ frames).symm
      case h_3 => exact (within_takeValue outer (.array start [] :: frames) token).symm
  | nextItem start items frames =>
      change step token (.nextItem start items (frames ++ outer)) = _
      simp only [step]
      split
      case h_1 => exact (within_breakOff outer _ frames).symm
      case h_2 => exact (within_takeValue outer (.array start items :: frames) token).symm
  | item start items frames =>
      change step token (.item start items (frames ++ outer)) = _
      simp only [step]
      split
      case h_1 => rfl
      case h_2 => exact (within_deliver outer _ frames).symm
      case h_3 => exact (within_breakOff outer _ frames).symm
  | colon start members name frames =>
      change step token (.colon start members name (frames ++ outer)) = _
      simp only [step]
      split
      case h_1 => rfl
      case h_2 => exact (within_breakOff outer _ frames).symm
  | member start members frames =>
      change step token (.member start members (frames ++ outer)) = _
      simp only [step]
      split
      case h_1 => rfl
      case h_2 => exact (within_deliver outer _ frames).symm
      case h_3 => exact (within_breakOff outer _ frames).symm
  | finished root => exact unfinished.elim
  | done root trailing => exact unfinished.elim

theorem grow_done (tokens : List Token) (root : Node) (trailing : Option Token) :
    grow tokens (.done root trailing) = .done root trailing := by
  induction tokens with
  | nil => rfl
  | cons token tokens inductionHypothesis => exact inductionHypothesis

/-- A value that breaks off as a document breaks off inside frames, too. -/
theorem grow_within {tokens : List Token} {reading : Reading} {root : Node}
    (grown : grow tokens reading = .done root none) :
    grow tokens (reading.within outer) = breakOff root outer := by
  induction tokens generalizing reading with
  | nil =>
      rw [grow_nil] at grown
      rw [grown]
      rfl
  | cons token tokens inductionHypothesis =>
      by_cases unfinished : reading.Unfinished
      · rw [grow_cons, step_within outer unfinished]
        exact inductionHypothesis grown
      · cases reading with
        | finished other =>
            rw [grow_cons, step, grow_done] at grown
            cases grown
        | done other trailing =>
            rw [grow_done] at grown
            cases grown
            exact grow_done _ _ _
        | value | firstItem | item | nextItem | keyOrEnd | colon | member =>
            exact absurd trivial unfinished

end Reading

/-!
## Forms at the front of bytes
-/

namespace Form

/-- What may stand behind a form: anything, but behind a number a byte that ends it. -/
def Ends : Form -> List UInt8 -> Prop
  | .number numeral, rest => numeral.Ended rest
  | _, _ => True

/-- A form is written in `front`, up to the last byte of it, and `rest` does not go on with it. -/
structure Leads (form : Form) (front rest : List UInt8) : Prop where
  written : form.Written front
  unpadded : ∀ byte ∈ front.getLast?, isBlankByte byte = false
  ends : form.Ends rest

/-- What ends a form ends the last of its lexemes. -/
theorem lexemes_last (form : Form) : Exists fun before => Exists fun last =>
    form.lexemes = before ++ [last] ∧ forall rest, last.Ends rest ↔ form.Ends rest := by
  cases form with
  | null | boolean | number | text => exact ⟨[], _, rfl, fun _ => Iff.rfl⟩
  | array items => exact ⟨.arrayStart :: itemLexemes items, _, rfl, fun _ => Iff.rfl⟩
  | object members => exact ⟨.objectStart :: memberLexemes members, _, rfl, fun _ => Iff.rfl⟩

theorem lexemes_ne_nil (form : Form) : form.lexemes ≠ [] := by
  rcases form.lexemes_last with ⟨before, last, split, _⟩
  rw [split]
  exact List.append_ne_nil_of_right_ne_nil _ (List.cons_ne_nil _ _)

theorem ends_iff {form : Form} {tokens : List Token}
    (spelled : tokens.map Token.lexeme = form.lexemes)
    (rest : List UInt8) : (∀ last ∈ tokens.getLast?, last.lexeme.Ends rest) ↔ form.Ends rest := by
  rcases form.lexemes_last with ⟨before, last, split, same⟩
  rw [split] at spelled
  rcases List.map_eq_append_iff.mp spelled with ⟨others, final, rfl, _, isFinal⟩
  rcases List.map_eq_singleton_iff.mp isFinal with ⟨token, rfl, rfl⟩
  rw [List.getLast?_concat, ← same]
  exact ⟨fun ends => ends token rfl, fun ends other isLast => by cases isLast; exact ends⟩

end Form

/-!
## Reading a value at the front
-/

namespace Form

/-- A value at the front of bytes is read, and the reading goes on behind it. -/
theorem Leads.read {form : Form} {front rest : List UInt8} (leads : form.Leads front rest)
    (limit start : Nat) :
    Exists fun node : Node => node.Holds form ∧ forall frames,
      Reading.grow (Token.scan limit none start (front ++ rest)) (.value frames) =
        Reading.grow (Token.scan limit none (start + front.length) rest)
          (Reading.deliver node frames) := by
  rcases Layout.placed leads.written start with ⟨tokens, placed, spelled⟩
  rcases form.spanned spelled with ⟨node, holds, spans⟩
  have separated : Separated (tokens.map Token.lexeme) := by
    have closed := form.separated_lexemes [] trivial trivial
    rwa [List.append_nil, ← spelled] at closed
  refine ⟨node, holds, fun frames => ?_⟩
  rw [placed.scan_front separated ((ends_iff spelled rest).mpr leads.ends), Reading.grow_append,
    Reading.grow_spans spans]

/-- Where no value stands at the front of bytes, the reading breaks off. -/
theorem breaks_of_no_lead {limit start : Nat} {failure : Option String} {bytes : List UInt8}
    (none_leads : forall (form : Form) (front rest : List UInt8), bytes = front ++ rest ->
      ¬ form.Leads front rest) :
    Exists fun node : Node => node.Breaks ∧ forall frames,
      Reading.grow (Token.scan limit failure start bytes) (.value frames) =
        Reading.breakOff node frames := by
  rcases Token.scan_ends limit start failure bytes with ⟨before, last, scanned, isLast⟩
  rcases Reading.step_last isLast (Reading.grow before (.value [])) with ⟨root, trailing, grown⟩
  have whole : Reading.grow (Token.scan limit failure start bytes) (.value []) =
      .done root trailing := by
    rw [scanned, Reading.grow_append, Reading.grow_cons, Reading.grow_nil, grown]
  have seen := Reading.seen_grow (.value .root) (Token.scan limit failure start bytes)
  rw [whole, List.nil_append] at seen
  generalize isSeen : (Token.scan limit failure start bytes).map Token.lexeme = lexemes at seen
  cases seen with
  | @done root form token later holds =>
      exfalso
      rcases List.map_eq_append_iff.mp isSeen with ⟨first, others, split, spelled, isRest⟩
      rcases List.map_eq_cons_iff.mp isRest with ⟨next, behind, rfl, _, _⟩
      have someToken : first ≠ [] := by
        rintro rfl
        exact form.lexemes_ne_nil spelled.symm
      rcases Token.scan_split someToken split with
        ⟨front, rest, isFront, placed, ends, unpadded⟩
      have written : form.Written front := by
        rw [Form.Written, ← spelled]
        exact placed.layout
      exact none_leads form front rest isFront ⟨written, unpadded, (ends_iff spelled rest).mp ends⟩
  | broken breaks => exact ⟨root, breaks, fun frames => Reading.grow_within frames whole⟩

end Form

end Json
end RepoInspector
