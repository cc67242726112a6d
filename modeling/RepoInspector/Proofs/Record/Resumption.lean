import RepoInspector.Proofs.Json.ResumedReading
import RepoInspector.Proofs.Record.Cuts

namespace RepoInspector
namespace Record

open Json

/-!
# Reading records that go on

A record is not read to its end when its document breaks off, and the data that
was read before is read again when the document goes on.  So what is wrong with
it is wrong for good.  Only the last item of an array that is read as a record
needs care: whatever follows the comma behind the last field is too much, and
so is nothing.
-/

/-- Whatever a codec blames in what breaks off, it blames in all that this goes on as. -/
def Codec.Persists {α : Type} (codec : Codec α) : Prop :=
  forall allowance : Nat, Json.Persists (codec.read allowance)

namespace Codec

variable {α β : Type}

/-- A codec reports of a failed scalar why it was not read. -/
theorem Stops.failed {codec : Codec α} (stops : codec.Stops) {token : Token}
    (failed : token.lexeme.Failed) (allowance : Nat) (second : Except Fault α) :
    BreaksOff (codec.read allowance (.leaf token)) second := by
  rcases Token.read_failed failed with ⟨fault, isFault, other⟩
  rw [stops.unread isFault]
  exact .of_not_ofContent other second

theorem scalar_persists (expected : Expectation) (interpret : Value -> Except Mismatch α)
    (write : α -> Value) : (scalar expected interpret write).Persists := by
  intro allowance first second resumed
  cases resumed with
  | failed failed =>
      rcases Token.read_failed failed with ⟨fault, isFault, other⟩
      simp only [scalar, isFault]
      exact .of_not_ofContent other _
  | text resumed => exact (Token.read_text resumed).bind _ _
  | array | object => exact .of_cause rfl

theorem Persists.through {codec : Codec α} (persists : codec.Persists) (forth : α -> β)
    (back : β -> α) : (codec.through forth back).Persists :=
  fun allowance _ _ resumed => (persists allowance resumed).map forth forth

theorem Persists.optional {codec : Codec α} (persists : codec.Persists) (stops : codec.Stops) :
    codec.optional.Persists := by
  intro allowance first second resumed
  have inner := (persists allowance resumed).map some some
  cases resumed with
  | failed failed => exact stops.optional.failed failed allowance _
  | @text first second text =>
      have notNull : forall {token : Token}, token.lexeme ≠ .null -> forall start stop,
          Node.leaf token ≠ .leaf ⟨.null, start, stop⟩ := by
        rintro token other start stop same
        cases same
        exact other rfl
      rw [optional_read_other (notNull text.ne_null.1),
        optional_read_other (notNull text.ne_null.2)]
      exact inner
  | array | object => exact inner

end Codec

/-- A member that breaks off, or whose name was met before, fills a slot as what it goes on as
does, or no field asks for either. -/
theorem Slots.fill?_resumed {fields : List Field} (slots : Slots fields) (name : String)
    {repeated again : Fault} (same : repeated.cause = again.cause)
    {read other : (field : Field) -> Except Fault field.Stored}
    (breaks : ∀ field ∈ fields, BreaksOff (read field) (other field)) :
    slots.fill? name repeated read = none ∧ slots.fill? name again other = none ∨
      Exists fun first => Exists fun second => slots.fill? name repeated read = some first ∧
        slots.fill? name again other = some second ∧ BreaksOff first second := by
  induction fields with
  | nil => exact .inl ⟨rfl, rfl⟩
  | cons field fields inductionHypothesis =>
      rcases slots with ⟨slot, slots⟩
      rcases List.forall_mem_cons.mp breaks with ⟨here, others⟩
      simp only [Slots.fill?]
      by_cases named : field.name = name
      · simp only [if_pos named]
        cases slot with
        | some stored => exact .inr ⟨_, _, rfl, rfl, .of_cause same⟩
        | none => exact .inr ⟨_, _, rfl, rfl, here.map _ _⟩
      · simp only [if_neg named]
        rcases inductionHypothesis slots others with
          ⟨unknown, alsoUnknown⟩ | ⟨first, second, filled, alsoFilled, inner⟩
        · exact .inl ⟨by rw [unknown], by rw [alsoUnknown]⟩
        · exact .inr ⟨_, _, by rw [filled], by rw [alsoFilled], inner.map _ _⟩

theorem Others.read_persists (others : Others) (allowance : Nat) :
    Json.Persists (others.read allowance) := by
  intro first second resumed
  cases others with
  | passed => exact (Node.pass_resumed resumed).bind _ _
  | buffered => exact (Node.buffer_resumed resumed allowance).bind _ _

section Fields

variable {fields : List Field} (persists : ∀ field ∈ fields, field.codec.Persists)
  (stopping : StoppingFields fields) {α : Type}

include persists

/-- A member whose name is the same goes on as another one does, if its value or the colon
before it breaks off. -/
theorem readMembers_member (kind : Others) (allowance : Nat) (slots : Slots fields)
    {first second : Key} (sameName : first.read = second.read) (node other : Node)
    (breaks : forall {β : Type} {reader : Node -> Except Fault β}, Json.Persists reader ->
      BreaksOff (first.colon >>= fun _ => reader node) (second.colon >>= fun _ => reader other))
    (members others : List (Key × Node)) :
    BreaksOff (readMembers kind allowance slots ((first, node) :: members))
      (readMembers kind allowance slots ((second, other) :: others)) := by
  simp only [readMembers, sameName]
  refine .behind _ fun name _ => ?_
  have sameCause : (Fault.ofMismatch (.repeated name) first.next.closingMark).cause =
      (Fault.ofMismatch (.repeated name) second.next.closingMark).cause := rfl
  rcases slots.fill?_resumed name sameCause fun field listed =>
    breaks (persists field listed allowance) with
    ⟨unknown, alsoUnknown⟩ | ⟨result, later, filled, alsoFilled, inner⟩
  · simp only [unknown, alsoUnknown]
    rw [← bind_assoc, ← bind_assoc]
    exact (breaks (kind.read_persists allowance)).bind _ _
  · simp only [filled, alsoFilled]
    exact inner.bind _ _

theorem readMembers_resumed (kind : Others) (allowance : Nat) (slots : Slots fields)
    {members others : List (Key × Node)} {ending otherEnding : ObjectEnd}
    (resumed : Node.MembersResumed members ending others otherEnding)
    (next other : Slots fields × List (String × Value) -> Unit -> Except Fault α) :
    BreaksOff
      (readMembers kind allowance slots members >>= fun taken => ending.read >>= next taken)
      (readMembers kind allowance slots others >>= fun taken =>
        otherEnding.read >>= other taken) := by
  induction members generalizing slots others next other with
  | nil =>
      cases resumed with
      | ends isFinish stops =>
          rcases Node.MembersResumed.ends_read isFinish stops with ⟨fault, isFault, unblamed⟩
          simp only [readMembers, ok_bind, isFault]
          exact .of_not_ofContent unblamed _
      | unseparated resumed =>
          exact resumed.objectEnd_read.bind (next (slots, [])) (other (slots, []))
      | keyless comma resumed =>
          exact (resumed.keyless_read comma).bind (next (slots, [])) (other (slots, []))
  | cons member members inductionHypothesis =>
      cases resumed with
      | name resumed => exact ((Key.read_text resumed).bind _ _).bind _ _
      | @colon name firstNext secondNext resumed node another others =>
          have sameName : Key.read ⟨name, firstNext⟩ = Key.read ⟨name, secondNext⟩ := rfl
          have breaks := readMembers_member persists kind allowance slots sameName node another
            (fun _ => (Key.colon_resumed resumed).bind _ _) [] others
          exact breaks.bind _ _
      | @value key node another resumed others =>
          have breaks := readMembers_member persists kind allowance slots (Eq.refl key.read) node
            another (fun reads => .behind key.colon fun _ _ => reads resumed) [] others
          exact breaks.bind _ _
      | later _ rest =>
          rcases member with ⟨key, node⟩
          simp only [readMembers, bind_assoc]
          refine .behind _ fun name _ => ?_
          split
          · simp only [bind_assoc]
            exact .behind _ fun slots _ => inductionHypothesis slots rest next other
          · simp only [bind_assoc]
            refine .behind _ fun _ _ => .behind _ fun kept _ => ?_
            cases kept with
            | none => exact inductionHypothesis slots rest next other
            | some value => exact inductionHypothesis slots rest _ _

include stopping

theorem readItems_resumed (allowance : Nat) (tooShort : Nat -> Mismatch) (index : Nat)
    {items others : List Node} {ending otherEnding : ArrayEnd}
    (resumed : Node.ItemsResumed items ending others otherEnding) :
    BreaksOff (readItems allowance tooShort ending fields index items)
      (readItems allowance tooShort otherEnding fields index others) := by
  induction fields generalizing index items others with
  | nil =>
      cases resumed with
      | ends isFinish => exact .of_not_ofContent (Token.unexpected_finish isFinish rfl _) _
      | unseparated resumed => exact (Token.unexpected_resumed resumed rfl _).bind _ _
      | afterComma | item | later => exact .of_ofContent _ (.inl rfl)
  | cons field fields inductionHypothesis =>
      rcases List.forall_mem_cons.mp persists with ⟨first, further⟩
      rcases List.forall_mem_cons.mp stopping with ⟨stops, stopsFurther⟩
      cases resumed with
      | ends isFinish => exact .of_not_ofContent (Token.unexpected_finish isFinish rfl _) _
      | unseparated resumed => exact resumed.arrayEnd_read.bind _ _
      | afterComma failed close =>
          rcases Token.read_failed failed with ⟨fault, isFault, other⟩
          simp only [readItems, stops.unread isFault]
          exact .of_not_ofContent other _
      | item resumed => exact (first allowance resumed).bind _ _
      | later item rest =>
          exact .behind _ fun _ _ =>
            (inductionHypothesis further stopsFurther (index + 1) rest).bind _ _

/-!
## Records
-/

theorem Codec.record_persists (name : String) : (Codec.record name fields).Persists := by
  intro allowance first second resumed
  have stops := Codec.record_stops name stopping
  cases resumed with
  | failed failed => exact stops.failed failed allowance _
  | text resumed => exact (Token.read_text resumed).bind _ _
  | array _ inner =>
      cases allowance with
      | zero => exact .of_cause rfl
      | succ allowance => exact readItems_resumed persists stopping allowance _ 0 inner
  | object _ inner =>
      cases allowance with
      | zero => exact .of_cause rfl
      | succ allowance => exact readMembers_resumed persists .passed allowance _ inner _ _

theorem Codec.extending_persists {β : Type} (name : String)
    (inner : List (String × Value) -> Except Mismatch β)
    (innerMembers : β -> List (String × Value)) :
    (Codec.extending name fields inner innerMembers).Persists := by
  intro allowance first second resumed
  have stops := Codec.extending_stops name stopping inner innerMembers
  cases resumed with
  | failed failed => exact stops.failed failed allowance _
  | text resumed => exact (Token.read_text resumed).bind _ _
  | array => exact .of_cause rfl
  | object _ inner =>
      cases allowance with
      | zero => exact .of_cause rfl
      | succ allowance => exact readMembers_resumed persists .buffered allowance _ inner _ _

end Fields

theorem Codec.Shaped.persists {α : Type} {codec : Codec α} {shape : Shape}
    (shaped : codec.Shaped shape) : codec.Persists := by
  induction shaped with
  | text | boolean | unsigned | instant => exact scalar_persists _ _ _
  | optional shaped persists => exact persists.optional shaped.stops
  | through _ forth back persists => exact persists.through forth back
  | record name _ _ _ each persists =>
      exact record_persists persists (fun field listed => (each field listed).stops) name

theorem ShapedFields.persists {fields : List Field} {inner : String -> Shape}
    (shaped : ShapedFields fields inner) : ∀ field ∈ fields, field.codec.Persists :=
  fun field listed => (shaped field listed).persists

/-- What a codec blames in the content of a supply that fails, it blames in every supply that
begins with it. -/
theorem Codec.Persists.ofDocument {α : Type} {codec : Codec α} (persists : codec.Persists)
    (bytes rest : List UInt8) (reason : String) (failure : Option String) :
    Foretells (codec.ofDocument ⟨bytes, some reason⟩)
      (codec.ofDocument ⟨bytes ++ rest, failure⟩) :=
  Supply.foretells (persists nestingAllowance) bytes rest reason failure

end Record
end RepoInspector
