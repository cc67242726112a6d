import RepoInspector.Proofs.Json.Faults
import RepoInspector.Proofs.Record.Shapes

namespace RepoInspector
namespace Record

open Json

/-!
# The faults of records in texts

Reading a record adds mismatches to the faults of its document, each with a
place that both media know.  So a codec has no other faults than its tokens and
the codecs of its fields, of whatever sort these are.  In a text they lie in
what the text says.
-/

theorem near_arrayMark (ending : ArrayEnd) : (arrayMark ending).Near := by
  cases ending with
  | closed close => exact Mark.near_after _
  | afterComma next | unseparated next => exact next.near_closingMark
  | broken => exact Mark.near_after _

theorem near_objectMark (ending : ObjectEnd) : (objectMark ending).Near := by
  cases ending with
  | closed close => exact Mark.near_after _
  | keyless comma next => exact next.near_closingMark
  | unseparated next => exact next.near_closingMark
  | broken => exact Mark.near_after _

theorem located_confined {may : Fault -> Prop} {α : Type} {mark : Mark}
    (placed : forall mismatch, may (.ofMismatch mismatch mark)) (result : Except Mismatch α) :
    Confined may (located mark result) := by
  cases result with
  | ok a => exact .ok a
  | error mismatch => exact .error (placed mismatch)

theorem located_inherently {α : Type} {mark : Mark} (near : mark.Near)
    (result : Except Mismatch α) : Inherently (located mark result) :=
  located_confined (fun mismatch => Fault.inherent_ofMismatch mismatch near) result

/-- A codec fails on such tokens with no other faults than these. -/
def Codec.Confined {α : Type} (may : Fault -> Prop) (among : Token -> Prop) (codec : Codec α) :
    Prop :=
  forall (allowance : Nat) (node : Node), node.Each among ->
    Json.Confined may (codec.read allowance node)

section Sorts

variable {may : Fault -> Prop} {among : Token -> Prop} (tokens : TokensConfined may among)

include tokens

theorem refuseScalar_confined {α : Type} (name : String) {token : Token} (here : among token) :
    Confined may (refuseScalar name token : Except Fault α) :=
  (tokens.read here).bind fun _ _ => .error (tokens.mismatch _ token.near_scalarMark)

theorem Others.read_confined (others : Others) (allowance : Nat) {node : Node}
    (each : node.Each among) : Confined may (others.read allowance node) := by
  cases others with
  | passed => exact (tokens.nodePass each).bind fun _ _ => .ok _
  | buffered => exact (tokens.nodeBuffer each allowance).bind fun _ _ => .ok _

theorem arrayEnds_confined (rest : List Node) {ending : ArrayEnd} (ended : ending.Each among) :
    Confined may (arrayEnds rest ending) := by
  match rest, ending with
  | _ :: _, _ => exact .error (tokens.structural trivial)
  | [], .closed _ | [], .broken => exact .ok ()
  | [], .afterComma _ => exact .error (tokens.structural trivial)
  | [], .unseparated next => exact .error (tokens.unexpected ended rfl trivial)

namespace Codec

variable {α β : Type}

omit tokens in
theorem Confined.through {codec : Codec α} (inner : codec.Confined may among) (forth : α -> β)
    (back : β -> α) : (codec.through forth back).Confined may among :=
  fun allowance node each => (inner allowance node each).map forth

omit tokens in
theorem Confined.optional {codec : Codec α} (inner : codec.Confined may among) :
    codec.optional.Confined may among := by
  intro allowance node each
  simp only [Codec.optional]
  split
  · exact .ok none
  · exact (inner allowance node each).map some

theorem scalar_confined (expected : Expectation) (interpret : Value -> Except Mismatch α)
    (write : α -> Value) : (scalar expected interpret write).Confined may among := by
  intro allowance node each
  cases each with
  | @leaf token here =>
      refine (tokens.read here).bind fun _ _ => located_confined (fun mismatch => ?_) _
      exact tokens.mismatch mismatch token.near_scalarMark
  | array | object => exact .error (tokens.mismatch _ (Mark.near_facing _))

end Codec

omit tokens in
theorem fill?_confined {fields : List Field} {slots : Slots fields} {name : String}
    {repeated : Fault} (again : may repeated)
    {read : (field : Field) -> Except Fault field.Stored}
    (reads : ∀ field ∈ fields, Confined may (read field)) {result : Except Fault (Slots fields)}
    (filled : slots.fill? name repeated read = some result) : Confined may result := by
  induction fields with
  | nil => cases filled
  | cons field fields inductionHypothesis =>
      have ⟨first, others⟩ := List.forall_mem_cons.mp reads
      rcases Slots.fill?_cons filled with rfl | rfl | ⟨rest, inner, rfl⟩
      · exact .error again
      · exact first.map _
      · exact (inductionHypothesis others inner).map _

variable {fields : List Field} (codecs : ∀ field ∈ fields, field.codec.Confined may among)

include codecs

theorem readMembers_confined (others : Others) (allowance : Nat) {members : List (Key × Node)}
    (keys : ∀ member ∈ members, member.1.Each among)
    (inner : ∀ member ∈ members, member.2.Each among) (slots : Slots fields) :
    Confined may (readMembers others allowance slots members) := by
  induction members generalizing slots with
  | nil => exact .ok (slots, [])
  | cons member members inductionHypothesis =>
      rcases member with ⟨key, node⟩
      have ⟨named, otherKeys⟩ := List.forall_mem_cons.mp keys
      have ⟨each, otherNodes⟩ := List.forall_mem_cons.mp inner
      have rest := inductionHypothesis otherKeys otherNodes
      refine (tokens.keyRead named).bind fun name _ => ?_
      simp only
      split
      case h_1 result filled =>
        have again := tokens.mismatch (.repeated name) key.next.near_closingMark
        have reads : ∀ field ∈ fields, Confined may (key.colon >>= fun _ =>
            field.codec.read allowance node) := fun field listed =>
          (tokens.colon named).bind fun _ _ => codecs field listed allowance node each
        exact (fill?_confined again reads filled).bind fun slots _ => rest slots
      case h_2 =>
        refine (tokens.colon named).bind fun _ _ => ?_
        refine (others.read_confined tokens allowance each).bind fun kept _ => ?_
        refine (rest slots).bind fun _ _ => ?_
        cases kept <;> exact .ok _

theorem readItems_confined (allowance : Nat) (tooShort : Nat -> Mismatch) {ending : ArrayEnd}
    (ended : ending.Each among) (index : Nat) {items : List Node}
    (each : ∀ item ∈ items, item.Each among) :
    Confined may (readItems allowance tooShort ending fields index items) := by
  induction fields generalizing index items with
  | nil => exact (arrayEnds_confined tokens items ended).bind fun _ _ => .ok ()
  | cons field fields inductionHypothesis =>
      rcases List.forall_mem_cons.mp codecs with ⟨first, others⟩
      cases items with
      | nil =>
          refine (tokens.arrayEnd_read ended).bind fun _ _ => ?_
          split
          · exact .error (tokens.mismatch _ (near_arrayMark ending))
          · exact (inductionHypothesis others (index + 1) each).bind fun _ _ => .ok _
      | cons item items =>
          rcases List.forall_mem_cons.mp each with ⟨here, later⟩
          refine (first allowance item here).bind fun _ _ => ?_
          exact (inductionHypothesis others (index + 1) later).bind fun _ _ => .ok _

theorem Codec.record_confined (name : String) : (Codec.record name fields).Confined may among := by
  intro allowance node each
  cases each with
  | leaf here => exact refuseScalar_confined tokens name here
  | array isStart inner ended =>
      cases allowance with
      | zero => exact .error (tokens.structural trivial)
      | succ allowance => exact readItems_confined tokens codecs allowance _ ended 0 inner
  | object isStart keys inner ended =>
      cases allowance with
      | zero => exact .error (tokens.structural trivial)
      | succ allowance =>
          refine (readMembers_confined tokens codecs .passed allowance keys inner _).bind
            fun _ _ => (tokens.objectEnd_read ended).bind fun _ _ => ?_
          exact located_confined (fun mismatch => tokens.mismatch mismatch (near_objectMark _)) _

theorem Codec.extending_confined {β : Type} (name : String)
    (inner : List (String × Value) -> Except Mismatch β)
    (innerMembers : β -> List (String × Value)) :
    (Codec.extending name fields inner innerMembers).Confined may among := by
  intro allowance node each
  cases each with
  | leaf here => exact refuseScalar_confined tokens name here
  | array => exact .error (tokens.mismatch _ (Mark.near_facing _))
  | object isStart keys nodes ended =>
      cases allowance with
      | zero => exact .error (tokens.structural trivial)
      | succ allowance =>
          refine (readMembers_confined tokens codecs .buffered allowance keys nodes _).bind
            fun _ _ => (tokens.objectEnd_read ended).bind fun _ _ => ?_
          exact located_confined (fun mismatch => tokens.mismatch mismatch (near_objectMark _)) _

omit codecs in
theorem Codec.Shaped.confined {α : Type} {codec : Codec α} {shape : Shape}
    (shaped : codec.Shaped shape) : codec.Confined may among := by
  induction shaped with
  | text | boolean | unsigned | instant => exact scalar_confined tokens _ _ _
  | optional _ inner => exact inner.optional
  | through _ forth back inner => exact inner.through forth back
  | record name _ _ _ _ codecs => exact record_confined tokens codecs name

end Sorts

/-!
## Documents that are texts
-/

/-- Whatever is wrong with data in a text lies in what the text says. -/
def Codec.Inherent {α : Type} (codec : Codec α) : Prop :=
  forall (allowance : Nat) (node : Node), node.Each Token.OfText ->
    Inherently (codec.read allowance node)

def InherentFields (fields : List Field) : Prop := ∀ field ∈ fields, field.codec.Inherent

theorem Codec.Inherent.through {α β : Type} {codec : Codec α} (inherent : codec.Inherent)
    (forth : α -> β) (back : β -> α) : (codec.through forth back).Inherent :=
  Codec.Confined.through inherent forth back

theorem Codec.extending_inherent {β : Type} {fields : List Field} (name : String)
    (inherent : InherentFields fields) (inner : List (String × Value) -> Except Mismatch β)
    (innerMembers : β -> List (String × Value)) :
    (Codec.extending name fields inner innerMembers).Inherent :=
  extending_confined Token.ofText_confined inherent name inner innerMembers

theorem Codec.Shaped.inherent {α : Type} {codec : Codec α} {shape : Shape}
    (shaped : codec.Shaped shape) : codec.Inherent :=
  shaped.confined Token.ofText_confined

theorem ShapedFields.inherent {fields : List Field} {inner : String -> Shape}
    (shaped : ShapedFields fields inner) : InherentFields fields :=
  fun field listed => (shaped field listed).inherent

end Record
end RepoInspector
