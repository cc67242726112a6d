import RepoInspector.Proofs.Json.Growth

namespace RepoInspector
namespace Json

/-!
# What trees are made of

A tree holds no token that the document does not have.  So whatever is true of
each token of a document is true of each token in its tree, be the document
grammatical or not.  Every step of a reading puts the token that it takes
somewhere or drops it, and keeps what it has.
-/

variable {holds : Token -> Prop}

def ArrayEnd.Each (holds : Token -> Prop) : ArrayEnd -> Prop
  | .closed token | .afterComma token | .unseparated token => holds token
  | .broken => True

def ObjectEnd.Each (holds : Token -> Prop) : ObjectEnd -> Prop
  | .closed token | .keyless _ token | .unseparated token => holds token
  | .broken => True

structure Key.Each (holds : Token -> Prop) (key : Key) : Prop where
  name : holds key.name
  next : holds key.next

/-- A property that every token in a node has. -/
inductive Node.Each (holds : Token -> Prop) : Node -> Prop
  | leaf {token : Token} (here : holds token) : Each holds (.leaf token)
  | array {start : Token} {items : List Node} {ending : ArrayEnd} (opened : holds start)
      (inner : ∀ item ∈ items, Each holds item) (ended : ending.Each holds) :
      Each holds (.array start items ending)
  | object {start : Token} {members : List (Key × Node)} {ending : ObjectEnd}
      (opened : holds start) (keys : ∀ member ∈ members, member.1.Each holds)
      (inner : ∀ member ∈ members, Each holds member.2) (ended : ending.Each holds) :
      Each holds (.object start members ending)

/-- A property that every token in members has. -/
structure MembersEach (holds : Token -> Prop) (members : List (Key × Node)) : Prop where
  keys : ∀ member ∈ members, member.1.Each holds
  inner : ∀ member ∈ members, member.2.Each holds

theorem MembersEach.nil : MembersEach holds [] := ⟨fun _ => (nomatch ·), fun _ => (nomatch ·)⟩

theorem MembersEach.cons {key : Key} {node : Node} {members : List (Key × Node)}
    (named : key.Each holds) (each : node.Each holds) (others : MembersEach holds members) :
    MembersEach holds ((key, node) :: members) :=
  ⟨List.forall_mem_cons.mpr ⟨named, others.keys⟩, List.forall_mem_cons.mpr ⟨each, others.inner⟩⟩

theorem MembersEach.reverse {members : List (Key × Node)} (each : MembersEach holds members) :
    MembersEach holds members.reverse :=
  ⟨fun member listed => each.keys member (List.mem_reverse.mp listed),
    fun member listed => each.inner member (List.mem_reverse.mp listed)⟩

theorem Node.Each.ofMembers {start : Token} {members : List (Key × Node)} {ending : ObjectEnd}
    (opened : holds start) (each : MembersEach holds members) (ended : ending.Each holds) :
    (Node.object start members ending).Each holds :=
  .object opened each.keys each.inner ended

/-- Items are collected latest first. -/
theorem Node.Each.ofItems {start : Token} {items : List Node} {ending : ArrayEnd}
    (opened : holds start) (each : ∀ item ∈ items, item.Each holds) (ended : ending.Each holds) :
    (Node.array start items.reverse ending).Each holds :=
  .array opened (fun item listed => each item (List.mem_reverse.mp listed)) ended

def Frame.Each (holds : Token -> Prop) : Frame -> Prop
  | .array start items => holds start ∧ ∀ item ∈ items, item.Each holds
  | .object start members key => holds start ∧ MembersEach holds members ∧ key.Each holds

namespace Reading

/-- A property that every token has which a reading has kept. -/
def Each (holds : Token -> Prop) : Reading -> Prop
  | .value frames => ∀ frame ∈ frames, frame.Each holds
  | .firstItem start frames => holds start ∧ ∀ frame ∈ frames, frame.Each holds
  | .item start items frames | .nextItem start items frames =>
      holds start ∧ (∀ item ∈ items, item.Each holds) ∧ ∀ frame ∈ frames, frame.Each holds
  | .keyOrEnd start members _ frames | .member start members frames =>
      holds start ∧ MembersEach holds members ∧ ∀ frame ∈ frames, frame.Each holds
  | .colon start members name frames =>
      holds start ∧ MembersEach holds members ∧ holds name ∧ ∀ frame ∈ frames, frame.Each holds
  | .finished root => root.Each holds
  | .done root trailing => root.Each holds ∧ ∀ token ∈ trailing, holds token

theorem each_deliver {node : Node} {frames : List Frame} (each : node.Each holds)
    (around : ∀ frame ∈ frames, frame.Each holds) : (deliver node frames).Each holds := by
  match frames with
  | [] => exact each
  | .array start items :: frames =>
      have ⟨⟨opened, items⟩, outside⟩ := List.forall_mem_cons.mp around
      exact ⟨opened, List.forall_mem_cons.mpr ⟨each, items⟩, outside⟩
  | .object start members key :: frames =>
      have ⟨⟨opened, members, named⟩, outside⟩ := List.forall_mem_cons.mp around
      exact ⟨opened, members.cons named each, outside⟩

theorem each_breakOff {node : Node} {frames : List Frame} (each : node.Each holds)
    (around : ∀ frame ∈ frames, frame.Each holds) : (breakOff node frames).Each holds := by
  refine ⟨?_, fun _ => (nomatch ·)⟩
  induction frames generalizing node with
  | nil => exact each
  | cons frame frames inductionHypothesis =>
      have ⟨first, outside⟩ := List.forall_mem_cons.mp around
      refine inductionHypothesis ?_ outside
      cases frame with
      | array start items =>
          exact .ofItems first.1 (List.forall_mem_cons.mpr ⟨each, first.2⟩) trivial
      | object start members key =>
          exact .ofMembers first.1 (first.2.1.cons first.2.2 each).reverse trivial

theorem each_takeValue {frames : List Frame} {token : Token} (taken : holds token)
    (around : ∀ frame ∈ frames, frame.Each holds) : (takeValue frames token).Each holds := by
  unfold takeValue
  split
  case h_1 => exact ⟨taken, around⟩
  case h_2 => exact ⟨taken, .nil, around⟩
  case h_3 | h_4 | h_5 => exact each_deliver (.leaf taken) around
  case h_6 =>
    split
    · exact each_deliver (.leaf taken) around
    · exact each_breakOff (.leaf taken) around
  case h_7 => exact each_breakOff (.leaf taken) around

/-- A name that breaks off stands for the key and for the value as well. -/
theorem each_brokenMember {start name token : Token} {members : List (Key × Node)}
    {frames : List Frame} (opened : holds start) (each : MembersEach holds members)
    (named : holds name) (taken : holds token) (around : ∀ frame ∈ frames, frame.Each holds) :
    (breakOff (.object start ((⟨name, token⟩, .leaf token) :: members).reverse .broken)
      frames).Each holds :=
  each_breakOff (.ofMembers opened (each.cons ⟨named, taken⟩ (.leaf taken)).reverse trivial) around

theorem each_takeKey {start : Token} {members : List (Key × Node)} {comma : Bool}
    {frames : List Frame} {token : Token} (opened : holds start)
    (each : MembersEach holds members) (taken : holds token)
    (around : ∀ frame ∈ frames, frame.Each holds) :
    (takeKey start members comma frames token).Each holds := by
  unfold takeKey
  split
  case h_1 =>
    split
    · exact ⟨opened, each, taken, around⟩
    · exact each_brokenMember opened each taken taken around
  case h_2 => exact each_deliver (.ofMembers opened each.reverse taken) around
  case h_3 => exact each_breakOff (.ofMembers opened each.reverse taken) around

/-- A step keeps what a reading has and takes one token. -/
theorem each_step {reading : Reading} {token : Token} (before : reading.Each holds)
    (taken : holds token) : (step token reading).Each holds := by
  cases reading with
  | value frames => exact each_takeValue taken before
  | firstItem start frames =>
      have ⟨opened, around⟩ := before
      have none : ∀ item ∈ ([] : List Node), item.Each holds := fun _ => (nomatch ·)
      simp only [step]
      split
      · exact each_deliver (.array opened none taken) around
      · exact each_breakOff (.array opened none taken) around
      · exact each_takeValue taken (List.forall_mem_cons.mpr ⟨⟨opened, none⟩, around⟩)
  | item start items frames =>
      have ⟨opened, each, around⟩ := before
      simp only [step]
      split
      · exact ⟨opened, each, around⟩
      · exact each_deliver (.ofItems opened each taken) around
      · exact each_breakOff (.ofItems opened each taken) around
  | nextItem start items frames =>
      have ⟨opened, each, around⟩ := before
      simp only [step]
      split
      · exact each_breakOff (.ofItems opened each taken) around
      · exact each_takeValue taken (List.forall_mem_cons.mpr ⟨⟨opened, each⟩, around⟩)
  | keyOrEnd start members comma frames =>
      have ⟨opened, each, around⟩ := before
      exact each_takeKey opened each taken around
  | colon start members name frames =>
      have ⟨opened, each, named, around⟩ := before
      simp only [step]
      split
      · exact List.forall_mem_cons.mpr ⟨⟨opened, each, named, taken⟩, around⟩
      · exact each_brokenMember opened each named taken around
  | member start members frames =>
      have ⟨opened, each, around⟩ := before
      simp only [step]
      split
      · exact ⟨opened, each, around⟩
      · exact each_deliver (.ofMembers opened each.reverse taken) around
      · exact each_breakOff (.ofMembers opened each.reverse taken) around
  | finished root => exact ⟨before, fun _ same => Option.mem_some.mp same ▸ taken⟩
  | done root trailing => exact before

theorem each_grow {reading : Reading} {tokens : List Token} (before : reading.Each holds)
    (taken : ∀ token ∈ tokens, holds token) : (grow tokens reading).Each holds := by
  induction tokens generalizing reading with
  | nil => exact before
  | cons token tokens inductionHypothesis =>
      have ⟨first, others⟩ := List.forall_mem_cons.mp taken
      exact inductionHypothesis (each_step before first) others

end Reading

/-- What is true of the tokens of a document is true of those in its tree. -/
theorem Supply.each_tree (supply : Supply) (all : ∀ token ∈ supply.tokens, holds token) :
    supply.tree.root.Each holds ∧ ∀ token ∈ supply.tree.trailing, holds token := by
  rcases supply.grow_tokens with ⟨root, trailing, grown⟩
  have nothing : (Reading.value []).Each holds := fun _ => (nomatch ·)
  have each := Reading.each_grow nothing all
  rw [grown] at each
  rw [Supply.tree_of_done grown]
  exact each

end Json
end RepoInspector
