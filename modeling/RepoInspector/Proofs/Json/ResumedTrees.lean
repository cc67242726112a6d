import RepoInspector.Proofs.Json.Resumption

namespace RepoInspector
namespace Json

/-!
# Trees of supplies that go on

The tree of a supply that fails breaks off where the failure stands, and the
tree of one that goes on is the same up to there.  What stands there can be
anything that the bytes before it allow.  The step of a reading is followed
here for a document that ends one token later, and the run is made of such
steps.
-/

mutual

/-- A node that breaks off, against what it goes on as. -/
inductive Node.Resumed : Node -> Node -> Prop
  | failed {token : Token} (failed : token.lexeme.Failed) (node : Node) :
      Resumed (.leaf token) node
  | text {first second : Token} (resumed : first.lexeme.TextResumed second.lexeme) :
      Resumed (.leaf first) (.leaf second)
  | array (start : Token) {items others : List Node} {ending otherEnding : ArrayEnd}
      (inner : Node.ItemsResumed items ending others otherEnding) :
      Resumed (.array start items ending) (.array start others otherEnding)
  | object (start : Token) {members others : List (Key × Node)} {ending otherEnding : ObjectEnd}
      (inner : Node.MembersResumed members ending others otherEnding) :
      Resumed (.object start members ending) (.object start others otherEnding)

/-- Items that break off, with how their array ends, against those that they go on as. -/
inductive Node.ItemsResumed : List Node -> ArrayEnd -> List Node -> ArrayEnd -> Prop
  | ends {finish : Token} {failure : Option String} (isFinish : finish.lexeme = .finish failure)
      (others : List Node) (otherEnding : ArrayEnd) :
      ItemsResumed [] (.unseparated finish) others otherEnding
  | unseparated {first second : Token} (resumed : first.lexeme.Resumed second.lexeme) :
      ItemsResumed [] (.unseparated first) [] (.unseparated second)
  | afterComma {token : Token} (failed : token.lexeme.Failed) (close : Token) :
      ItemsResumed [.leaf token] .broken [] (.afterComma close)
  | item {first second : Node} (resumed : Node.Resumed first second) (others : List Node)
      (otherEnding : ArrayEnd) : ItemsResumed [first] .broken (second :: others) otherEnding
  | later (item : Node) {items others : List Node} {ending otherEnding : ArrayEnd}
      (rest : Node.ItemsResumed items ending others otherEnding) :
      ItemsResumed (item :: items) ending (item :: others) otherEnding

/-- Members that break off, with how their object ends, against those that they go on as. -/
inductive Node.MembersResumed :
    List (Key × Node) -> ObjectEnd -> List (Key × Node) -> ObjectEnd -> Prop
  | ends {finish : Token} {failure : Option String} (isFinish : finish.lexeme = .finish failure)
      {ending : ObjectEnd} (stops : ending = .unseparated finish ∨
        Exists fun comma => ending = .keyless comma finish)
      (others : List (Key × Node)) (otherEnding : ObjectEnd) :
      MembersResumed [] ending others otherEnding
  | unseparated {first second : Token} (resumed : first.lexeme.Resumed second.lexeme) :
      MembersResumed [] (.unseparated first) [] (.unseparated second)
  | keyless (comma : Bool) {first second : Token}
      (resumed : first.lexeme.Resumed second.lexeme) :
      MembersResumed [] (.keyless comma first) [] (.keyless comma second)
  | name {first second : Key} (resumed : first.name.lexeme.TextResumed second.name.lexeme)
      (node other : Node) (others : List (Key × Node)) (otherEnding : ObjectEnd) :
      MembersResumed [(first, node)] .broken ((second, other) :: others) otherEnding
  | colon (name : Token) {first second : Token}
      (resumed : first.lexeme.Resumed second.lexeme) (node other : Node)
      (others : List (Key × Node)) (otherEnding : ObjectEnd) :
      MembersResumed [(⟨name, first⟩, node)] .broken ((⟨name, second⟩, other) :: others)
        otherEnding
  | value (key : Key) {first second : Node} (resumed : Node.Resumed first second)
      (others : List (Key × Node)) (otherEnding : ObjectEnd) :
      MembersResumed [(key, first)] .broken ((key, second) :: others) otherEnding
  | later (member : Key × Node) {members others : List (Key × Node)}
      {ending otherEnding : ObjectEnd}
      (rest : Node.MembersResumed members ending others otherEnding) :
      MembersResumed (member :: members) ending (member :: others) otherEnding

end

namespace Node

theorem ItemsResumed.behind (before : List Node) {items others : List Node}
    {ending otherEnding : ArrayEnd} (rest : ItemsResumed items ending others otherEnding) :
    ItemsResumed (before ++ items) ending (before ++ others) otherEnding := by
  induction before with
  | nil => exact rest
  | cons item before inductionHypothesis => exact .later item inductionHypothesis

theorem MembersResumed.behind (before : List (Key × Node)) {members others : List (Key × Node)}
    {ending otherEnding : ObjectEnd} (rest : MembersResumed members ending others otherEnding) :
    MembersResumed (before ++ members) ending (before ++ others) otherEnding := by
  induction before with
  | nil => exact rest
  | cons member before inductionHypothesis => exact .later member inductionHypothesis

/-- What breaks off behind all items goes on behind them. -/
theorem ItemsResumed.after (before : List Node) {others : List Node}
    {ending otherEnding : ArrayEnd} (rest : ItemsResumed [] ending others otherEnding) :
    ItemsResumed before ending (before ++ others) otherEnding := by
  have inner := rest.behind before
  rwa [List.append_nil] at inner

theorem MembersResumed.after (before : List (Key × Node)) {others : List (Key × Node)}
    {ending otherEnding : ObjectEnd} (rest : MembersResumed [] ending others otherEnding) :
    MembersResumed before ending (before ++ others) otherEnding := by
  have inner := rest.behind before
  rwa [List.append_nil] at inner

/-- The container of a node that breaks off goes on as the container of what that goes on as. -/
theorem Resumed.breakOff {first second : Node} (resumed : first.Resumed second) (frame : Frame) :
    (frame.breakOff first).Resumed (frame.breakOff second) := by
  cases frame with
  | array start items =>
      rw [Frame.breakOff, Frame.breakOff, List.reverse_cons, List.reverse_cons]
      exact .array start (.behind _ (.item resumed [] .broken))
  | object start members key =>
      rw [Frame.breakOff, Frame.breakOff, List.reverse_cons, List.reverse_cons]
      exact .object start (.behind _ (.value key resumed [] .broken))

end Node

/-- A reading that ends where the supply failed, against one that ends later. -/
inductive Reading.Resumed : Reading -> Reading -> Prop
  | same (reading : Reading) : Resumed reading reading
  | broken {first second : Node} (resumed : first.Resumed second) (trailing : Option Token) :
      Resumed (.done first none) (.done second trailing)
  | trailing (root : Node) {first second : Token}
      (resumed : first.lexeme.Resumed second.lexeme) :
      Resumed (.done root (some first)) (.done root (some second))

/-- A scalar, well formed or not. -/
def Lexeme.Scalar : Lexeme -> Prop
  | .null | .boolean _ | .number _ | .malformed _ _ | .text _ => True
  | _ => False

/-- What is begun where a supply failed is a scalar, and remains one. -/
theorem Lexeme.Resumed.cases {first second : Lexeme} (resumed : first.Resumed second) :
    (Exists fun failure => first = .finish failure) ∨ first.Scalar ∧ second.Scalar := by
  cases resumed with
  | finish failure => exact .inl ⟨failure, rfl⟩
  | scalar _ plain => exact .inr ⟨trivial, by cases second <;> trivial⟩
  | text resumed =>
      cases resumed
      exact .inr ⟨trivial, trivial⟩

namespace Lexeme

theorem Scalar.ne_arrayEnd {lexeme : Lexeme} (scalar : lexeme.Scalar) : lexeme ≠ .arrayEnd := by
  rintro rfl
  exact scalar

theorem Scalar.ne_finish {lexeme : Lexeme} (scalar : lexeme.Scalar) (failure : Option String) :
    lexeme ≠ .finish failure := by
  rintro rfl
  exact scalar

namespace Resumed

variable {first second : Lexeme} (resumed : first.Resumed second)

include resumed

/-- Only at the end of the bytes can anything but a scalar follow. -/
theorem ends (other : ¬ second.Scalar) : Exists fun failure => first = .finish failure := by
  rcases resumed.cases with ends | ⟨_, scalar⟩
  · exact ends
  · exact absurd scalar other

theorem ne_of_sign {sign : Lexeme} (noScalar : ¬ sign.Scalar)
    (noFinish : forall failure, sign ≠ .finish failure) : first ≠ sign := by
  rintro rfl
  rcases resumed.cases with ⟨failure, ends⟩ | ⟨scalar, _⟩
  · exact noFinish failure ends
  · exact noScalar scalar

theorem ne_comma : first ≠ .comma := resumed.ne_of_sign id nofun

theorem ne_colon : first ≠ .colon := resumed.ne_of_sign id nofun

theorem ne_arrayEnd : first ≠ .arrayEnd := resumed.ne_of_sign id nofun

theorem ne_objectEnd : first ≠ .objectEnd := resumed.ne_of_sign id nofun

end Resumed
end Lexeme

namespace Reading

section Others

variable {token : Token} {start : Token} {frames : List Frame}

theorem step_item_other (notComma : token.lexeme ≠ .comma) (notEnd : token.lexeme ≠ .arrayEnd)
    {items : List Node} : step token (.item start items frames) =
      breakOff (.array start items.reverse (.unseparated token)) frames := by
  rcases token with ⟨lexeme, start, stop⟩
  cases lexeme <;> first | rfl | contradiction

theorem step_member_other (notComma : token.lexeme ≠ .comma)
    (notEnd : token.lexeme ≠ .objectEnd) {members : List (Key × Node)} :
    step token (.member start members frames) =
      breakOff (.object start members.reverse (.unseparated token)) frames := by
  rcases token with ⟨lexeme, start, stop⟩
  cases lexeme <;> first | rfl | contradiction

theorem step_colon_other (notColon : token.lexeme ≠ .colon) {members : List (Key × Node)}
    {name : Token} : step token (.colon start members name frames) =
      breakOff (.object start ((⟨name, token⟩, .leaf token) :: members).reverse .broken)
        frames := by
  rcases token with ⟨lexeme, start, stop⟩
  cases lexeme <;> first | rfl | contradiction

end Others

variable {finish : Token} {failure : Option String} (isFinish : finish.lexeme = .finish failure)

theorem resumed_breakOff {first second : Node} (resumed : first.Resumed second)
    (frames : List Frame) : (breakOff first frames).Resumed (breakOff second frames) := by
  have whole : (frames.foldl Frame.breakOff first).Resumed
      (frames.foldl Frame.breakOff second) := by
    induction frames generalizing first second with
    | nil => exact resumed
    | cons frame frames inductionHypothesis => exact inductionHypothesis (resumed.breakOff frame)
  exact .broken whole none

include isFinish

/-- A node that breaks off, against a whole one at whose place it stands. -/
theorem resumed_deliver {first second : Node} (resumed : first.Resumed second)
    (frames : List Frame) :
    (breakOff first frames).Resumed (step finish (deliver second frames)) := by
  match frames with
  | [] => exact .broken resumed (some finish)
  | .array start items :: frames =>
      have goesOn : (Node.array start (items.reverse ++ [first]) .broken).Resumed
          (.array start (items.reverse ++ [second]) (.unseparated finish)) :=
        .array start (.behind _ (.item resumed [] _))
      simp only [deliver, step, isFinish, List.reverse_cons]
      rw [← List.reverse_cons] at goesOn
      exact resumed_breakOff goesOn frames
  | .object start members key :: frames =>
      have goesOn : (Node.object start (members.reverse ++ [(key, first)]) .broken).Resumed
          (.object start (members.reverse ++ [(key, second)]) (.unseparated finish)) :=
        .object start (.behind _ (.value key resumed [] _))
      simp only [deliver, step, isFinish, List.reverse_cons]
      rw [← List.reverse_cons] at goesOn
      exact resumed_breakOff goesOn frames

/-- What stands where a value is due, against any other token there. -/
theorem resumed_takeValue_failed {token : Token} (failed : token.lexeme.Failed) (second : Token)
    (frames : List Frame) :
    (breakOff (.leaf token) frames).Resumed (step finish (takeValue frames second)) := by
  have anything : forall node : Node,
      (breakOff (.leaf token) frames).Resumed (breakOff node frames) :=
    fun node => resumed_breakOff (.failed failed node) frames
  unfold takeValue
  split
  · simp only [step, isFinish]
    exact anything _
  · simp only [step, takeKey, isFinish]
    exact anything _
  · exact resumed_deliver isFinish (.failed failed _) frames
  · exact resumed_deliver isFinish (.failed failed _) frames
  · exact resumed_deliver isFinish (.failed failed _) frames
  · split
    · exact resumed_deliver isFinish (.failed failed _) frames
    · exact anything _
  · exact anything _

/-- A text that breaks off where a value is due. -/
theorem resumed_takeValue_text {first second : Token}
    (resumed : first.lexeme.TextResumed second.lexeme) (frames : List Frame) :
    (takeValue frames first).Resumed (step finish (takeValue frames second)) := by
  have goesOn : (Node.leaf first).Resumed (.leaf second) := .text resumed
  rcases first with ⟨firstLexeme, firstStart, firstStop⟩
  rcases second with ⟨secondLexeme, secondStart, secondStop⟩
  cases resumed with
  | intro isOpen _ =>
      simp only [takeValue, if_neg isOpen]
      split
      · exact resumed_deliver isFinish goesOn frames
      · exact resumed_breakOff goesOn frames

theorem resumed_takeValue {first second : Token} (resumed : first.lexeme.Resumed second.lexeme)
    (frames : List Frame) :
    (takeValue frames first).Resumed (step finish (takeValue frames second)) := by
  rcases first with ⟨lexeme, start, stop⟩
  cases resumed with
  | finish other =>
      have failed : (Token.mk (.finish other) start stop).lexeme.Failed := trivial
      exact resumed_takeValue_failed isFinish failed second frames
  | @scalar read pass _ failed =>
      have failed : (Token.mk (.malformed read pass) start stop).lexeme.Failed := failed
      exact resumed_takeValue_failed isFinish failed second frames
  | text resumed => exact resumed_takeValue_text isFinish resumed frames

/-- A value in an array leaves the array with one more item, whatever ends the document. -/
theorem step_takeValue_item (second start : Token) (items : List Node) (frames : List Frame) :
    Exists fun item => Exists fun ending =>
      step finish (takeValue (.array start items :: frames) second) =
        breakOff (.array start (items.reverse ++ [item]) ending) frames := by
  have inner : forall node : Node, breakOff node (.array start items :: frames) =
      breakOff (.array start (items.reverse ++ [node]) .broken) frames := by
    intro node
    rw [← List.reverse_cons]
    rfl
  have delivered : step finish (deliver (.leaf second) (.array start items :: frames)) =
      breakOff (.array start (items.reverse ++ [.leaf second]) (.unseparated finish)) frames := by
    rw [← List.reverse_cons]
    simp only [deliver, step, isFinish]
  unfold takeValue
  split
  · simp only [step, isFinish]
    exact ⟨_, _, inner _⟩
  · simp only [step, takeKey, isFinish]
    exact ⟨_, _, inner _⟩
  · exact ⟨_, _, delivered⟩
  · exact ⟨_, _, delivered⟩
  · exact ⟨_, _, delivered⟩
  · split
    · exact ⟨_, _, delivered⟩
    · exact ⟨_, _, inner _⟩
  · exact ⟨_, _, inner _⟩

/-- The end of the bytes where a name is due, against any token there. -/
theorem resumed_takeKey_finish {first : Token} {other : Option String}
    (isEnd : first.lexeme = .finish other) (second start : Token) (members : List (Key × Node))
    (comma : Bool) (frames : List Frame) :
    (breakOff (.object start members.reverse (.keyless comma first)) frames).Resumed
      (step finish (takeKey start members comma frames second)) := by
  have anything : forall others ending,
      (Node.object start members.reverse (.keyless comma first)).Resumed
        (.object start (members.reverse ++ others) ending) := fun others ending =>
    .object start (.after members.reverse (.ends isEnd (.inr ⟨comma, rfl⟩) others ending))
  have noMore : forall ending,
      (Node.object start members.reverse (.keyless comma first)).Resumed
        (.object start members.reverse ending) := by
    intro ending
    have goesOn := anything [] ending
    rwa [List.append_nil] at goesOn
  unfold takeKey
  split
  · split
    · rw [step_colon_other (by rw [isFinish]; rintro ⟨⟩), List.reverse_cons]
      exact resumed_breakOff (anything _ _) frames
    · rw [List.reverse_cons]
      exact resumed_breakOff (anything _ _) frames
  · exact resumed_deliver isFinish (noMore _) frames
  · exact resumed_breakOff (noMore _) frames

/-- A name that breaks off. -/
theorem resumed_takeKey_text {first second : Token}
    (resumed : first.lexeme.TextResumed second.lexeme) (start : Token)
    (members : List (Key × Node)) (comma : Bool) (frames : List Frame) :
    (takeKey start members comma frames first).Resumed
      (step finish (takeKey start members comma frames second)) := by
  have goesOn : forall (next : Token) (node : Node),
      (breakOff (.object start ((⟨first, first⟩, .leaf first) :: members).reverse .broken)
        frames).Resumed
      (breakOff (.object start ((⟨second, next⟩, node) :: members).reverse .broken) frames) := by
    intro next node
    have named : (Key.mk first first).name.lexeme.TextResumed (Key.mk second next).name.lexeme :=
      resumed
    have inner := Node.MembersResumed.behind members.reverse
      (.name named (.leaf first) node [] .broken)
    rw [← List.reverse_cons, ← List.reverse_cons] at inner
    exact resumed_breakOff (.object start inner) frames
  rcases first with ⟨firstLexeme, firstStart, firstStop⟩
  rcases second with ⟨secondLexeme, secondStart, secondStop⟩
  cases resumed with
  | intro isOpen _ =>
      simp only [takeKey, if_neg isOpen]
      split
      · rw [step_colon_other (isFinish ▸ nofun)]
        exact goesOn finish (.leaf finish)
      · exact goesOn _ _

/-!
The steps at every place of a container: at the end of the bytes anything can
follow, and a scalar that is begun there stands in the place of another one.
-/

variable {first second : Token} (resumed : first.lexeme.Resumed second.lexeme)

include resumed

theorem resumed_firstItem (start : Token) (frames : List Frame) :
    (step first (.firstItem start frames)).Resumed
      (step finish (step second (.firstItem start frames))) := by
  rcases resumed.cases with ⟨other, isEnd⟩ | ⟨scalar, alsoScalar⟩
  · have anything : forall items ending, (Node.array start [] (.unseparated first)).Resumed
        (.array start items ending) := fun items ending => .array start (.ends isEnd items ending)
    have broken : step first (.firstItem start frames) =
        breakOff (.array start [] (.unseparated first)) frames := by
      simp only [step, isEnd]
    rw [broken]
    by_cases closes : second.lexeme = .arrayEnd
    · simp only [step, closes]
      exact resumed_deliver isFinish (anything _ _) frames
    by_cases ends : Exists fun failure => second.lexeme = .finish failure
    · rcases ends with ⟨failure, ends⟩
      simp only [step, ends]
      exact resumed_breakOff (anything _ _) frames
    · rw [step_firstItem closes fun failure same => ends ⟨failure, same⟩, step]
      rcases step_takeValue_item isFinish second start [] frames with ⟨item, ending, split⟩
      rw [split]
      exact resumed_breakOff (anything _ _) frames
  · rw [step_firstItem scalar.ne_arrayEnd scalar.ne_finish,
      step_firstItem alsoScalar.ne_arrayEnd alsoScalar.ne_finish]
    exact resumed_takeValue isFinish resumed _

theorem resumed_item (start : Token) (items : List Node) (frames : List Frame) :
    (step first (.item start items frames)).Resumed
      (step finish (step second (.item start items frames))) := by
  rw [step_item_other resumed.ne_comma resumed.ne_arrayEnd]
  by_cases isComma : second.lexeme = .comma
  · rcases resumed.ends (isComma ▸ id) with ⟨other, isEnd⟩
    have inner := Node.ItemsResumed.after items.reverse (.ends isEnd [.leaf finish] .broken)
    rw [step_itemComma isComma, step_nextItem (isFinish ▸ nofun)]
    simp only [step, takeValue, isFinish]
    rw [← List.reverse_cons] at inner
    exact resumed_breakOff (.array start inner) frames
  by_cases closes : second.lexeme = .arrayEnd
  · rcases resumed.ends (closes ▸ id) with ⟨other, isEnd⟩
    have inner := Node.ItemsResumed.after items.reverse (.ends isEnd [] (.closed second))
    rw [List.append_nil] at inner
    rw [step_arrayEnd closes]
    exact resumed_deliver isFinish (.array start inner) frames
  · have inner := Node.ItemsResumed.after items.reverse (.unseparated resumed)
    rw [List.append_nil] at inner
    rw [step_item_other isComma closes]
    exact resumed_breakOff (.array start inner) frames

theorem resumed_nextItem (start : Token) (items : List Node) (frames : List Frame) :
    (step first (.nextItem start items frames)).Resumed
      (step finish (step second (.nextItem start items frames))) := by
  rw [step_nextItem resumed.ne_arrayEnd]
  by_cases closes : second.lexeme = .arrayEnd
  · rcases resumed.ends (closes ▸ id) with ⟨other, isEnd⟩
    have failed : first.lexeme.Failed := isEnd ▸ trivial
    have inner := Node.ItemsResumed.behind items.reverse (.afterComma failed second)
    rw [List.append_nil, ← List.reverse_cons] at inner
    simp only [step, takeValue, isEnd, closes]
    exact resumed_breakOff (.array start inner) frames
  · rw [step_nextItem closes]
    exact resumed_takeValue isFinish resumed _

theorem resumed_colon (start : Token) (members : List (Key × Node)) (name : Token)
    (frames : List Frame) :
    (step first (.colon start members name frames)).Resumed
      (step finish (step second (.colon start members name frames))) := by
  rw [step_colon_other resumed.ne_colon]
  have goesOn : forall node : Node,
      (breakOff (.object start ((⟨name, first⟩, .leaf first) :: members).reverse .broken)
        frames).Resumed
      (breakOff (.object start ((⟨name, second⟩, node) :: members).reverse .broken) frames) := by
    intro node
    have inner := Node.MembersResumed.behind members.reverse
      (.colon name resumed (.leaf first) node [] .broken)
    rw [← List.reverse_cons, ← List.reverse_cons] at inner
    exact resumed_breakOff (.object start inner) frames
  by_cases isColon : second.lexeme = .colon
  · simp only [step, isColon, takeValue, isFinish]
    exact goesOn (.leaf finish)
  · rw [step_colon_other isColon]
    exact goesOn (.leaf second)

theorem resumed_member (start : Token) (members : List (Key × Node)) (frames : List Frame) :
    (step first (.member start members frames)).Resumed
      (step finish (step second (.member start members frames))) := by
  rw [step_member_other resumed.ne_comma resumed.ne_objectEnd]
  by_cases isComma : second.lexeme = .comma
  · rcases resumed.ends (isComma ▸ id) with ⟨other, isEnd⟩
    have inner := Node.MembersResumed.after members.reverse
      (.ends isEnd (.inl rfl) [] (.keyless true finish))
    rw [List.append_nil] at inner
    rw [step_memberComma isComma]
    simp only [step, takeKey, isFinish]
    exact resumed_breakOff (.object start inner) frames
  by_cases closes : second.lexeme = .objectEnd
  · rcases resumed.ends (closes ▸ id) with ⟨other, isEnd⟩
    have inner := Node.MembersResumed.after members.reverse
      (.ends isEnd (.inl rfl) [] (.closed second))
    rw [List.append_nil] at inner
    rw [step_objectEnd closes]
    exact resumed_deliver isFinish (.object start inner) frames
  · have inner := Node.MembersResumed.after members.reverse (.unseparated resumed)
    rw [List.append_nil] at inner
    rw [step_member_other isComma closes]
    exact resumed_breakOff (.object start inner) frames

theorem resumed_keyOrEnd (start : Token) (members : List (Key × Node)) (comma : Bool)
    (frames : List Frame) :
    (step first (.keyOrEnd start members comma frames)).Resumed
      (step finish (step second (.keyOrEnd start members comma frames))) := by
  by_cases isText : first.lexeme.TextResumed second.lexeme
  · exact resumed_takeKey_text isFinish isText start members comma frames
  rcases resumed.cases with ⟨other, isEnd⟩ | ⟨scalar, alsoScalar⟩
  · have broken : step first (.keyOrEnd start members comma frames) =
        breakOff (.object start members.reverse (.keyless comma first)) frames := by
      simp only [step, takeKey, isEnd]
    rw [broken]
    exact resumed_takeKey_finish isFinish isEnd second start members comma frames
  · have inner := Node.MembersResumed.after members.reverse (.keyless comma resumed)
    rw [List.append_nil] at inner
    have goesOn := resumed_breakOff (.object start inner) frames
    rcases first with ⟨firstLexeme, firstStart, firstStop⟩
    rcases second with ⟨secondLexeme, secondStart, secondStop⟩
    cases resumed with
    | finish => exact scalar.elim
    | text resumed => exact absurd resumed isText
    | scalar failed plain =>
        cases secondLexeme with
        | null | boolean | number | malformed => exact goesOn
        | comma | colon | arrayStart | arrayEnd | objectStart | objectEnd | text | stray | finish =>
            exact plain.elim

/-- A document that ends at a token, against one that goes on with it. -/
theorem resumed_step (reading : Reading) :
    (step first reading).Resumed (step finish (step second reading)) := by
  cases reading with
  | value frames => exact resumed_takeValue isFinish resumed frames
  | firstItem start frames => exact resumed_firstItem isFinish resumed start frames
  | item start items frames => exact resumed_item isFinish resumed start items frames
  | nextItem start items frames => exact resumed_nextItem isFinish resumed start items frames
  | keyOrEnd start members comma frames =>
      exact resumed_keyOrEnd isFinish resumed start members comma frames
  | colon start members name frames =>
      exact resumed_colon isFinish resumed start members name frames
  | member start members frames => exact resumed_member isFinish resumed start members frames
  | finished root => exact .trailing root resumed
  | done root trailing => exact .same _

end Reading

end Json
end RepoInspector
