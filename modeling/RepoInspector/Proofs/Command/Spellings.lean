import RepoInspector.Command.Line

namespace RepoInspector
namespace Command

open Settings
open View

/-!
# Spellings of options

A general option is written by its long name, the format also by its letter,
and its value follows as the next word or in the same word.  However it is
written, reading it fills the slot of the option on the level that is read
and changes nothing else.
-/

/-- A general option with its value. -/
inductive Setting
  | format (format : Format)
  | colour (colour : ColourChoice)
  | config (path : String)
deriving DecidableEq, Repr

/-- A word that is not taken for an option. -/
def Plain (word : String) : Prop :=
  word = "-" ∨ word.toList.head? ≠ some '-'

instance (word : String) : Decidable (Plain word) :=
  inferInstanceAs (Decidable (_ ∨ _))

namespace Setting

def slot : Setting -> Slot
  | .format _ => .format
  | .colour _ => .colour
  | .config _ => .config

/-- The long name of an option. -/
def key : Setting -> String
  | .format _ => "format"
  | .colour _ => "color"
  | .config _ => "config"

def value : Setting -> String
  | .format chosen => Choice.name chosen
  | .colour chosen => Choice.name chosen
  | .config path => path

/-- The words that give an option its value. -/
inductive Spelled : Setting -> List String -> Prop
  | long (setting : Setting) (filled : setting.value ≠ "") (plain : Plain setting.value) :
      Spelled setting ["--" ++ setting.key, setting.value]
  | longJoined (setting : Setting) (filled : setting.value ≠ "") :
      Spelled setting ["--" ++ setting.key ++ "=" ++ setting.value]
  | letter (chosen : Format) : Spelled (.format chosen) ["-o", Choice.name chosen]
  | letterJoined (chosen : Format) : Spelled (.format chosen) ["-o" ++ Choice.name chosen]
  | letterEquals (chosen : Format) : Spelled (.format chosen) ["-o=" ++ Choice.name chosen]

/-- An option beside what else is given. -/
def addTo (setting : Setting) (given : Given) : Given :=
  match setting with
  | .format chosen => { given with format := some chosen }
  | .colour chosen => { given with colour := some chosen }
  | .config path => { given with config := some (.line, path) }

theorem named (setting : Setting) : setting.key.toList ≠ [] := by
  cases setting with
  | format | colour | config => simp only [key]; decide

theorem unequal (setting : Setting) : '=' ∉ setting.key.toList := by
  cases setting with
  | format | colour | config => simp only [key]; decide

theorem Spelled.filled {setting : Setting} {words : List String}
    (spelled : setting.Spelled words) : setting.value ≠ "" := by
  cases spelled with
  | long _ filled | longJoined _ filled => exact filled
  | letter chosen | letterJoined chosen | letterEquals chosen => cases chosen <;> decide

theorem put_value {setting : Setting} (filled : setting.value ≠ "") (given : Given) :
    given.put setting.slot setting.value = .ok (setting.addTo given) := by
  cases setting with
  | format chosen => cases chosen <;> rfl
  | colour chosen => cases chosen <;> rfl
  | config path =>
      have notEmpty : path.isEmpty = false := by simpa [value] using filled
      simp only [slot, value, Given.put, Given.path, notEmpty]
      rfl

end Setting

/-- No command is named like an option. -/
theorem Level.branch?_hyphen (level : Level) {word : String}
    (hyphen : word.toList.head? = some '-') : level.branch? word = none := by
  have plain : forall branch, branch ∈ level.branches -> branch.1.toList.head? ≠ some '-' := by
    cases level with
    | program | config => decide
    | view | configAction | completions => exact nofun
  have missing : level.branches.find? (fun branch => branch.1 = word) = none := by
    refine List.find?_eq_none.mpr fun branch isBranch named => ?_
    exact plain branch isBranch (of_decide_eq_true named ▸ hyphen)
  rw [branch?, missing]
  rfl

namespace Scan

/-! ## What a word is taken for -/

theorem splitValue_none {name : List Char} (unequal : '=' ∉ name) :
    splitValue name = (name, none) := by
  induction name with
  | nil => rfl
  | cons c rest inductionHypothesis =>
      rw [splitValue, if_neg (List.ne_of_not_mem_cons unequal).symm,
        inductionHypothesis (List.not_mem_of_not_mem_cons unequal)]

theorem splitValue_some {name : List Char} (unequal : '=' ∉ name) (value : List Char) :
    splitValue (name ++ '=' :: value) = (name, some (String.ofList value)) := by
  induction name with
  | nil => rfl
  | cons c rest inductionHypothesis =>
      rw [List.cons_append, splitValue, if_neg (List.ne_of_not_mem_cons unequal).symm,
        inductionHypothesis (List.not_mem_of_not_mem_cons unequal)]

variable {scan : Scan} {given : Given} {setting : Setting} {word : String}

/-- A word of two hyphens and more is a long option. -/
theorem takeWord_hyphens (reading : scan.trailing = false) {rest : List Char} (more : rest ≠ [])
    (letters : word.toList = '-' :: '-' :: rest) :
    scan.takeWord word = scan.takeLong (String.ofList (splitValue rest).1) (splitValue rest).2 := by
  rcases List.exists_cons_of_ne_nil more with ⟨c, others, rfl⟩
  rw [takeWord, reading, letters]
  rfl

/-- A word of one hyphen and more is an option by its letter. -/
theorem takeWord_hyphen (reading : scan.trailing = false) {letter : Char} {rest : List Char}
    (letters : word.toList = '-' :: letter :: rest) (single : letter ≠ '-') :
    scan.takeWord word = scan.takeShort letter rest := by
  rw [takeWord, reading, letters]
  simp only [Bool.false_eq_true, if_false]
  split
  case h_1 same | h_2 same => exact absurd (List.cons.inj (List.cons.inj same).2).1 single
  case h_3 same =>
    cases same
    rfl
  case h_4 other => exact absurd rfl (other letter rest)

/-- Any other word is the value that is awaited, or else an argument. -/
theorem takeWord_plain (reading : scan.trailing = false) (plain : Plain word) :
    scan.takeWord word =
      match scan.awaiting with
      | some slot => .ok { scan with pending := some (slot, some word) }
      | none => scan.takeArgument word := by
  rw [takeWord, reading]
  simp only [Bool.false_eq_true, if_false]
  split
  case h_1 letters | h_2 letters | h_3 letters =>
    rcases plain with rfl | unhyphened
    · cases letters
    · rw [letters] at unhyphened
      exact absurd rfl unhyphened
  case h_4 => rfl

theorem takeLong_key (scan : Scan) (setting : Setting) (value : Option String) :
    scan.takeLong setting.key value = scan.takeOption setting.slot value := by
  cases setting <;> rfl

theorem takeWord_long (reading : scan.trailing = false) (setting : Setting) :
    scan.takeWord ("--" ++ setting.key) = scan.takeOption setting.slot none := by
  have letters : ("--" ++ setting.key).toList = '-' :: '-' :: setting.key.toList := by
    simp [String.toList_append]
  rw [takeWord_hyphens reading setting.named letters, splitValue_none setting.unequal,
    String.ofList_toList, takeLong_key]

theorem takeWord_longJoined (reading : scan.trailing = false) (setting : Setting)
    (value : String) :
    scan.takeWord ("--" ++ setting.key ++ "=" ++ value) =
      scan.takeOption setting.slot (some value) := by
  have letters : ("--" ++ setting.key ++ "=" ++ value).toList =
      '-' :: '-' :: (setting.key.toList ++ '=' :: value.toList) := by
    simp [String.toList_append]
  have more : setting.key.toList ++ '=' :: value.toList ≠ [] :=
    List.append_ne_nil_of_right_ne_nil _ (List.cons_ne_nil _ _)
  rw [takeWord_hyphens reading more letters, splitValue_some setting.unequal,
    String.ofList_toList, String.ofList_toList, takeLong_key]

theorem takeWord_letter (reading : scan.trailing = false) {rest : List Char}
    (letters : word.toList = '-' :: 'o' :: rest) :
    scan.takeWord word = scan.takeOption .format (attachedValue rest) :=
  takeWord_hyphen reading letters (by decide)

theorem attachedValue_name (chosen : Format) :
    attachedValue (Choice.name chosen).toList = some (Choice.name chosen) := by
  cases chosen <;> decide

/-- A word starts the option of a setting on every level, with a value or not. -/
structure Starts (word : String) (setting : Setting) (value : Option String) : Prop where
  hyphen : word.toList.head? = some '-'
  takes : forall scan : Scan, scan.trailing = false ->
    scan.takeWord word = scan.takeOption setting.slot value

/-- The value of an option stands in its word or is the next word. -/
theorem starts_of_spelled {words : List String} (spelled : setting.Spelled words) :
    (Exists fun word => words = [word] ∧ Starts word setting (some setting.value)) ∨
      (Exists fun word => words = [word, setting.value] ∧ Starts word setting none ∧
        Plain setting.value) := by
  cases spelled with
  | long _ filled plain =>
      refine .inr ⟨_, rfl, ⟨?_, fun scan reading => takeWord_long reading _⟩, plain⟩
      simp [String.toList_append]
  | longJoined =>
      refine .inl ⟨_, rfl, ⟨?_, fun scan reading => takeWord_longJoined reading _ _⟩⟩
      simp [String.toList_append]
  | letter chosen =>
      have letters : "-o".toList = ['-', 'o'] := by decide
      refine .inr ⟨_, rfl, ⟨letters ▸ rfl, fun scan reading => ?_⟩, by cases chosen <;> decide⟩
      exact takeWord_letter reading letters
  | letterJoined chosen =>
      have letters : ("-o" ++ Choice.name chosen).toList =
          '-' :: 'o' :: (Choice.name chosen).toList := by
        simp [String.toList_append]
      refine .inl ⟨_, rfl, ⟨letters ▸ rfl, fun scan reading => ?_⟩⟩
      rw [takeWord_letter reading letters, attachedValue_name]
      rfl
  | letterEquals chosen =>
      have letters : ("-o=" ++ Choice.name chosen).toList =
          '-' :: 'o' :: '=' :: (Choice.name chosen).toList := by
        simp [String.toList_append]
      refine .inl ⟨_, rfl, ⟨letters ▸ rfl, fun scan reading => ?_⟩⟩
      rw [takeWord_letter reading letters, attachedValue, if_pos rfl, String.ofList_toList]
      rfl

/-! ## Steps -/

/-- Outside the value of an option, with everything that is given so far. -/
structure Ready (scan : Scan) (given : Given) : Prop where
  reading : scan.trailing = false
  settled : scan.given.settle scan.pending = .ok given

theorem Ready.settle_eq (ready : scan.Ready given) :
    scan.settle = .ok { scan with given := given, pending := none } := by
  rw [settle, ready.settled]
  rfl

theorem Ready.awaiting_none (ready : scan.Ready given) : scan.awaiting = none := by
  have settled := ready.settled
  unfold awaiting
  split
  case h_1 isAwaited =>
    rw [isAwaited] at settled
    cases settled
  case h_2 => rfl

/-- A value for a free slot does not disturb what is given. -/
theorem settle_value (filled : setting.value ≠ "") (free : given.has setting.slot = false) :
    given.settle (some (setting.slot, some setting.value)) = .ok (setting.addTo given) := by
  rw [Given.settle, free]
  exact setting.put_value filled given

/-- A word with a hyphen in front names no command. -/
theorem branch?_hyphen (scan : Scan) (hyphen : word.toList.head? = some '-') :
    scan.branch? word = none := by
  rw [branch?, scan.level.branch?_hyphen hyphen, ite_self]

/-- The value of an option names no command. -/
theorem branch?_awaiting {slot : Slot} (awaited : scan.awaiting = some slot) :
    scan.branch? word = none := by
  rw [branch?, awaited, Option.isSome_some, Bool.or_true]
  rfl

theorem run_word {environment : Option String} {line : List String}
    (noCommand : scan.branch? word = none) :
    run environment (word :: line) scan = (scan.takeWord word).bind (run environment line) := by
  rw [run, noCommand]
  rfl

/-- Reading an option fills its slot and changes nothing else, however the
option is written. -/
theorem run_spelled {words : List String} (spelled : setting.Spelled words)
    (ready : scan.Ready given) (free : given.has setting.slot = false)
    (environment : Option String) (line : List String) :
    Exists fun after : Scan =>
      run environment (words ++ line) scan = run environment line after ∧
        after.Ready (setting.addTo given) ∧ after.level = scan.level ∧
        after.argumentTaken = scan.argumentTaken := by
  have taken := settle_value spelled.filled free
  rcases starts_of_spelled spelled with ⟨word, rfl, starts⟩ | ⟨word, rfl, starts, plain⟩
  · refine ⟨{ scan with given := setting.addTo given, pending := none }, ?_,
      ⟨ready.reading, rfl⟩, rfl, rfl⟩
    have step : scan.takeWord word =
        .ok { scan with given := setting.addTo given, pending := none } := by
      rw [starts.takes scan ready.reading, takeOption, attach, ready.settle_eq]
      change (given.settle _).bind _ = _
      rw [taken]
      rfl
    rw [List.singleton_append, run_word (scan.branch?_hyphen starts.hyphen), step]
    rfl
  · refine ⟨{ scan with given, pending := some (setting.slot, some setting.value) }, ?_,
      ⟨ready.reading, taken⟩, rfl, rfl⟩
    let awaits : Scan := { scan with given, pending := some (setting.slot, none) }
    have step : scan.takeWord word = .ok awaits := by
      rw [starts.takes scan ready.reading, takeOption, Scan.await, ready.settle_eq]
      rfl
    have value : awaits.takeWord setting.value =
        .ok { awaits with pending := some (setting.slot, some setting.value) } :=
      takeWord_plain ready.reading plain
    rw [List.cons_append, run_word (scan.branch?_hyphen starts.hyphen), step, Except.bind,
      List.singleton_append, run_word (branch?_awaiting rfl), value]
    rfl

end Scan
end Command
end RepoInspector
