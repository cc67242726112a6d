import RepoInspector.Proofs.Text.Interspersed
import RepoInspector.Proofs.View.Escapes
import RepoInspector.Proofs.View.Moments
import RepoInspector.Proofs.View.Strokes

namespace RepoInspector
namespace View

open Model

/-!
# What colour adds

A repository's own texts stand in a view beside texts that never change.  They
may hold escapes, and even the beginning of a style sequence that only needs
what follows to be whole.  So what matters is what stands behind each of them:
a space, a parenthesis, a line feed or nothing, none of which goes on with a
sequence, and with colour a reset.
-/

/-!
## Fixed texts and own texts
-/

theorem Line.text_append (line later : Line) :
    Line.text (line ++ later) = line.text ++ later.text :=
  List.flatMap_append

/-- Ink does not change that a line cannot go on with a style sequence. -/
theorem Line.interrupts_chars {line : Line} (interrupts : Interrupts line.text) (colour : Bool) :
    Interrupts (Line.chars colour line) := by
  induction line with
  | nil => exact .nil
  | cons piece line inductionHypothesis =>
      have unpainted := Interrupts.exchange interrupts inductionHypothesis
      cases piece with
      | plain text => exact unpainted
      | inked ink text =>
          cases colour with
          | true => exact ink.interrupts_paint text.toList (Line.chars true line)
          | false => exact unpainted

/-- Where the text of a piece ends no style sequence goes on. -/
def Apart (piece : Piece) (rest : List Char) : Prop :=
  unstyled (piece.text.toList ++ rest) = unstyled piece.text.toList ++ unstyled rest

theorem Apart.fixed {piece : Piece} (none_inside : Ink.escape ∉ piece.text.toList)
    (rest : List Char) : Apart piece rest := by
  rw [Apart, unstyled_plain none_inside, unstyled_of_plain none_inside]

theorem Apart.own {piece : Piece} {before text after : String} {rest : List Char}
    (isText : piece.text = before ++ text ++ after)
    (unescaped : Ink.escape ∉ before.toList ∧ Ink.escape ∉ after.toList)
    (ended : Interrupts (after.toList ++ rest)) : Apart piece rest := by
  have divided : forall {rest : List Char}, Interrupts (after.toList ++ rest) ->
      unstyled (before.toList ++ (text.toList ++ (after.toList ++ rest))) =
        before.toList ++ (unstyled text.toList ++ (after.toList ++ unstyled rest)) := by
    intro rest ended
    rw [unstyled_plain unescaped.1, ended.unstyled_append, unstyled_plain unescaped.2]
  have alone := divided (ended.exchange fun _ => Interrupts.nil)
  rw [unstyled, List.append_nil] at alone
  rw [Apart, isText, String.toList_append, String.toList_append]
  simp only [List.append_assoc, divided ended, alone]

/-- A piece that is apart from what follows stays so in ink. -/
theorem Apart.chars {piece : Piece} {rest : List Char} (apart : Apart piece rest) (colour : Bool) :
    unstyled (piece.chars colour ++ rest) = unstyled piece.text.toList ++ unstyled rest := by
  cases piece with
  | plain text => exact apart
  | inked ink text =>
      cases colour with
      | true => exact ink.unstyled_paint text.toList rest
      | false => exact apart

/-- A line of fixed pieces and of pieces with one own text each.  Fixed texts
have no escape, and behind an own text stands nothing that goes on with a style
sequence. -/
inductive Framed : List String -> Line -> Prop
  | nil : Framed [] []
  | fixed {piece : Piece} {own : List String} {line : Line}
      (none_inside : Ink.escape ∉ piece.text.toList) (rest : Framed own line) :
      Framed own (piece :: line)
  | own {piece : Piece} {before text after : String} {own : List String} {line : Line}
      (isText : piece.text = before ++ text ++ after)
      (unescaped : Ink.escape ∉ before.toList ∧ Ink.escape ∉ after.toList)
      (ended : Interrupts (after.toList ++ line.text)) (rest : Framed own line) :
      Framed (text :: own) (piece :: line)

namespace Framed

variable {own more : List String} {line later : Line}

/-- A piece that is an own text and nothing else. -/
theorem exactly {piece : Piece} (ended : Interrupts line.text) (rest : Framed own line) :
    Framed (piece.text :: own) (piece :: line) :=
  @Framed.own piece "" piece.text "" own line (by rw [String.empty_append, String.append_empty])
    (by decide) ended rest

theorem append (framed : Framed own line) (interrupts : Interrupts later.text)
    (rest : Framed more later) : Framed (own ++ more) (line ++ later) := by
  induction framed with
  | nil => exact rest
  | fixed none_inside _ inductionHypothesis => exact .fixed none_inside inductionHypothesis
  | @own _ _ _ after _ line isText unescaped ended _ inductionHypothesis =>
      refine .own isText unescaped ?_ inductionHypothesis
      have whole : Interrupts (after.toList ++ Line.text line ++ later.text) :=
        ended.append interrupts
      rw [List.append_assoc, ← Line.text_append] at whole
      exact whole

/-- Without style sequences a line is its texts without them, whether it is
printed with colour or not. -/
theorem unstyled_chars (framed : Framed own line) (colour : Bool) :
    unstyled (Line.chars colour line) =
      line.flatMap fun piece => unstyled piece.text.toList := by
  induction framed with
  | nil => exact unstyled.eq_1
  | @fixed piece _ line none_inside _ inductionHypothesis =>
      have apart := Apart.fixed none_inside (Line.chars colour line)
      rw [List.flatMap_cons, ← inductionHypothesis]
      exact apart.chars colour
  | @own piece _ _ after _ line isText unescaped ended _ inductionHypothesis =>
      have apart : Apart piece (Line.chars colour line) :=
        .own isText unescaped (ended.exchange fun rest => Line.interrupts_chars rest colour)
      rw [List.flatMap_cons, ← inductionHypothesis]
      exact apart.chars colour

/-- All that stands in a line besides its own texts has no escape. -/
theorem interspersed (framed : Framed own line) :
    Interspersed (fun c => c ≠ Ink.escape) (own.map String.toList) line.text := by
  have gaps : forall {text : String}, Ink.escape ∉ text.toList ->
      Interspersed (fun c => c ≠ Ink.escape) [] text.toList := by
    intro text unescaped
    refine .gaps fun c listed => ?_
    rintro rfl
    exact unescaped listed
  induction framed with
  | nil => exact .nil
  | fixed none_inside _ inductionHypothesis => exact (gaps none_inside).append inductionHypothesis
  | @own piece before text after _ line isText unescaped _ _ inductionHypothesis =>
      have whole := (((gaps unescaped.1).append (.single text.toList)).append
        (gaps unescaped.2)).append inductionHypothesis
      rw [← String.toList_append, ← String.toList_append, ← isText] at whole
      exact whole

end Framed

/-- Lines one by one, with the own texts of all of them. -/
inductive FramedLines : List String -> List Line -> Prop
  | nil : FramedLines [] []
  | cons {own more : List String} {line : Line} {lines : List Line} (first : Framed own line)
      (rest : FramedLines more lines) : FramedLines (own ++ more) (line :: lines)

namespace FramedLines

variable {own more : List String} {lines later : List Line}

theorem append (first : FramedLines own lines) (second : FramedLines more later) :
    FramedLines (own ++ more) (lines ++ later) := by
  induction first with
  | nil => exact second
  | cons framed _ inductionHypothesis =>
      rw [List.append_assoc]
      exact .cons framed inductionHypothesis

/-- Lines without own texts after others. -/
theorem followed (first : FramedLines own lines) (second : FramedLines [] later) :
    FramedLines own (lines ++ later) := by
  have whole := first.append second
  rw [List.append_nil] at whole
  exact whole

theorem single {line : Line} (framed : Framed own line) : FramedLines own [line] := by
  have alone := cons framed .nil
  rw [List.append_nil] at alone
  exact alone

theorem lineFor {α : Type} {texts : α -> List String} {line : α -> Line}
    (framed : forall a, Framed (texts a) (line a)) (data : Option α) :
    FramedLines (data.elim [] texts) (lineFor data line) := by
  cases data with
  | none => exact .nil
  | some a => exact single (framed a)

theorem lineFor_fixed {α : Type} {line : α -> Line} (framed : forall a, Framed [] (line a))
    (data : Option α) : FramedLines [] (View.lineFor data line) := by
  cases data with
  | none => exact .nil
  | some a => exact single (framed a)

theorem joined (framed : FramedLines own lines) : Framed own (Line.joined lines) := by
  induction framed with
  | nil => exact .nil
  | @cons own more line lines first rest inductionHypothesis =>
      cases lines with
      | nil =>
          cases rest
          rw [List.append_nil]
          exact first
      | cons next lines =>
          exact first.append (.cons (by decide) _) (.fixed (by decide) inductionHypothesis)

end FramedLines

/-!
## The views
-/

/-- The texts of a repository that are shown under an aspect, in their order. -/
def Aspect.ownTexts (detailed : DetailedRepository) : Aspect -> List String
  | .summary =>
      [detailed.repository.fullName] ++
        detailed.repository.description.elim [] (fun text => [text]) ++
        [detailed.repository.ownerLogin] ++
        detailed.organization.elim [] (fun organization =>
          [organization.displayName, organization.login]) ++
        detailed.repository.defaultBranch.elim [] (fun branch => [branch]) ++
        detailed.parent.elim [] (fun parent => [parent.fullName]) ++
        (distinctSource detailed).elim [] (fun source => [source.fullName])
  | .methods => []
  | .lineage =>
      [detailed.repository.fullName] ++
        detailed.parent.elim [] (fun parent => [parent.fullName]) ++
        detailed.source.elim [] (fun source => [source.fullName])

theorem unescaped_methodPiece (method : MergeMethod) :
    Ink.escape ∉ (methodPiece method).text.toList := by
  cases method <;> decide

namespace Framed

variable {own : List String} {pieces : Line}

theorem entry {label : String} (unescaped : Ink.escape ∉ label.toList)
    (framed : Framed own pieces) : Framed own (entry label pieces) :=
  .fixed (by decide) (.fixed unescaped (.fixed (by decide) framed))

theorem alone (piece : Piece) : Framed [piece.text] [piece] := .exactly .nil .nil

theorem ofFixed {line : Line} (fixed : ∀ piece ∈ line, Ink.escape ∉ piece.text.toList) :
    Framed [] line := by
  induction line with
  | nil => exact .nil
  | cons piece line inductionHypothesis =>
      rcases List.forall_mem_cons.mp fixed with ⟨first, others⟩
      exact .fixed first (inductionHypothesis others)

theorem header (repository : Repository) : Framed [repository.fullName] (header repository) := by
  refine @exactly [] _ (.inked .boldCyan repository.fullName) ?_ (ofFixed ?_)
  · exact .cons (by decide) _
  · cases repository.isPrivate <;> decide

theorem organizationLine (organization : Organization) :
    Framed [organization.displayName, organization.login] (organizationLine organization) := by
  apply Framed.entry (by decide)
  refine @exactly _ _ (.inked .boldWhite organization.displayName) ?_ (.own rfl (by decide) ?_ .nil)
  · change Interrupts ((" (" ++ organization.login ++ ")").toList ++ [])
    rw [String.toList_append, String.toList_append]
    exact .cons (by decide) _
  · exact .cons (by decide) _

theorem orNothing {α : Type} (name : α -> String) (data : Option α) :
    Framed (data.elim [] fun a => [name a]) [orNothing (data.map name)] := by
  cases data with
  | none => exact .fixed (show Ink.escape ∉ "none".toList by decide) .nil
  | some a => exact alone (.plain (name a))

theorem separated {separator : Piece} (unescaped : Ink.escape ∉ separator.text.toList)
    {pieces : List Piece} (framed : Framed [] pieces) : Framed [] (separated separator pieces) := by
  fun_induction View.separated separator pieces with
  | case1 | case2 => exact framed
  | case3 piece pieces some_piece inductionHypothesis =>
      cases framed with
      | fixed none_inside rest =>
          exact .fixed none_inside (.fixed unescaped (inductionHypothesis rest))

theorem methodPieces (methods : List MergeMethod) : Framed [] (methods.map methodPiece) := by
  apply ofFixed
  intro piece listed
  rcases List.mem_map.mp listed with ⟨method, _, rfl⟩
  exact unescaped_methodPiece method

theorem methodList (methods : List MergeMethod) : Framed [] (methodList methods) := by
  unfold View.methodList
  split
  case isTrue => exact ofFixed (by decide)
  case isFalse => exact separated (by decide) (methodPieces methods)

theorem countsLine (detailed : DetailedRepository) : Framed [] (countsLine detailed) := by
  have unescaped : forall n : UInt64, Ink.escape ∉ (countText n).toList := by
    intro n listed
    cases isDigit_toString n.toNat Ink.escape listed
  have optional : forall data : Option UInt64,
      Ink.escape ∉ (View.orNothing (data.map countText)).text.toList := by
    intro data
    cases data with
    | none => exact show Ink.escape ∉ "none".toList by decide
    | some n => exact unescaped n
  have column : forall {label : String} {piece : Piece} {pieces : Line},
      Ink.escape ∉ label.toList -> Ink.escape ∉ piece.text.toList -> Framed [] pieces ->
      Framed [] (.plain "  " :: labelled label (piece :: pieces)) :=
    fun named shown rest => entry named (.fixed shown rest)
  exact column (by decide) (unescaped _) (column (by decide) (unescaped _)
    (column (by decide) (optional _) (column (by decide) (optional _) .nil)))

theorem permissionsLine (permissions : Permissions) : Framed [] (permissionsLine permissions) := by
  apply entry (by decide)
  apply ofFixed
  rcases permissions with ⟨admin, push, pull⟩
  cases admin <;> cases push <;> cases pull <;> decide

end Framed

theorem framed_summary (detailed : DetailedRepository) :
    FramedLines (Aspect.summary.ownTexts detailed) (summary detailed) := by
  have archived : FramedLines [] (if detailed.repository.isArchived then
      [entry "Archived" [.inked .red "yes"]] else []) := by
    split
    case isTrue => exact .single (.ofFixed (by decide))
    case isFalse => exact .nil
  have reference : forall {label : String} (repository : Repository), Ink.escape ∉ label.toList ->
      Framed [repository.fullName] (entry label [reference repository]) :=
    fun repository named => .entry named (.alone (reference repository))
  refine .append (.append (.followed (.followed (.followed (.followed (.followed
    (.append (.append (.append (.append (.single (.header _)) ?description) (.single ?owner))
      ?organization) ?branch) archived) ?pushed) (.single (.countsLine detailed))) ?permissions)
    (.single ?methods)) ?parent) ?source
  case description =>
    exact .lineFor (fun text => .entry (by decide) (.alone (.plain text))) _
  case owner => exact .entry (by decide) (.alone (.plain detailed.repository.ownerLogin))
  case organization => exact .lineFor Framed.organizationLine _
  case branch => exact .lineFor (fun branch => .entry (by decide) (.alone (.plain branch))) _
  case pushed =>
    refine .lineFor_fixed (fun instant => .entry (by decide) (.fixed ?_ .nil)) _
    exact notMem_summary (by decide) (by decide) (by decide) instant
  case permissions => exact .lineFor_fixed Framed.permissionsLine _
  case methods => exact .entry (by decide) (.methodList detailed.allowedMethods)
  case parent => exact .lineFor (fun parent => reference parent (by decide)) _
  case source => exact .lineFor (fun source => reference source (by decide)) _

theorem framed_methodLines (methods : List MergeMethod) : FramedLines [] (methodLines methods) := by
  have listed : FramedLines [] (methods.map fun method => [methodPiece method]) := by
    induction methods with
    | nil => exact .nil
    | cons method methods inductionHypothesis =>
        exact .cons (.fixed (unescaped_methodPiece method) .nil) inductionHypothesis
  unfold methodLines
  split
  case isTrue => exact .single (.ofFixed (by decide))
  case isFalse => exact listed

theorem framed_lineage (detailed : DetailedRepository) :
    FramedLines (Aspect.lineage.ownTexts detailed) (Lineage.ofRepository detailed).lines := by
  refine .append (.append (.single ?name) (.single ?parent)) (.single ?source)
  case name => exact .alone (.inked .boldCyan detailed.repository.fullName)
  case parent => exact .entry (by decide) (.orNothing Repository.fullName detailed.parent)
  case source => exact .entry (by decide) (.orNothing Repository.fullName detailed.source)

/-- A repository is shown by framed lines under every aspect. -/
theorem framed_lines (aspect : Aspect) (detailed : DetailedRepository) :
    FramedLines (aspect.ownTexts detailed) (aspect.lines detailed) := by
  cases aspect with
  | summary => exact framed_summary detailed
  | methods => exact framed_methodLines detailed.allowedMethods
  | lineage => exact framed_lineage detailed

/-!
## Colour and no colour
-/

/-- A repository under an aspect, stroke by stroke. -/
def Aspect.strokes (aspect : Aspect) (detailed : DetailedRepository) : List Stroke :=
  Line.strokes (aspect.pieces .text detailed)

/-- A text with colour is the one without, but for style sequences that its
strokes add and that are closed before anything without ink.  Taking all style
sequences out leaves the same of both, and an escape in the text without colour
stands in one of the own texts. -/
structure Decorates (strokes : List Stroke) (own : List String) (coloured plainly : List Char) :
    Prop where
  withColour : coloured = strokes.flatMap (Stroke.chars true)
  withoutColour : plainly = strokes.flatMap (Stroke.chars false)
  closed : Closed strokes
  alike : unstyled coloured = unstyled plainly
  escapes : Interspersed (fun c => c ≠ Ink.escape) (own.map String.toList) plainly

/-- Whatever the texts of a repository hold, colour only decorates a view of it,
and a document is the same with colour and without. -/
theorem colour_decorates (aspect : Aspect) (detailed : DetailedRepository) :
    Decorates (aspect.strokes detailed) (aspect.ownTexts detailed)
      (aspect.render .text true detailed).toList (aspect.render .text false detailed).toList ∧
    aspect.render .json true detailed = aspect.render .json false detailed := by
  have framed : Framed (aspect.ownTexts detailed) (aspect.pieces .text detailed) :=
    (framed_lines aspect detailed).joined
  have printed : forall colour, (aspect.render .text colour detailed).toList =
      Line.chars colour (aspect.pieces .text detailed) := by
    intro colour
    rw [aspect.render_eq, String.toList_ofList]
  refine ⟨⟨?_, ?_, Line.closed _, ?_, ?_⟩, rfl⟩
  · rw [printed, Aspect.strokes, Line.chars_strokes]
  · rw [printed, Aspect.strokes, Line.chars_strokes]
  · rw [printed, printed, framed.unstyled_chars, framed.unstyled_chars]
  · rw [printed, Line.chars_plainly]
    exact framed.interspersed

end View
end RepoInspector
