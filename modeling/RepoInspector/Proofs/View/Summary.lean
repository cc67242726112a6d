import RepoInspector.Proofs.View.Decoration

namespace RepoInspector
namespace View

open Model
open Time

/-!
# What a summary says

A summary is one text, and its lines are only there again once it is split at
its line feeds.  Each line is about a topic of its own.  Which topics have a
line depends on what is known of the repository, and not on one another, but
for one case: a root of the fork network is left out where the parent that is
named before it has the same number.
-/

/-!
## Statements
-/

/-- What a line of a summary can be about. -/
inductive Topic
  | header
  | description
  | owner
  | organization
  | branch
  | archive
  | push
  | counts
  | permissions
  | methods
  | parent
  | root
deriving DecidableEq

/-- The topics in the order of their lines. -/
def Topic.all : List Topic :=
  [.header, .description, .owner, .organization, .branch, .archive, .push, .counts,
    .permissions, .methods, .parent, .root]

theorem Topic.mem_all (topic : Topic) : topic ∈ Topic.all := by
  cases topic <;> decide

/-- What permissions can grant. -/
inductive Right
  | admin
  | push
  | pull
deriving DecidableEq

namespace Right

/-- Every right, in the order in which they are listed. -/
def all : List Right := [.admin, .push, .pull]

def name : Right -> String
  | .admin => "admin"
  | .push => "push"
  | .pull => "pull"

/-- Whether a reader of the payload has a right. -/
def isGranted (permitted : PermittedRepository) : Right -> Bool
  | .admin => permitted.isAdmin
  | .push => permitted.canPush
  | .pull => permitted.canPull

end Right

/-- What one line of a summary says. -/
inductive Statement
  | header (fullName : String) (isPrivate : Bool)
  | description (text : String)
  | owner (login : String)
  | organization (displayName login : String)
  | branch (name : String)
  | archived
  | pushed (instant : Instant)
  | counts (stars forks : UInt64) (network subscribers : Option UInt64)
  | permissions (rights : List Right)
  | methods (allowed : List MergeMethod)
  | forkedFrom (parent : Repository)
  | forkRoot (source : Repository)

/-- Names on one line. -/
def listed : List String -> String
  | [] => "none"
  | names => String.intercalate ", " names

/-- A label and what it introduces, below the header. -/
def below (label text : String) : String :=
  "  " ++ label ++ ": " ++ text

namespace Statement

def topic : Statement -> Topic
  | .header .. => .header
  | .description _ => .description
  | .owner _ => .owner
  | .organization .. => .organization
  | .branch _ => .branch
  | .archived => .archive
  | .pushed _ => .push
  | .counts .. => .counts
  | .permissions _ => .permissions
  | .methods _ => .methods
  | .forkedFrom _ => .parent
  | .forkRoot _ => .root

/-- The line that says it. -/
def text : Statement -> String
  | .header fullName isPrivate =>
      fullName ++ " (" ++ (if isPrivate then "private" else "public") ++ ")"
  | .description text => below "Description" text
  | .owner login => below "Owner" login
  | .organization displayName login =>
      below "Organization" (displayName ++ " (" ++ login ++ ")")
  | .branch name => below "Default branch" name
  | .archived => below "Archived" "yes"
  | .pushed instant => below "Pushed" instant.summary
  | .counts stars forks network subscribers =>
      below "Stars" (countText stars) ++ below "Forks" (countText forks) ++
        below "Network" (network.elim "none" countText) ++
        below "Subscribers" (subscribers.elim "none" countText)
  | .permissions rights => below "Permissions" (listed (rights.map Right.name))
  | .methods allowed => below "Merge methods" (listed (allowed.map MergeMethod.name))
  | .forkedFrom parent => below "Forked from" parent.fullName
  | .forkRoot source => below "Fork root" source.fullName

/-- The other repository that a line of lineage names. -/
def related? : Statement -> Option Repository
  | .forkedFrom repository | .forkRoot repository => some repository
  | _ => none

end Statement

/-- What is due in the summary of a repository. -/
inductive Due (detailed : DetailedRepository) : Statement -> Prop
  | header : Due detailed (.header detailed.repository.fullName detailed.repository.isPrivate)
  | description {text : String} (described : detailed.repository.description = some text) :
      Due detailed (.description text)
  | owner : Due detailed (.owner detailed.repository.ownerLogin)
  | organization {organization : Organization}
      (belongs : detailed.organization = some organization) :
      Due detailed (.organization organization.displayName organization.login)
  | branch {name : String} (known : detailed.repository.defaultBranch = some name) :
      Due detailed (.branch name)
  | archived (isArchived : detailed.repository.isArchived = true) : Due detailed .archived
  | pushed {instant : Instant} (known : detailed.repository.pushedAt = some instant) :
      Due detailed (.pushed instant)
  | counts : Due detailed (.counts detailed.repository.stars detailed.repository.forks
      detailed.networkCount detailed.subscribersCount)
  | permissions (known : detailed.base.permissions.isSome) :
      Due detailed (.permissions (Right.all.filter (Right.isGranted detailed.base)))
  | methods : Due detailed (.methods detailed.allowedMethods)
  | forkedFrom {parent : Repository} (forked : detailed.parent = some parent) :
      Due detailed (.forkedFrom parent)
  | forkRoot {source : Repository} (rooted : detailed.source = some source)
      (unnamed : forall parent, detailed.parent = some parent -> parent.id ≠ source.id) :
      Due detailed (.forkRoot source)

/-!
## Topic by topic
-/

/-- A source is named unless the parent has its number. -/
theorem distinctSource_eq_some_iff {detailed : DetailedRepository} {source : Repository} :
    distinctSource detailed = some source ↔ detailed.source = some source ∧
      forall parent, detailed.parent = some parent -> parent.id ≠ source.id := by
  rw [distinctSource, Option.filter_eq_some_iff, Option.all_eq_true]
  simp only [bne_iff_ne]

section Topics

variable (detailed : DetailedRepository)

/-- What a summary says about a topic, if anything. -/
def statement? : Topic -> Option Statement
  | .header => some (.header detailed.repository.fullName detailed.repository.isPrivate)
  | .description => detailed.repository.description.map .description
  | .owner => some (.owner detailed.repository.ownerLogin)
  | .organization => detailed.organization.map fun organization =>
      .organization organization.displayName organization.login
  | .branch => detailed.repository.defaultBranch.map .branch
  | .archive => if detailed.repository.isArchived then some .archived else none
  | .push => detailed.repository.pushedAt.map .pushed
  | .counts => some (.counts detailed.repository.stars detailed.repository.forks
      detailed.networkCount detailed.subscribersCount)
  | .permissions => detailed.base.permissions.map fun _ =>
      .permissions (Right.all.filter (Right.isGranted detailed.base))
  | .methods => some (.methods detailed.allowedMethods)
  | .parent => detailed.parent.map .forkedFrom
  | .root => (distinctSource detailed).map .forkRoot

/-- The line about a topic, if there is one. -/
def topicLines : Topic -> List Line
  | .header => [header detailed.repository]
  | .description => lineFor detailed.repository.description fun text =>
      entry "Description" [.plain text]
  | .owner => [entry "Owner" [.plain detailed.repository.ownerLogin]]
  | .organization => lineFor detailed.organization organizationLine
  | .branch => lineFor detailed.repository.defaultBranch fun branch =>
      entry "Default branch" [.plain branch]
  | .archive =>
      if detailed.repository.isArchived then [entry "Archived" [.inked .red "yes"]] else []
  | .push => lineFor detailed.repository.pushedAt pushedLine
  | .counts => [countsLine detailed]
  | .permissions => lineFor detailed.base.permissions permissionsLine
  | .methods => [entry "Merge methods" (methodList detailed.allowedMethods)]
  | .parent => lineFor detailed.parent fun parent => entry "Forked from" [reference parent]
  | .root => lineFor (distinctSource detailed) fun source => entry "Fork root" [reference source]

theorem summary_eq_flatMap : summary detailed = Topic.all.flatMap (topicLines detailed) := by
  simp only [summary, Topic.all, List.flatMap_cons, List.flatMap_nil, List.append_nil,
    List.append_assoc]
  rfl

theorem text_single (piece : Piece) : Line.text [piece] = piece.text.toList :=
  List.append_nil _

theorem text_entry {label text : String} {pieces : Line}
    (same : Line.text pieces = text.toList) :
    Line.text (entry label pieces) = (below label text).toList := by
  simp only [entry, labelled, below, Line.text, List.flatMap_cons, Piece.text,
    String.toList_append, List.append_assoc, ← same]

theorem text_separated (separator : Piece) (pieces : List Piece) :
    Line.text (separated separator pieces) =
      separator.text.toList.intercalate (pieces.map fun piece => piece.text.toList) := by
  fun_induction separated separator pieces with
  | case1 => rfl
  | case2 piece => exact (text_single piece).trans List.intercalate_singleton.symm
  | case3 piece pieces some_piece inductionHypothesis =>
      rcases List.exists_cons_of_ne_nil some_piece with ⟨next, others, rfl⟩
      rw [List.map_cons] at inductionHypothesis
      rw [List.map_cons, List.map_cons, List.intercalate_cons_cons, ← inductionHypothesis,
        List.append_assoc]
      rfl

theorem listed_eq (names : List String) :
    (if names.isEmpty then "none" else String.intercalate ", " names) = listed names := by
  cases names <;> rfl

theorem text_methodList (methods : List MergeMethod) :
    Line.text (methodList methods) = (listed (methods.map MergeMethod.name)).toList := by
  cases methods with
  | nil => rfl
  | cons method methods =>
      rw [methodList, List.isEmpty_cons, if_neg Bool.false_ne_true, text_separated, List.map_map]
      exact (String.toList_intercalate.trans (congrArg _ List.map_map)).symm

/-- The names on the line about permissions are those of the rights. -/
theorem granted_eq {permitted : PermittedRepository} {permissions : Permissions}
    (known : permitted.permissions = some permissions) :
    granted permissions = (Right.all.filter (Right.isGranted permitted)).map Right.name := by
  rcases permitted with ⟨repository, block⟩
  cases known
  rcases permissions with ⟨admin, push, pull⟩
  cases admin <;> cases push <;> cases pull <;> rfl

/-- A line for data says what is stated of the data. -/
theorem text_lineFor {α : Type} {line : α -> Line} {statement : α -> Statement}
    (data : Option α) (same : ∀ a ∈ data, Line.text (line a) = (statement a).text.toList) :
    (lineFor data line).map Line.text =
      (data.map statement).toList.map fun statement => statement.text.toList := by
  cases data with
  | none => rfl
  | some a => exact congrArg (fun text => [text]) (same a rfl)

theorem text_header (repository : Repository) :
    Line.text (header repository) =
      (Statement.header repository.fullName repository.isPrivate).text.toList := by
  unfold header Statement.text
  cases repository.isPrivate <;>
    simp [Line.text, Piece.text, String.toList_append]

theorem text_organizationLine (organization : Organization) :
    Line.text (organizationLine organization) =
      (Statement.organization organization.displayName organization.login).text.toList := by
  apply text_entry
  simp only [Line.text, Piece.text, List.flatMap_cons, List.flatMap_nil, List.append_nil,
    String.toList_append, List.append_assoc]

theorem text_countsLine (detailed : DetailedRepository) :
    Line.text (countsLine detailed) =
      (Statement.counts detailed.repository.stars detailed.repository.forks
        detailed.networkCount detailed.subscribersCount).text.toList := by
  have optional : forall data : Option UInt64,
      Line.text [orNothing (data.map countText)] = (data.elim "none" countText).toList := by
    intro data
    cases data <;> exact text_single _
  change Line.text (entry "Stars" _ ++ entry "Forks" _ ++ entry "Network" _ ++
    entry "Subscribers" _) = _
  rw [Line.text_append, Line.text_append, Line.text_append, text_entry (text_single _),
    text_entry (text_single _), text_entry (optional _), text_entry (optional _)]
  simp only [Statement.text, String.toList_append, Piece.text]

theorem text_topicLines (topic : Topic) :
    (topicLines detailed topic).map Line.text =
      (statement? detailed topic).toList.map fun statement => statement.text.toList := by
  cases topic with
  | header => exact congrArg (fun text => [text]) (text_header _)
  | description => exact text_lineFor _ fun text _ => text_entry (text_single _)
  | owner => exact congrArg (fun text => [text]) (text_entry (text_single _))
  | organization => exact text_lineFor _ fun organization _ => text_organizationLine organization
  | branch => exact text_lineFor _ fun text _ => text_entry (text_single _)
  | archive =>
      unfold topicLines statement?
      cases detailed.repository.isArchived with
      | false => rfl
      | true => exact congrArg (fun text => [text]) (text_entry (text_single _))
  | push => exact text_lineFor _ fun text _ => text_entry (text_single _)
  | counts => exact congrArg (fun text => [text]) (text_countsLine detailed)
  | permissions =>
      refine text_lineFor _ fun permissions known => text_entry ?_
      rw [← granted_eq known, text_single]
      exact congrArg String.toList (listed_eq (granted permissions))
  | methods => exact congrArg (fun text => [text]) (text_entry (text_methodList _))
  | parent => exact text_lineFor _ fun text _ => text_entry (text_single _)
  | root => exact text_lineFor _ fun text _ => text_entry (text_single _)

/-- What a summary says, line by line. -/
def statements : List Statement := Topic.all.filterMap (statement? detailed)

theorem text_summary :
    (summary detailed).map Line.text =
      (statements detailed).map fun statement => statement.text.toList := by
  simp only [summary_eq_flatMap, statements, List.filterMap_eq_flatMap_toList, List.map_flatMap,
    text_topicLines]

variable {detailed}

/-- What is said about a topic is due and about that topic. -/
theorem due_of_statement? {topic : Topic} {statement : Statement}
    (found : statement? detailed topic = some statement) :
    Due detailed statement ∧ statement.topic = topic := by
  cases topic with
  | header =>
      cases found
      exact ⟨.header, rfl⟩
  | description =>
      rcases Option.map_eq_some_iff.mp found with ⟨text, known, rfl⟩
      exact ⟨.description known, rfl⟩
  | owner =>
      cases found
      exact ⟨.owner, rfl⟩
  | organization =>
      rcases Option.map_eq_some_iff.mp found with ⟨organization, known, rfl⟩
      exact ⟨.organization known, rfl⟩
  | branch =>
      rcases Option.map_eq_some_iff.mp found with ⟨name, known, rfl⟩
      exact ⟨.branch known, rfl⟩
  | archive =>
      rcases Option.ite_none_right_eq_some.mp found with ⟨isArchived, same⟩
      cases same
      exact ⟨.archived isArchived, rfl⟩
  | push =>
      rcases Option.map_eq_some_iff.mp found with ⟨instant, known, rfl⟩
      exact ⟨.pushed known, rfl⟩
  | counts =>
      cases found
      exact ⟨.counts, rfl⟩
  | permissions =>
      rcases Option.map_eq_some_iff.mp found with ⟨permissions, known, rfl⟩
      exact ⟨.permissions (Option.isSome_of_mem known), rfl⟩
  | methods =>
      cases found
      exact ⟨.methods, rfl⟩
  | parent =>
      rcases Option.map_eq_some_iff.mp found with ⟨parent, known, rfl⟩
      exact ⟨.forkedFrom known, rfl⟩
  | root =>
      rcases Option.map_eq_some_iff.mp found with ⟨source, known, rfl⟩
      rcases distinctSource_eq_some_iff.mp known with ⟨rooted, unnamed⟩
      exact ⟨.forkRoot rooted unnamed, rfl⟩

/-- What is due is said about its topic. -/
theorem statement?_of_due {statement : Statement} (due : Due detailed statement) :
    statement? detailed statement.topic = some statement := by
  cases due with
  | header | owner | counts | methods => rfl
  | description known | organization known | branch known | pushed known | forkedFrom known =>
      simp only [Statement.topic, statement?, known, Option.map_some]
  | archived isArchived => exact if_pos isArchived
  | permissions known =>
      rcases Option.isSome_iff_exists.mp known with ⟨permissions, known⟩
      simp only [Statement.topic, statement?, known, Option.map_some]
  | forkRoot rooted unnamed =>
      have distinct := distinctSource_eq_some_iff.mpr ⟨rooted, unnamed⟩
      exact congrArg (Option.map Statement.forkRoot) distinct

theorem mem_statements_iff {statement : Statement} :
    statement ∈ statements detailed ↔ Due detailed statement := by
  rw [statements, List.mem_filterMap]
  constructor
  · rintro ⟨topic, _, found⟩
    exact (due_of_statement? found).1
  · intro due
    exact ⟨statement.topic, statement.topic.mem_all, statement?_of_due due⟩

/-- Each topic has one line or none, in the order of the topics. -/
theorem topics_sublist : ((statements detailed).map Statement.topic).Sublist Topic.all := by
  have kept : forall topic, (statement? detailed topic).map Statement.topic =
      Option.guard (fun topic => (statement? detailed topic).isSome) topic := by
    intro topic
    cases found : statement? detailed topic with
    | none => simp only [Option.map_none, Option.guard, found, Option.isSome_none,
        Bool.false_eq_true, if_false]
    | some statement => simp only [Option.map_some, Option.guard, found, Option.isSome_some,
        if_true, (due_of_statement? found).2]
  rw [statements, List.map_filterMap, funext kept, List.filterMap_eq_filter]
  exact List.filter_sublist

end Topics

/-!
## Splitting the text
-/

/-- A text that has no line feed. -/
def Unbroken (text : String) : Prop := '\n' ∉ text.toList

namespace Unbroken

instance (text : String) : Decidable (Unbroken text) :=
  inferInstanceAs (Decidable ('\n' ∉ text.toList))

theorem append {text later : String} (first : Unbroken text) (second : Unbroken later) :
    Unbroken (text ++ later) := by
  rw [Unbroken, String.toList_append, List.mem_append, not_or]
  exact ⟨first, second⟩

theorem below {label text : String} (named : Unbroken label) (unbroken : Unbroken text) :
    Unbroken (below label text) :=
  .append (.append (.append (by decide) named) (by decide)) unbroken

theorem countText (n : UInt64) : Unbroken (countText n) := by
  intro listed
  cases isDigit_toString n.toNat _ listed

theorem listed {names : List String} (unbroken : ∀ name ∈ names, Unbroken name) :
    Unbroken (listed names) := by
  have joined : Unbroken (String.intercalate ", " names) := by
    induction names with
    | nil => decide
    | cons name names inductionHypothesis =>
        rcases List.forall_mem_cons.mp unbroken with ⟨first, others⟩
        cases names with
        | nil => simpa only [String.intercalate_singleton] using first
        | cons next names =>
            rw [String.intercalate_cons_cons]
            exact .append (.append first (by decide)) (inductionHypothesis others)
  cases names with
  | nil => decide
  | cons => exact joined

end Unbroken

/-- Where no own text has a line feed, no line has one. -/
theorem unbroken_of_due {detailed : DetailedRepository} {statement : Statement}
    (unbroken : ∀ text ∈ Aspect.summary.ownTexts detailed, Unbroken text)
    (due : Due detailed statement) : Unbroken statement.text := by
  have count : forall data : Option UInt64, Unbroken (data.elim "none" countText) := by
    intro data
    cases data with
    | none => decide
    | some n => exact .countText n
  simp only [Aspect.ownTexts, List.forall_mem_append, List.forall_mem_singleton] at unbroken
  rcases unbroken with ⟨⟨⟨⟨⟨⟨name, description⟩, owner⟩, organization⟩, branch⟩, parent⟩, source⟩
  cases due with
  | header =>
      refine .append (.append (.append name (by decide)) ?_) (by decide)
      cases detailed.repository.isPrivate <;> decide
  | description known =>
      rw [known] at description
      exact .below (by decide) (description _ List.mem_cons_self)
  | owner => exact .below (by decide) owner
  | organization known =>
      rw [known] at organization
      rcases List.forall_mem_cons.mp organization with ⟨displayName, rest⟩
      have login := rest _ List.mem_cons_self
      exact .below (by decide)
        (.append (.append (.append displayName (by decide)) login) (by decide))
  | branch known =>
      rw [known] at branch
      exact .below (by decide) (branch _ List.mem_cons_self)
  | archived => decide
  | @pushed instant =>
      exact .below (by decide) (notMem_summary (by decide) (by decide) (by decide) instant)
  | counts =>
      exact .append (.append (.append (.below (by decide) (.countText _))
        (.below (by decide) (.countText _))) (.below (by decide) (count _)))
        (.below (by decide) (count _))
  | permissions =>
      refine .below (by decide) (.listed fun name isName => ?_)
      rcases List.mem_map.mp isName with ⟨right, _, rfl⟩
      cases right <;> decide
  | methods =>
      refine .below (by decide) (.listed fun name isName => ?_)
      rcases List.mem_map.mp isName with ⟨method, _, rfl⟩
      cases method <;> decide
  | forkedFrom known =>
      rw [known] at parent
      exact .below (by decide) (parent _ List.mem_cons_self)
  | forkRoot rooted unnamed =>
      rw [distinctSource_eq_some_iff.mpr ⟨rooted, unnamed⟩] at source
      exact .below (by decide) (source _ List.mem_cons_self)

theorem joinLines_plainly (lines : List Line) :
    joinLines false lines = ['\n'].intercalate (lines.map Line.text) := by
  fun_induction joinLines false lines with
  | case1 => rfl
  | case2 line => exact (Line.chars_plainly line).trans List.intercalate_singleton.symm
  | case3 line lines some_line inductionHypothesis =>
      rcases List.exists_cons_of_ne_nil some_line with ⟨next, others, rfl⟩
      rw [List.map_cons] at inductionHypothesis
      rw [List.map_cons, List.map_cons, List.intercalate_cons_cons, ← inductionHypothesis,
        Line.chars_plainly, List.append_assoc]
      rfl

/-- The text of a summary is its statements, one a line. -/
theorem splitOn_summary {detailed : DetailedRepository}
    (unbroken : ∀ text ∈ Aspect.summary.ownTexts detailed, Unbroken text) :
    (Aspect.summary.render .text false detailed).toList.splitOn '\n' =
      (statements detailed).map fun statement => statement.text.toList := by
  rw [Aspect.render, String.toList_ofList, Aspect.lines, joinLines_plainly, text_summary]
  refine List.splitOn_intercalate '\n' ?_ ?_
  · intro line listed
    rcases List.mem_map.mp listed with ⟨statement, stated, rfl⟩
    exact unbroken_of_due unbroken (mem_statements_iff.mp stated)
  · exact List.ne_nil_of_mem (List.mem_map_of_mem (mem_statements_iff.mpr .owner))

/-!
## Lineage
-/

/-- Only the last two topics name other repositories. -/
theorem unrelated_of_topic {detailed : DetailedRepository} {topic : Topic}
    (notParent : topic ≠ .parent) (notRoot : topic ≠ .root) :
    (statement? detailed topic).bind Statement.related? = none := by
  cases found : statement? detailed topic with
  | none => rfl
  | some statement =>
      have about := (due_of_statement? found).2
      cases statement with
      | forkedFrom => exact absurd about.symm notParent
      | forkRoot => exact absurd about.symm notRoot
      | _ => rfl

/-- The other repositories that a summary names, line by line. -/
theorem related_statements (detailed : DetailedRepository) :
    (statements detailed).filterMap Statement.related? =
      detailed.parent.toList ++ (distinctSource detailed).toList := by
  have earlier : (Topic.all.take 10).filterMap
      (fun topic => (statement? detailed topic).bind Statement.related?) = [] := by
    refine List.filterMap_eq_nil_iff.mpr fun topic listed => unrelated_of_topic ?_ ?_
    · rintro rfl
      exact absurd listed (by decide)
    · rintro rfl
      exact absurd listed (by decide)
  rw [statements, List.filterMap_filterMap, ← List.take_append_drop 10 Topic.all,
    List.filterMap_append, earlier, List.nil_append]
  change [Topic.parent, Topic.root].filterMap _ = _
  simp only [List.filterMap_eq_flatMap_toList, List.flatMap_cons, List.flatMap_nil,
    List.append_nil, statement?]
  cases detailed.parent <;> cases distinctSource detailed <;> rfl

/-- The last repository that is named is the top of the fork network, or has
its number. -/
theorem id_of_last_related {detailed : DetailedRepository} {last : Repository}
    (isLast : (detailed.parent.toList ++ (distinctSource detailed).toList).getLast? = some last) :
    last.id = detailed.forkRoot.id := by
  unfold DetailedRepository.forkRoot
  cases distinct : distinctSource detailed with
  | some source =>
      rw [distinct, Option.toList_some, List.getLast?_concat] at isLast
      rw [(distinctSource_eq_some_iff.mp distinct).1]
      exact congrArg Repository.id (Option.some.inj isLast).symm
  | none =>
      rw [distinct, Option.toList_none, List.append_nil] at isLast
      cases forked : detailed.parent with
      | none =>
          rw [forked] at isLast
          cases isLast
      | some parent =>
          rw [forked] at isLast
          cases isLast
          cases rooted : detailed.source with
          | none => rfl
          | some source =>
              -- A source that is left out has the number of the parent.
              by_contra different
              have named := distinctSource_eq_some_iff.mpr ⟨rooted, fun parent isParent => by
                cases forked.symm.trans isParent
                exact different⟩
              exact absurd (distinct.symm.trans named) nofun

theorem exists_related_iff (detailed : DetailedRepository) :
    (∃ statement ∈ statements detailed, statement.related?.isSome) ↔
      detailed.parent.isSome ∨ detailed.source.isSome := by
  simp only [mem_statements_iff]
  constructor
  · rintro ⟨statement, due, related⟩
    cases due with
    | forkedFrom forked => exact .inl (Option.isSome_of_mem forked)
    | forkRoot rooted _ => exact .inr (Option.isSome_of_mem rooted)
    | _ => cases related
  · intro isFork
    cases forked : detailed.parent with
    | some parent => exact ⟨.forkedFrom parent, .forkedFrom forked, rfl⟩
    | none =>
        rw [forked] at isFork
        rcases Option.isSome_iff_exists.mp (isFork.resolve_left nofun) with ⟨source, rooted⟩
        have unnamed : forall parent, detailed.parent = some parent -> parent.id ≠ source.id :=
          fun parent isParent => nomatch forked.symm.trans isParent
        exact ⟨.forkRoot source, .forkRoot rooted unnamed, rfl⟩

/-- A text that splits into the lines of a summary. -/
structure Summarizes (detailed : DetailedRepository) (text : String)
    (statements : List Statement) : Prop where
  lines : text.toList.splitOn '\n' = statements.map fun statement => statement.text.toList
  due_iff : forall statement, statement ∈ statements ↔ Due detailed statement
  ordered : (statements.map Statement.topic).Sublist Topic.all
  once : (statements.map Statement.topic).Nodup
  lineage_iff : (∃ statement ∈ statements, statement.related?.isSome) ↔
    detailed.parent.isSome ∨ detailed.source.isSome
  /-- The last repository that is named besides the own one. -/
  root : forall last, (statements.filterMap Statement.related?).getLast? = some last ->
    last.id = detailed.forkRoot.id

/-- The text of a summary is the lines that are due, in the order of their
topics, as long as none of them is broken by a text of the repository. -/
theorem summary_lines {detailed : DetailedRepository}
    (unbroken : ∀ text ∈ Aspect.summary.ownTexts detailed, Unbroken text) :
    Exists fun statements =>
      Summarizes detailed (Aspect.summary.render .text false detailed) statements :=
  ⟨statements detailed,
    { lines := splitOn_summary unbroken
      due_iff := fun _ => mem_statements_iff
      ordered := topics_sublist
      once := topics_sublist.nodup (by decide)
      lineage_iff := exists_related_iff detailed
      root := fun _ isLast => id_of_last_related (related_statements detailed ▸ isLast) }⟩

def directParent : Repository :=
  { ancientRepository.repository with id := 9, fullName := "acme/old" }

/-- A fork with every line but that of its root, which is its parent under
another name. -/
def directFork : DetailedRepository where
  base :=
    { repository :=
        { ancientRepository.repository with
          fullName := "me/fork", description := some "a: b", isArchived := true
          defaultBranch := some "main" }
      permissions := some { pull := true } }
  squashSetting := some true
  organization := some ⟨"acme", 7, some "Acme", none, none, none, none⟩
  parent := some directParent
  source := some { directParent with fullName := "acme/new" }
  networkCount := some 3

theorem summary_lines_directFork :
    (∀ text ∈ Aspect.summary.ownTexts directFork, Unbroken text) ∧
    Exists fun statements =>
      Summarizes directFork (Aspect.summary.render .text false directFork) statements ∧
      .forkedFrom directParent ∈ statements ∧
      forall source, .forkRoot source ∉ statements := by
  have unbroken : ∀ text ∈ Aspect.summary.ownTexts directFork, Unbroken text := by
    decide +kernel
  rcases summary_lines unbroken with ⟨found, summarizes⟩
  refine ⟨unbroken, found, summarizes, ?_, fun source isLine => ?_⟩
  · exact (summarizes.due_iff _).mpr (.forkedFrom rfl)
  · cases (summarizes.due_iff _).mp isLine with
    | forkRoot rooted unnamed =>
        cases rooted
        exact unnamed directParent rfl rfl

end View
end RepoInspector
