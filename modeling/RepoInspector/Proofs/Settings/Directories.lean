import RepoInspector.Proofs.Settings.Sources

namespace RepoInspector

/-!
# Settings from any working directory

The directory for settings is looked up twice.  Once a directory that the
environment names counts only if it is absolute, and once it counts as it is
written.  Both come to the same file as long as the named directory is
absolute or there is none.  A relative one, and an empty one too, gives a
second file, which is looked for from the working directory on.
-/

namespace Files

namespace Disk

variable {disk : Disk}

/-- Where a program works matters only if a name leads there. -/
theorem follow_unnamed (unnamed : disk.ownDirectory = none)
    (working other names place : List String) :
    disk.follow working names place = disk.follow other names place := by
  induction names generalizing place with
  | nil => rfl
  | cons name names inductionHypothesis =>
      have sameInside : disk.inside working place name = disk.inside other place name := by
        simp only [inside, unnamed, reduceCtorEq, if_false]
      simp only [follow, sameInside, inductionHypothesis]

/-- An entry that an absolute path leads to is the same from every directory,
unless a name leads to this directory. -/
theorem lookup_of_absolute (unnamed : disk.ownDirectory = none) {path : FilePath}
    (absolute : path.isAbsolute = true) (directory other : FilePath) :
    disk.lookup directory path = disk.lookup other path := by
  simp only [lookup, absolute, if_true, follow_unnamed unnamed directory.names other.names]

end Disk

namespace FilePath

theorem same_comm (a b : FilePath) : a.same b = b.same a := by
  simp only [same, eq_comm]

theorem same_self (a : FilePath) : a.same a = true := by
  simp only [same, decide_true, Bool.and_self]

theorem isAbsolute_of_same {a b : FilePath} (same : a.same b = true) :
    a.isAbsolute = b.isAbsolute :=
  of_decide_eq_true (Bool.and_eq_true_iff.mp same).1

theorem nonempty_of_absolute {path : FilePath} (absolute : path.isAbsolute = true) :
    path.text.isEmpty = false := by
  refine Bool.eq_false_iff.mpr fun empty => ?_
  rw [isAbsolute, String.isEmpty_iff.mp empty] at absolute
  cases absolute

/-- A relative path from a directory on is as absolute as the directory. -/
theorem isAbsolute_join (directory : FilePath) {path : FilePath}
    (relative : path.isAbsolute = false) :
    (directory.join path).isAbsolute = directory.isAbsolute := by
  have kept : forall {text : String} (later : String), text.isEmpty = false ->
      isAbsolute ⟨text ++ later⟩ = isAbsolute ⟨text⟩ := by
    intro text later nonempty
    have some_char : text.toList ≠ [] := fun empty =>
      Bool.eq_false_iff.mp nonempty (String.isEmpty_iff.mpr (String.toList_eq_nil_iff.mp empty))
    rcases List.exists_cons_of_ne_nil some_char with ⟨c, rest, chars⟩
    rw [isAbsolute, isAbsolute, String.toList_append, chars]
    rfl
  unfold join
  rw [relative, Bool.false_or]
  split
  case isTrue empty =>
    rw [relative, isAbsolute, String.isEmpty_iff.mp empty]
    rfl
  case isFalse nonempty =>
    split
    case isTrue => exact kept _ (Bool.eq_false_iff.mpr nonempty)
    case isFalse =>
      rw [String.append_assoc]
      exact kept _ (Bool.eq_false_iff.mpr nonempty)

end FilePath
end Files

namespace Settings

open Files
open View

namespace Surroundings

theorem isAbsolute_settingsFile (directory : FilePath) :
    (settingsFile directory).isAbsolute = directory.isAbsolute := by
  change ((directory.join ⟨"ghrepo"⟩).join ⟨"config.toml"⟩).isAbsolute = _
  rw [FilePath.isAbsolute_join _ (by decide), FilePath.isAbsolute_join _ (by decide)]

/-- Paths of which no two have the same names. -/
def Distinct (paths : List FilePath) : Prop :=
  paths.Pairwise fun a b => a.same b = false

theorem distinct_addPath {paths : List FilePath} (distinct : Distinct paths) (path : FilePath) :
    Distinct (addPath paths path) := by
  unfold addPath
  split
  case isTrue => exact distinct
  case isFalse fresh =>
    refine List.pairwise_append.mpr ⟨distinct, List.pairwise_singleton _ _, ?_⟩
    intro a listed b isPath
    cases List.mem_singleton.mp isPath
    rw [FilePath.same_comm]
    exact Bool.eq_false_iff.mpr fun same => fresh (List.any_eq_true.mpr ⟨a, listed, same⟩)

theorem distinct_settingsFiles (surroundings : Surroundings) (explicit : Option FilePath) :
    Distinct (surroundings.settingsFiles explicit) := by
  have folded : forall (added : List FilePath) {paths : List FilePath}, Distinct paths ->
      Distinct (added.foldl addPath paths) := by
    intro added
    induction added with
    | nil => exact fun distinct => distinct
    | cons path added inductionHypothesis =>
        exact fun distinct => inductionHypothesis (distinct_addPath distinct path)
  cases explicit with
  | some path => exact List.pairwise_singleton _ _
  | none => exact folded _ List.Pairwise.nil

/-- A path that is added is there, or one with the same names. -/
theorem exists_same_addPath (paths : List FilePath) (path : FilePath) :
    ∃ there ∈ addPath paths path, path.same there = true := by
  unfold addPath
  split
  case isTrue same => exact List.any_eq_true.mp same
  case isFalse =>
    exact ⟨path, List.mem_append_right paths (List.mem_singleton_self path), path.same_self⟩

/-- If the environment names a directory for settings, it is an absolute one. -/
def NamesAbsolute (surroundings : Surroundings) : Prop :=
  forall directory, surroundings.namedSettings = some directory -> directory.isAbsolute = true

variable {surroundings : Surroundings}

theorem home_of_absolute {home : String} (isHome : surroundings.valueOf? "HOME" = some home)
    (absolute : FilePath.isAbsolute ⟨home⟩ = true) : surroundings.home = some ⟨home⟩ := by
  have nonempty : home.isEmpty = false := FilePath.nonempty_of_absolute absolute
  rw [Surroundings.home, isHome, Option.filter_some, nonempty]
  rfl

/-- An absolute directory gives one settings file, however it is looked up. -/
theorem settingsFiles_single {home : String} (isHome : surroundings.valueOf? "HOME" = some home)
    (absolute : FilePath.isAbsolute ⟨home⟩ = true) (named : surroundings.NamesAbsolute) :
    Exists fun directory => directory.isAbsolute = true ∧
      surroundings.settingsFiles none = [settingsFile directory] := by
  have single : forall {directory : FilePath},
      surroundings.programFile = some (settingsFile directory) ->
      surroundings.userFile = some (settingsFile directory) ->
      surroundings.settingsFiles none = [settingsFile directory] := by
    intro directory program user
    rw [settingsFiles, program, user]
    change addPath [settingsFile directory] (settingsFile directory) = _
    rw [addPath, List.any_cons, FilePath.same_self]
    rfl
  cases isNamed : surroundings.namedSettings with
  | none =>
      have isSettings : surroundings.homeSettings = some (.join ⟨home⟩ ⟨".config"⟩) := by
        rw [homeSettings, home_of_absolute isHome absolute]
        rfl
      refine ⟨FilePath.join ⟨home⟩ ⟨".config"⟩, ?_, single ?_ ?_⟩
      · rw [FilePath.isAbsolute_join _ (by decide), absolute]
      · rw [programFile, isNamed, isSettings]
        rfl
      · rw [userFile, isNamed, isSettings]
        rfl
  | some directory =>
      have absolute := named directory isNamed
      refine ⟨directory, absolute, single ?_ ?_⟩
      · rw [programFile, isNamed, Option.filter_some, absolute]
        rfl
      · rw [userFile, isNamed]
        rfl

/-- Absolute paths alone come only from an absolute directory. -/
theorem namesAbsolute_of_absolute
    (absolute : ∀ path ∈ surroundings.settingsFiles none, path.isAbsolute = true) :
    surroundings.NamesAbsolute := by
  intro directory isNamed
  have user : surroundings.userFile = some (settingsFile directory) := by
    rw [userFile, isNamed]
    rfl
  rcases exists_same_addPath (surroundings.programFile.toList.foldl addPath [])
    (settingsFile directory) with ⟨path, listed, same⟩
  have isAbsolute := absolute path (by
    rw [settingsFiles, user, List.foldl_append]
    exact listed)
  rw [← isAbsolute_settingsFile, FilePath.isAbsolute_of_same same, isAbsolute]

end Surroundings

/-!
## The same files from elsewhere
-/

/-- Surroundings with the same variables and the same files, seen from another
working directory: absolute paths lead to the same. -/
structure Elsewhere (surroundings other : Surroundings) : Prop where
  environment : other.environment = surroundings.environment
  accountHome : other.accountHome = surroundings.accountHome
  lookup : forall path, path.isAbsolute = true -> other.lookup path = surroundings.lookup path

section Elsewhere

variable {surroundings other : Surroundings}

theorem Elsewhere.settingsFiles (elsewhere : Elsewhere surroundings other) :
    other.settingsFiles none = surroundings.settingsFiles none := by
  simp only [Surroundings.settingsFiles, Surroundings.programFile, Surroundings.userFile,
    Surroundings.namedSettings, Surroundings.homeSettings, Surroundings.home,
    Surroundings.valueOf?, elsewhere.environment, elsewhere.accountHome]

/-- The layer of an absolute path is what the path leads to. -/
theorem unnamedLayer_of_absolute {path : FilePath} (absolute : path.isAbsolute = true) :
    Config.unnamedLayer surroundings path =
      match surroundings.lookup path with
      | .file bytes => (Config.fileEntries "" bytes).mapError (Fault.file "")
      | _ => .ok [] := by
  unfold Config.unnamedLayer Config.layer Surroundings.file? Surroundings.fileAbove?
    FilePath.fromAbove
  rw [if_pos absolute]
  cases surroundings.lookup path with
  | nothing fault => rfl
  | directory => rfl
  | file bytes =>
      change (((Config.fileEntries _ bytes).mapError _).map _).mapError _ =
        (Config.fileEntries "" bytes).mapError _
      generalize surroundings.directory.shown (surroundings.directory.join path) = shown
      rw [← Config.fileEntries_unnamed shown]
      cases Config.fileEntries shown bytes <;> rfl

theorem Elsewhere.load (elsewhere : Elsewhere surroundings other)
    (absolute : ∀ path ∈ surroundings.settingsFiles none, path.isAbsolute = true) :
    (Config.load other none).mapError Fault.unnamed =
      (Config.load surroundings none).mapError Fault.unnamed := by
  have layers : (surroundings.settingsFiles none).mapM (Config.unnamedLayer other) =
      (surroundings.settingsFiles none).mapM (Config.unnamedLayer surroundings) := by
    generalize surroundings.settingsFiles none = paths at absolute
    induction paths with
    | nil => rfl
    | cons path paths inductionHypothesis =>
        rcases List.forall_mem_cons.mp absolute with ⟨first, rest⟩
        rw [List.mapM_cons, List.mapM_cons, inductionHypothesis rest,
          unnamedLayer_of_absolute first, unnamedLayer_of_absolute first,
          elsewhere.lookup path first]
  rw [Config.load_unnamed, Config.load_unnamed, elsewhere.settingsFiles, layers,
    elsewhere.environment]

end Elsewhere

/-- The settings are found wherever a run starts.  The same fault is reported
of them, too, but for the name of the file, which is shown from where the run
starts. -/
structure FoundAnywhere (surroundings : Surroundings) : Prop where
  absolute : ∀ path ∈ surroundings.settingsFiles none, path.isAbsolute = true
  distinct : Surroundings.Distinct (surroundings.settingsFiles none)
  loaded : forall other, Elsewhere surroundings other ->
    (Config.load other none).mapError Fault.unnamed =
      (Config.load surroundings none).mapError Fault.unnamed

/-- With an absolute home directory, the settings are found anywhere just when
no other directory is named for them, or an absolute one. -/
theorem foundAnywhere_iff {surroundings : Surroundings} {home : String}
    (isHome : surroundings.valueOf? "HOME" = some home)
    (absolute : FilePath.isAbsolute ⟨home⟩ = true) :
    FoundAnywhere surroundings ↔ surroundings.NamesAbsolute := by
  constructor
  · intro found
    exact Surroundings.namesAbsolute_of_absolute found.absolute
  · intro named
    rcases Surroundings.settingsFiles_single isHome absolute named with
      ⟨directory, isAbsolute, single⟩
    have each : ∀ path ∈ surroundings.settingsFiles none, path.isAbsolute = true := by
      rw [single]
      exact List.forall_mem_singleton.mpr
        ((Surroundings.isAbsolute_settingsFile directory).trans isAbsolute)
    exact
      { absolute := each
        distinct := surroundings.distinct_settingsFiles none
        loaded := fun other elsewhere => elsewhere.load each }

/-- A disk with one settings file, on which no name leads to the working directory. -/
def workDisk : Disk where
  files := [(["work", "xdg", "ghrepo", "config.toml"], "format = \"json\"".toUTF8.toList)]
  directories := [["home", "me"]]
  ownDirectory := none

/-- Surroundings on this disk, with a directory that is named for settings. -/
def atWork (named : String) (directory : FilePath) : Surroundings where
  environment := [("HOME", "/home/me"), ("XDG_CONFIG_HOME", named)]
  directory
  accountHome := none
  terminal := false
  lookup := workDisk.lookup directory

theorem foundAnywhere_named :
    (atWork "/work/xdg" ⟨"/"⟩).valueOf? "HOME" = some "/home/me" ∧
    FilePath.isAbsolute ⟨"/home/me"⟩ = true ∧ FoundAnywhere (atWork "/work/xdg" ⟨"/"⟩) := by
  have isHome : (atWork "/work/xdg" ⟨"/"⟩).valueOf? "HOME" = some "/home/me" := by decide
  have absolute : FilePath.isAbsolute ⟨"/home/me"⟩ = true := by decide
  refine ⟨isHome, absolute, (foundAnywhere_iff isHome absolute).mpr fun directory isNamed => ?_⟩
  cases isNamed
  decide

/-- A relative directory for settings is followed from the working directory
on, so what is loaded changes with it. -/
theorem not_foundAnywhere_relative :
    (atWork "xdg" ⟨"/work"⟩).valueOf? "HOME" = some "/home/me" ∧
    FilePath.isAbsolute ⟨"/home/me"⟩ = true ∧
    Elsewhere (atWork "xdg" ⟨"/work"⟩) (atWork "xdg" ⟨"/"⟩) ∧
    (Config.load (atWork "xdg" ⟨"/work"⟩) none).toOption = some ⟨.json, .auto⟩ ∧
    (Config.load (atWork "xdg" ⟨"/"⟩) none).toOption = some ⟨.text, .auto⟩ ∧
    ¬ FoundAnywhere (atWork "xdg" ⟨"/work"⟩) := by
  refine ⟨by decide, by decide, ⟨rfl, rfl, ?_⟩, by decide +kernel, by decide +kernel, ?_⟩
  · intro path absolute
    exact Disk.lookup_of_absolute rfl absolute _ _
  · intro found
    exact absurd (found.absolute ⟨"xdg/ghrepo/config.toml"⟩ (by decide +kernel)) (by decide)

end Settings
end RepoInspector
