import RepoInspector.Command.Line

namespace RepoInspector
namespace Program

open Command
open Settings

/-!
# Help

The library that reads the command line also writes what the program says about
it: the help, the complaints about a line that asks for no command, and the
scripts by which shells complete it.  The texts of that library are no part of
this development.  Those below stand in for them, put together from the same
words and in words of their own, so nothing is to be learnt from what they say,
and no result looks into them.  Of the help and of the complaints it is used
only that they are prose and no documents; each of them comes with its proof.
-/

def name : String := "ghrepo"

def version : String := "0.1.0"

/-- The options that every command takes. -/
def options : List String := ["--format", "--color", "--config", "--help", "--version"]

/-- The words with which a command line can begin. -/
def firstWords : List String :=
  (Level.branches .program).map Prod.fst ++ options

def wordList : String :=
  String.intercalate " " firstWords

def choiceList (α : Type) [Choice α] : String :=
  String.intercalate ", " (Choice.names α)

def usage : String :=
  "Usage: " ++ name ++ " [OPTIONS] COMMAND\n"

/-- A text for people: it does not begin like a document. -/
structure Prose where
  text : String
  notDocument : text.toList.head? ≠ some '\x7b'

/-- Prose with more text behind it. -/
def Prose.append (first : Prose) (some_char : first.text.toList ≠ []) (rest : String) : Prose where
  text := first.text ++ rest
  notDocument := by
    rw [String.toList_append, List.head?_append, List.head?_eq_some_head some_char,
      Option.some_or, ← List.head?_eq_some_head some_char]
    exact first.notDocument

/-- What the program is for. -/
def purpose : Prose := ⟨"Inspect GitHub repository detail payloads\n\n", by decide⟩

/-- The answer to a request for help. -/
def help : Prose :=
  purpose.append (by decide) <| usage ++
    "\nCommands:\n" ++
    "  show, s [FILE]           Show a summary of a repository payload\n" ++
    "  merge-methods, m [FILE]  List the merge methods that the repository allows\n" ++
    "  lineage, l [FILE]        Show the parent and the source of a fork\n" ++
    "  config, cfg show|path    Show the configuration or where it is looked for\n" ++
    "  completions SHELL        Generate completions: " ++
      String.intercalate ", " (Shell.all.map Shell.name) ++ "\n" ++
    "  help                     Show this help\n" ++
    "\nOptions:\n" ++
    "  -o, --format FORMAT      " ++ choiceList View.Format ++ "\n" ++
    "      --color WHEN         " ++ choiceList ColourChoice ++ "\n" ++
    "      --config PATH        The only settings file to read\n" ++
    "  -h, --help               Show this help\n" ++
    "  -V, --version            Show the version\n"

/-- How a complaint begins. -/
def complaintOpening : Prose := ⟨"error: ", by decide⟩

/-- What is wrong with a command line. -/
def faultText : UsageFault -> String
  | .help | .version | .nothingGiven => ""
  | .missingCommand => "a command is required\n"
  | .missingArgument => "an argument is required\n"
  | .unknownCommand => "unrecognized command\n"
  | .unknownArgument => "unexpected argument\n"
  | .invalidValue => "invalid value\n"
  | .conflict => "an option is given more than once\n"
  | .tooManyValues => "an option takes no value\n"

/-- The complaint about a command line. -/
def complaint (fault : UsageFault) : Prose :=
  complaintOpening.append (by decide) (faultText fault ++ usage)

/-- The script by which a shell completes the words of a command line. -/
def completions : Shell -> String
  | .bash => "complete -o default -W '" ++ wordList ++ "' " ++ name ++ "\n"
  | .elvish =>
      "set edit:completion:arg-completer[" ++ name ++ "] = \x7b|@words| put " ++ wordList ++
        " \x7d\n"
  | .fish => "complete -c " ++ name ++ " -a '" ++ wordList ++ "'\n"
  | .powershell =>
      "Register-ArgumentCompleter -Native -CommandName " ++ name ++
        " -ScriptBlock \x7b param($word) -split '" ++ wordList ++
        "' | Where-Object \x7b $_ -like \"$word*\" \x7d \x7d\n"
  | .zsh => "compctl -f -k '(" ++ wordList ++ ")' " ++ name ++ "\n"

end Program
end RepoInspector
