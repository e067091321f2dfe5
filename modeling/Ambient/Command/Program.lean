import Ambient.Command.Help
import Ambient.Command.List
import Ambient.Snapshot.Parse

/-!
# The program

Declarations go to the standard output, or to a file with a short report; notices
and errors go beside the output. The exit code is zero for success, one for a
failure, and two for a command line that means nothing.
-/

namespace Ambient.Program

inductive ExitCode where
  | success
  | failure
  | usageError
  deriving DecidableEq, Inhabited, Repr

def ExitCode.toNat : ExitCode → Nat
  | .success => 0
  | .failure => 1
  | .usageError => 2

def versionText : String := "glidetypes 0.3.0\n"

/-- A script that makes a shell complete the names of the subcommands. -/
def completionScript : Shell → String
  | .bash => "complete -W 'generate list completions help' glidetypes\n"
  | .elvish =>
    "set edit:completion:arg-completer[glidetypes] = "
      ++ "\x7b|@words| put generate list completions help \x7d\n"
  | .fish => "complete -c glidetypes -f -a 'generate list completions help'\n"
  | .powershell =>
    "Register-ArgumentCompleter -Native -CommandName glidetypes -ScriptBlock "
      ++ "\x7b 'generate', 'list', 'completions', 'help' \x7d\n"
  | .zsh => "#compdef glidetypes\ncompadd generate list completions help\n"

variable {m : Type → Type} {Handle : Type} [Monad m] [Host m Handle]

def fail (message : String) : m ExitCode := do
  Host.notify message
  return .failure

/-- Goes on with the snapshot in a file, if it can be read and is valid. -/
def withSnapshot (path : String) (run : Connection → m ExitCode) : m ExitCode := do
  match Snapshot.ofFile path (← Host.read? path) with
  | .error error => fail error.message
  | .ok snapshot => run { repository := snapshot.repository }

def printReport (lines : List ReportLine) : m Unit :=
  lines.forM ReportLine.print

def runGenerate (options : GenerateOptions) (connection : Connection) : m ExitCode := do
  match ← generateSelected options connection with
  | .error error => fail error.message
  | .ok report =>
    if report.writtenToFile then printReport report.lines
    return .success

def runList (options : ListOptions) (connection : Connection) : m ExitCode := do
  match listGroups options.mode options.tables connection {} with
  | (.error error, _) => fail error.message
  | (.ok groups, _) =>
    printReport (listReport groups)
    return .success

def runRequest : Request → m ExitCode
  | .generate snapshot options => withSnapshot snapshot (runGenerate options)
  | .list snapshot options => withSnapshot snapshot (runList options)
  | .completions shell => do
    Host.print (completionScript shell)
    return .success

/-- Runs the program with the arguments of a command line. -/
def run (arguments : List String) : m ExitCode := do
  match Arguments.parse arguments with
  | .ok request => runRequest request
  | .error (.help topic form) =>
    Host.print (Help.text topic form)
    return .success
  | .error .version =>
    Host.print versionText
    return .success
  | .error .usageError =>
    Host.notify (Help.text .program .brief)
    return .usageError

end Ambient.Program
