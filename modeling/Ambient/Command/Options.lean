import Ambient.Command.Generate

/-!
# Options

What a command line may say: the subcommands, the options that each of them knows,
and the values that options take. The options of a subcommand stand in the order in
which its help tells about them.
-/

namespace Ambient

/-! ## Values -/

inductive Shell where
  | bash
  | elvish
  | fish
  | powershell
  | zsh
  deriving DecidableEq, Inhabited, Repr

namespace Shell

def name : Shell → String
  | .bash => "bash"
  | .elvish => "elvish"
  | .fish => "fish"
  | .powershell => "powershell"
  | .zsh => "zsh"

def all : List Shell := [.bash, .elvish, .fish, .powershell, .zsh]

def ofName? (name : String) : Option Shell := all.find? (·.name = name)

theorem ofName?_name (shell : Shell) : ofName? shell.name = some shell := by
  cases shell <;> rfl

end Shell

namespace RenderMode

def name : RenderMode → String
  | .global => "global"
  | .scoped => "scoped"

def all : List RenderMode := [.global, .scoped]

def ofName? (name : String) : Option RenderMode := all.find? (·.name = name)

theorem ofName?_name (mode : RenderMode) : ofName? mode.name = some mode := by
  cases mode <;> rfl

end RenderMode

namespace Arguments

/-- The snapshot that is read unless another one is named. -/
def defaultSnapshot : String := "snapshot.toml"

/-- The mode of rendering unless another one is named. -/
def defaultMode : RenderMode := .scoped

/-! ## Options -/

inductive Opt where
  | snapshot
  | output
  | overwrite
  | mode
  | table
  | dryRun
  | verbose
  | help
  | version
  deriving DecidableEq, Inhabited, Repr

namespace Opt

def long : Opt → String
  | .snapshot => "snapshot"
  | .output => "output"
  | .overwrite => "overwrite"
  | .mode => "mode"
  | .table => "table"
  | .dryRun => "dry-run"
  | .verbose => "verbose"
  | .help => "help"
  | .version => "version"

def letter? : Opt → Option Char
  | .snapshot => some 's'
  | .output => some 'o'
  | .mode => some 'm'
  | .table => some 't'
  | .verbose => some 'v'
  | .help => some 'h'
  | .version => some 'V'
  | .overwrite | .dryRun => none

def takesValue : Opt → Bool
  | .snapshot | .output | .mode | .table => true
  | .overwrite | .dryRun | .verbose | .help | .version => false

def mayRepeat : Opt → Bool
  | .table | .verbose => true
  | _ => false

end Opt

/-! ## Subcommands -/

inductive Subcommand where
  | generate
  | list
  | completions
  deriving DecidableEq, Inhabited, Repr

namespace Subcommand

def name : Subcommand → String
  | .generate => "generate"
  | .list => "list"
  | .completions => "completions"

def all : List Subcommand := [.generate, .list, .completions]

def ofName? (name : String) : Option Subcommand := all.find? (·.name = name)

theorem ofName?_name (subcommand : Subcommand) :
    ofName? subcommand.name = some subcommand := by
  cases subcommand <;> rfl

def options : Subcommand → List Opt
  | .generate => [.snapshot, .verbose, .output, .overwrite, .mode, .table, .dryRun, .help]
  | .list => [.snapshot, .verbose, .mode, .table, .help]
  | .completions => [.verbose, .help]

end Subcommand

/-- What a part of a command line is about, and what help may be asked about. -/
inductive Topic where
  | program
  | subcommand (subcommand : Subcommand)
  | help
  deriving DecidableEq, Inhabited, Repr

namespace Topic

/-- The options before a subcommand, and those after it. Nothing after `help` is an option. -/
def options : Topic → List Opt
  | .program => [.verbose, .help, .version]
  | .subcommand command => command.options
  | .help => []

end Topic

end Arguments

end Ambient
