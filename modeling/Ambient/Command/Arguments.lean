import Ambient.Command.Options

/-!
# The command line

Options have a long name, most have a letter too, and some take a value, which may
be attached or follow as the next argument. Letters of options without a value may
share an argument. An option counts once, except for those that may be repeated.
Asking for help or for the version takes effect at once, and so does a mistake.
-/

namespace Ambient

structure ListOptions where
  mode : RenderMode := .scoped
  tables : List String := []
  deriving DecidableEq, Inhabited, Repr

/-- What the program is asked to do. -/
inductive Request where
  | generate (snapshot : String) (options : GenerateOptions)
  | list (snapshot : String) (options : ListOptions)
  | completions (shell : Shell)
  deriving DecidableEq, Inhabited, Repr

namespace Arguments

/-- How much help is asked for: a letter asks for little, a word for all of it. -/
inductive HelpForm where
  | brief
  | full
  deriving DecidableEq, Inhabited, Repr

/-- Why there is no request. -/
inductive Detour where
  | help (topic : Topic) (form : HelpForm)
  | version
  | usageError
  deriving DecidableEq, Inhabited, Repr

/-! ## Settings -/

/-- What the arguments of a subcommand say, in the order in which they say it. -/
structure Settings where
  given : List (Opt × String) := []
  shells : List Shell := []
  deriving DecidableEq, Inhabited

namespace Settings

def values (settings : Settings) (option : Opt) : List String :=
  (settings.given.filter (·.1 = option)).map Prod.snd

def has (settings : Settings) (option : Opt) : Bool :=
  settings.given.any (·.1 = option)

end Settings

/-- Paths must not be empty and modes must exist; a table may be called anything. -/
def isValue (option : Opt) (value : String) : Bool :=
  match option with
  | .snapshot | .output => ! value.isEmpty
  | .mode => (RenderMode.ofName? value).isSome
  | _ => true

/-- Notes an option and its value. -/
def note (settings : Settings) (option : Opt) (value : String) : Except Detour Settings :=
  if isValue option value && (option.mayRepeat || ! settings.has option) then
    .ok { settings with given := settings.given ++ [(option, value)] }
  else .error .usageError

/-- Notes an option without a value, or does what it asks for. -/
def noteFlag (topic : Topic) (form : HelpForm) (settings : Settings) :
    Opt → Except Detour Settings
  | .help => .error (.help topic form)
  | .version => .error .version
  | option => note settings option ""

/-! ## Arguments -/

/-- What an argument is, going by its looks. -/
inductive Shape where
  /-- `--name`, with the value after `=` if there is one. -/
  | long (name : String) (value : Option String)
  /-- `-xyz` -/
  | letters (letters : List Char)
  /-- `--`, after which nothing is an option. -/
  | separator
  | plain
  deriving DecidableEq, Inhabited

def shape (argument : String) : Shape :=
  match argument.toList with
  | ['-', '-'] => .separator
  | '-' :: '-' :: cs =>
    let name := cs.takeWhile (· != '=')
    let value := cs.drop name.length
    .long (String.ofList name)
      (if value.isEmpty then none else some (String.ofList (value.drop 1)))
  | '-' :: c :: cs => .letters (c :: cs)
  | _ => .plain

/-- Notes the options that stand for letters. The option whose value is still to come is
returned. -/
def readLetters (topic : Topic) (settings : Settings) :
    List Char → Except Detour (Settings × Option Opt)
  | [] => .ok (settings, none)
  | c :: cs =>
    match topic.options.find? (·.letter? = some c) with
    | none => .error .usageError
    | some option =>
      if option.takesValue then
        match cs with
        | [] => .ok (settings, some option)
        | '=' :: value => return (← note settings option (String.ofList value), none)
        | value => return (← note settings option (String.ofList value), none)
      else do readLetters topic (← noteFlag topic .brief settings option) cs

/-- Notes an option called by its long name. -/
def readLong (topic : Topic) (settings : Settings) (name : String) (value : Option String) :
    Except Detour (Settings × Option Opt) :=
  match topic.options.find? (·.long = name) with
  | none => .error .usageError
  | some option =>
    match option.takesValue, value with
    | true, some value => return (← note settings option value, none)
    | true, none => .ok (settings, some option)
    | false, none => return (← noteFlag topic .full settings option, none)
    | false, some _ => .error .usageError

/-- Notes an argument that is no option. Only completions take one: the shell. -/
def readPlain (subcommand : Subcommand) (settings : Settings) (argument : String) :
    Except Detour Settings :=
  match subcommand, settings.shells, Shell.ofName? argument with
  | .completions, [], some shell => .ok { settings with shells := [shell] }
  | _, _, _ => .error .usageError

/-- Reads the arguments after a subcommand. `pending` is an option that waits for its value. -/
def readArguments (subcommand : Subcommand) (settings : Settings) :
    (pending : Option Opt) → List String → Except Detour Settings
  | none, [] => .ok settings
  | some _, [] => .error .usageError
  | some option, argument :: rest =>
    match shape argument with
    | .plain => do readArguments subcommand (← note settings option argument) none rest
    | _ => .error .usageError
  | none, argument :: rest =>
    match shape argument with
    | .plain => do readArguments subcommand (← readPlain subcommand settings argument) none rest
    | .separator => rest.foldlM (readPlain subcommand) settings
    | .long name value => do
      let (settings, pending) ← readLong (.subcommand subcommand) settings name value
      readArguments subcommand settings pending rest
    | .letters cs => do
      let (settings, pending) ← readLetters (.subcommand subcommand) settings cs
      readArguments subcommand settings pending rest

/-! ## Requests -/

def Settings.snapshot (settings : Settings) : String :=
  (settings.values .snapshot).head?.getD defaultSnapshot

def Settings.mode (settings : Settings) : RenderMode :=
  ((settings.values .mode).head?.bind RenderMode.ofName?).getD defaultMode

def request (subcommand : Subcommand) (settings : Settings) : Except Detour Request :=
  match subcommand with
  | .generate =>
    .ok (.generate settings.snapshot {
      output := if settings.has .dryRun then none else (settings.values .output).head?
      overwrite := settings.has .overwrite
      mode := settings.mode
      tables := settings.values .table })
  | .list =>
    .ok (.list settings.snapshot { mode := settings.mode, tables := settings.values .table })
  | .completions =>
    match settings.shells with
    | [shell] => .ok (.completions shell)
    | _ => .error .usageError

/-- `help` may be asked for any subcommand, itself included. -/
def helpRequest : List String → Detour
  | [] => .help .program .full
  | ["help"] => .help .help .full
  | [name] =>
    match Subcommand.ofName? name with
    | some subcommand => .help (.subcommand subcommand) .full
    | none => .usageError
  | _ => .usageError

/-- Reads a command line without the program's name. -/
def parse : List String → Except Detour Request
  | [] => .error .usageError
  | argument :: rest =>
    match shape argument with
    | .plain =>
      if argument = "help" then .error (helpRequest rest)
      else
        match Subcommand.ofName? argument with
        | some subcommand => do request subcommand (← readArguments subcommand {} none rest)
        | none => .error .usageError
    | .separator => .error .usageError
    | .long name value => do
      let _ ← readLong .program {} name value
      parse rest
    | .letters cs => do
      let _ ← readLetters .program {} cs
      parse rest

end Arguments

end Ambient
