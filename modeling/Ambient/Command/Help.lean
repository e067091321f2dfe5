import Ambient.Command.Arguments

/-!
# Help

A page of help says what its topic is for and how it is used, and then lists the
subcommands, the arguments and the options, each with a summary. In the brief form
the summaries stand in a column of their own. The full form is for the topics that
explain the values of some option: there a summary stands below its option, and each
value has a line that says what it means.
-/

namespace Ambient.Help

open Arguments

/-! ## Entries -/

/-- A value that an argument may have, and what it means if that has to be said. -/
structure Choice where
  name : String
  meaning : Option String
  deriving DecidableEq, Inhabited, Repr

structure Entry where
  /-- How the argument is written. -/
  synopsis : String
  summary : String
  default : Option String := none
  choices : List Choice := []
  deriving DecidableEq, Inhabited, Repr

def blanks (count : Nat) : String := String.ofList (List.replicate count ' ')

/-- The text, with blanks up to the width. -/
def padded (width : Nat) (text : String) : String := text ++ blanks (width - text.length)

theorem length_padded {width : Nat} {text : String} (h : text.length ≤ width) :
    (padded width text).length = width := by
  rw [padded, String.length_append, blanks, String.length_ofList, List.length_replicate,
    Nat.add_sub_cancel' h]

/-- The length of the longest text. -/
def widthOf : List String → Nat
  | [] => 0
  | text :: texts => max text.length (widthOf texts)

theorem length_le_widthOf {text : String} {texts : List String} (h : text ∈ texts) :
    text.length ≤ widthOf texts := by
  induction texts with
  | nil => cases h
  | cons first texts ih =>
    cases h with
    | head => exact Nat.le_max_left ..
    | tail _ h => exact Nat.le_trans (ih h) (Nat.le_max_right ..)

/-- Texts padded to their common width are equally long, so what follows them is a column. -/
theorem length_padded_widthOf {text : String} {texts : List String} (h : text ∈ texts) :
    (padded (widthOf texts) text).length = widthOf texts :=
  length_padded (length_le_widthOf h)

def remark (label : String) (content : String) : String :=
  "[" ++ label ++ ": " ++ content ++ "]"

namespace Entry

def explainsChoices (entry : Entry) : Bool :=
  entry.choices.any (·.meaning.isSome)

def defaultRemarks (entry : Entry) : List String :=
  (entry.default.map (remark "default")).toList

def choiceRemarks (entry : Entry) : List String :=
  if entry.choices.isEmpty then []
  else [remark "possible values" (", ".intercalate (entry.choices.map Choice.name))]

/-- One line, its summary in the column after synopses of the width. -/
def briefLine (width : Nat) (entry : Entry) : String :=
  "  " ++ padded width entry.synopsis ++ "  "
    ++ " ".intercalate (entry.summary :: (entry.defaultRemarks ++ entry.choiceRemarks))

/-- What stands before the lines below a synopsis. -/
def margin : String := blanks 10

def choiceLine (width : Nat) (choice : Choice) : String :=
  match choice.meaning with
  | none => margin ++ "- " ++ choice.name
  | some meaning => margin ++ "- " ++ padded (width + 2) (choice.name ++ ":") ++ meaning

/-- The choices one below the other. -/
def choiceLines (entry : Entry) : List String :=
  (margin ++ "Possible values:")
    :: entry.choices.map (choiceLine (widthOf (entry.choices.map Choice.name)))

/-- The synopsis and below it what there is to say, in paragraphs. The empty line before the
remarks has the margin as well. -/
def fullLines (entry : Entry) : List String :=
  let remarks :=
    entry.defaultRemarks ++ if entry.explainsChoices then [] else entry.choiceRemarks
  ["  " ++ entry.synopsis, margin ++ entry.summary]
    ++ (if remarks.isEmpty then [] else margin :: remarks.map (margin ++ ·))
    ++ if entry.explainsChoices then "" :: entry.choiceLines else []

end Entry

/-! ## Pages -/

structure Section where
  title : String
  entries : List Entry
  deriving DecidableEq, Inhabited, Repr

namespace Section

def width (part : Section) : Nat := widthOf (part.entries.map Entry.synopsis)

def lines (form : HelpForm) (part : Section) : List String :=
  (part.title ++ ":")
    :: match form with
      | .brief => part.entries.map (Entry.briefLine part.width)
      | .full => [""].intercalate (part.entries.map Entry.fullLines)

end Section

structure Page where
  purpose : String
  usage : String
  parts : List Section
  deriving DecidableEq, Inhabited, Repr

namespace Page

def lines (form : HelpForm) (page : Page) : List String :=
  [page.purpose, "", "Usage: glidetypes " ++ page.usage]
    ++ page.parts.flatMap (fun part => "" :: part.lines form)

def text (form : HelpForm) (page : Page) : String :=
  "\n".intercalate (page.lines form) ++ "\n"

end Page

/-! ## What the pages say -/

def purpose : Topic → String
  | .program => "Generate TypeScript declarations from table metadata"
  | .subcommand .generate => "Generate declarations from a metadata snapshot"
  | .subcommand .list => "List tables by namespace group in render order"
  | .subcommand .completions => "Generate shell completions"
  | .help => "Print this message or the help of the given subcommand(s)"

def usage : Topic → String
  | .program => "[OPTIONS] <COMMAND>"
  | .subcommand .completions => Subcommand.completions.name ++ " [OPTIONS] <SHELL>"
  | .subcommand subcommand => subcommand.name ++ " [OPTIONS]"
  | .help => "help [COMMAND]..."

def modeMeaning : RenderMode → String
  | .global => "Render every table in the global namespace"
  | .scoped => "Wrap tables of each application scope in their own namespace"

def choices : Opt → List Choice
  | .mode => RenderMode.all.map (fun mode => { name := mode.name, meaning := modeMeaning mode })
  | _ => []

/-- Whether the topic has more to say in the full form. -/
def hasFullForm (topic : Topic) : Bool :=
  topic.options.any (fun option => (choices option).any (·.meaning.isSome))

/-- The form in which the topic answers. -/
def formOf (topic : Topic) (form : HelpForm) : HelpForm :=
  if hasFullForm topic then form else .brief

/-- Help about help, with a pointer to the other form where there is one. -/
def helpSummary (topic : Topic) (form : HelpForm) : String :=
  if hasFullForm topic then
    match form with
    | .brief => "Print help (see more with '--help')"
    | .full => "Print help (see a summary with '-h')"
  else "Print help"

def summary (topic : Topic) (form : HelpForm) : Opt → String
  | .snapshot => "Path to the metadata snapshot (TOML or JSON)"
  | .output => "Output file (defaults to standard output)"
  | .overwrite => "Replace the output file if it already exists"
  | .mode => "How tables are grouped into namespaces"
  | .table =>
    (if topic = .subcommand .list then "List" else "Render")
      ++ " only these tables and their ancestors (repeatable)"
  | .dryRun => "Print declarations to standard output instead of writing the output file"
  | .verbose => "Increase log verbosity (-v info, -vv debug, -vvv trace)"
  | .help => helpSummary topic form
  | .version => "Print version"

def default? : Opt → Option String
  | .snapshot => some defaultSnapshot
  | .mode => some defaultMode.name
  | _ => none

/-- The letter and the name of an option, and what follows them. -/
def synopsis (option : Opt) : String :=
  (match option.letter? with
    | some c => String.ofList ['-', c] ++ ", "
    | none => blanks 4)
    ++ "--" ++ option.long
    ++ (if option.takesValue then " <" ++ option.long.map Char.toUpper ++ ">" else "")
    ++ if option = .verbose then "..." else ""

def optionEntry (topic : Topic) (form : HelpForm) (option : Opt) : Entry where
  synopsis := synopsis option
  summary := summary topic form option
  default := default? option
  choices := choices option

def subcommandEntries : List Entry :=
  Subcommand.all.map (fun subcommand =>
    { synopsis := subcommand.name, summary := purpose (.subcommand subcommand) })
    ++ [{ synopsis := "help", summary := purpose .help }]

def shellEntry : Entry where
  synopsis := "<SHELL>"
  summary := "Shell to generate completions for"
  choices := Shell.all.map (fun shell => { name := shell.name, meaning := none })

def subcommandsEntry : Entry where
  synopsis := "[COMMAND]..."
  summary := "Print help for the subcommand(s)"

/-- What stands before the options. -/
def firstParts : Topic → List Section
  | .program => [{ title := "Commands", entries := subcommandEntries }]
  | .subcommand .completions => [{ title := "Arguments", entries := [shellEntry] }]
  | .help => [{ title := "Arguments", entries := [subcommandsEntry] }]
  | _ => []

def optionParts (topic : Topic) (form : HelpForm) : List Section :=
  if topic.options.isEmpty then []
  else [{ title := "Options", entries := topic.options.map (optionEntry topic form) }]

def page (topic : Topic) (form : HelpForm) : Page where
  purpose := purpose topic
  usage := usage topic
  parts := firstParts topic ++ optionParts topic form

/-- The help about a topic. -/
def text (topic : Topic) (form : HelpForm) : String :=
  (page topic form).text (formOf topic form)

end Ambient.Help
