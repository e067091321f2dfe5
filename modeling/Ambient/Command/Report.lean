import Ambient.Files.Target
import Ambient.Render.Generator

/-!
# Reports

What a command tells about its result, as lines of a few kinds.
-/

namespace Ambient

inductive ReportLine where
  | heading (name : String)
  | keyValue (key value : String)
  | listItem (text : String)
  | warning (text : String)
  | newline
  deriving DecidableEq, Inhabited, Repr

namespace ReportLine

/-- The line as it is printed. -/
def text : ReportLine → String
  | .heading name => name ++ ":"
  | .keyValue key value => key ++ ": " ++ value
  | .listItem text => "  " ++ text
  | .warning text => "warning: " ++ text
  | .newline => ""

/-- Prints a line; warnings go beside the output. -/
def print {m : Type → Type} {Handle : Type} [Host m Handle] (line : ReportLine) : m Unit :=
  match line with
  | .warning _ => Host.notify line.text
  | _ => Host.print (line.text ++ "\n")

end ReportLine

structure GenerateReport where
  target : OutputTarget
  summary : RenderSummary
  deriving DecidableEq, Inhabited, Repr

namespace GenerateReport

def writtenToFile (report : GenerateReport) : Bool :=
  match report.target with
  | .standardOutput => false
  | .file _ _ => true

def lines (report : GenerateReport) : List ReportLine :=
  (if report.summary.cancelled then [.warning "render was cancelled; output is incomplete"] else [])
    ++ if report.summary.tables = 0 then [.warning "no tables selected; nothing was written"]
      else
        [.keyValue "Generated" report.target.displayPath,
         .keyValue "Tables" (toString report.summary.tables),
         .keyValue "Namespace groups" (toString report.summary.groups)]

end GenerateReport

/-- A group and the names of its tables. -/
structure GroupListing where
  name : String
  tables : List String
  deriving DecidableEq, Inhabited, Repr

namespace GroupListing

def lines (group : GroupListing) : List ReportLine :=
  .heading (group.name ++ " (" ++ toString group.tables.length ++ ")")
    :: group.tables.map .listItem

end GroupListing

/-- The groups one after the other, empty lines between them. -/
def listReport (groups : List GroupListing) : List ReportLine :=
  if groups.isEmpty then [.warning "no tables in snapshot"]
  else [ReportLine.newline].intercalate (groups.map GroupListing.lines)

end Ambient
