import Ambient.Schema.Descriptor
import Ambient.Schema.Table
import Ambient.Text.Quoted

/-!
# Documentation comments

A comment is a list of lines. It opens with a title, free text may follow at once,
and sections stand apart from what is above them by an empty line.
-/

namespace Ambient.Doc

/-- Adds a section; an absent or empty one adds nothing. -/
def withSection (lines : List String) (text : Option String) : List String :=
  match text.filter (! ·.isEmpty) with
  | none => lines
  | some text => if lines.isEmpty then [text] else lines ++ ["", text]

/-- Clauses that share a line; none where there is no clause. -/
def clauses (parts : List String) : Option String :=
  if parts.isEmpty then none else some ("; ".intercalate parts)

/-- A clause that is there only under a condition. -/
def clauseIf (condition : Bool) (text : String) : List String :=
  if condition then [text] else []

/-- Names a package. One that was not found is called by the name it was looked up by. -/
def packageLine (package : Option Package) (name : Option String) : Option String :=
  match package with
  | some package =>
    match package.distinctDescription? with
    | some description =>
      some ("Package: " ++ Text.quoted description ++ " (" ++ package.name ++ ")")
    | none => some ("Package: " ++ package.name)
  | none => (Text.present? name).map ("Package: " ++ ·)

/-! ## Comments on the declarations of a table -/

def recordDoc (table : Table) (package : Option Package) : List String :=
  let lines := [table.labelOrName]
  let lines := withSection lines
    ((Text.present? table.numberPrefix).map ("Auto-number Prefix: " ++ ·))
  let lines := withSection lines (if table.extendable then some "Is Extendable: true" else none)
  withSection lines (packageLine package table.package)

def elementTypeDoc (table : Table) : List String :=
  ["Element referring to a " ++ table.labelOrName ++ " record"]

def fieldsDoc (table : Table) : List String :=
  [table.labelOrName]

end Ambient.Doc
