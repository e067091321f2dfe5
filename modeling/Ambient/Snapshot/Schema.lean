import Ambient.Schema.Snapshot

/-!
# The form of snapshot files

A snapshot file is a record of four maps. A record is a set of named fields; each
field takes one kind of value. Where a format also allows a record to be written
as a list of its values, they stand in the order given here. Fields that no schema
names are allowed and mean nothing.
-/

namespace Ambient.SnapshotFile

/-- What a field takes, and how it is put into the record. -/
inductive Field (ρ : Type) where
  | text (put : ρ → String → ρ)
  /-- A text that may be missing. In a list of values it has to have a place all the same. -/
  | optionalText (put : ρ → Option String → ρ)
  /-- A number of 32 bits that may be missing. -/
  | optionalNumber (put : ρ → Option UInt32 → ρ)
  | flag (put : ρ → Bool → ρ)

/-- Whether a list of values may end before this field. -/
def Field.mayBeLeftOut {ρ : Type} : Field ρ → Bool
  | .text _ | .flag _ => true
  | .optionalText _ | .optionalNumber _ => false

def tableFields : List (String × Field TableEntry) :=
  [("label", .text fun t label => { t with attributes.label := label }),
   ("extends", .optionalText fun t superName => { t with attributes.superName := superName }),
   ("package", .optionalText fun t package => { t with attributes.package := package }),
   ("number_prefix", .optionalText fun t text => { t with attributes.numberPrefix := text }),
   ("extendable", .flag fun t extendable => { t with attributes.extendable := extendable }),
   ("scope", .optionalText fun t scope => { t with attributes.scope := scope })]

/-- The field of a table that follows the others and holds its elements by name. -/
def elementsField : String := "elements"

def elementFields : List (String × Field ElementAttributes) :=
  [("label", .text fun e label => { e with label }),
   ("type", .text fun e typeName => { e with typeName }),
   ("reference", .optionalText fun e reference => { e with reference }),
   ("max_length", .optionalNumber fun e maxLength => { e with maxLength }),
   ("size_class", .optionalNumber fun e sizeClass => { e with sizeClass }),
   ("default_value", .optionalText fun e defaultValue => { e with defaultValue }),
   ("comments", .optionalText fun e comments => { e with comments }),
   ("package", .optionalText fun e package => { e with package })]

/-- The fields of an element that set its flags. -/
def flagFields : List (String × (ElementFlags → Bool → ElementFlags)) :=
  [("primary", fun f primary => { f with primary }),
   ("mandatory", fun f mandatory => { f with mandatory }),
   ("active", fun f active => { f with active }),
   ("array", fun f array => { f with array }),
   ("read_only", fun f readOnly => { f with readOnly }),
   ("display", fun f display => { f with display }),
   ("calculated", fun f calculated => { f with calculated }),
   ("unique", fun f unique => { f with unique })]

/-- The one field of a package, a scope or a scalar type. -/
def describedBy (name : String) : List (String × Field (Option String)) :=
  [(name, .optionalText fun _ text => text)]

def descriptionFields : List (String × Field (Option String)) := describedBy "description"

def labelFields : List (String × Field (Option String)) := describedBy "label"

end Ambient.SnapshotFile
