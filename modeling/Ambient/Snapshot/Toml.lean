import Ambient.Snapshot.Schema
import Ambient.Toml.Parser

/-!
# Snapshots in TOML

A record is a table, or, unless it is an element, an array of its values in order;
what such an array has too many is not looked at. A date in the place of a record
says nothing about it. A number that cannot be used is a fault wherever it is
looked at, even under a name that means nothing; under such a name in an element,
integers must fit into 64 bits.
-/

namespace Ambient.SnapshotFile.Toml

open Ambient.Toml (Value)

/-! ## Single values -/

def text : Value → Option String
  | .text value => some value
  | _ => none

def flag : Value → Option Bool
  | .bool value => some value
  | _ => none

def number32 : Value → Option UInt32
  | .integer n => if 0 ≤ n && n < UInt32.size then some (UInt32.ofNat n.toNat) else none
  | _ => none

def field {ρ : Type} (record : ρ) (value : Value) : Field ρ → Option ρ
  | .text put => (text value).map (put record)
  | .optionalText put => (text value).map fun text => put record (some text)
  | .optionalNumber put => (number32 value).map fun n => put record (some n)
  | .flag put => (flag value).map (put record)

/-! ## Records and maps -/

/-- A place in a record that decodes its own value. -/
structure Slot (ρ : Type) where
  name : String
  mayBeLeftOut : Bool
  decode : ρ → Value → Option ρ

def Slot.ofField {ρ : Type} (entry : String × Field ρ) : Slot ρ where
  name := entry.1
  mayBeLeftOut := entry.2.mayBeLeftOut
  decode record value := field record value entry.2

/-- The values of a record in the order of its slots. -/
def listed {ρ : Type} : List (Slot ρ) → List Value → ρ → Option ρ
  | [], _, record => some record
  | slot :: slots, [], record => if slot.mayBeLeftOut then listed slots [] record else none
  | slot :: slots, value :: values, record => do listed slots values (← slot.decode record value)

def recordMember {ρ : Type} (slots : List (Slot ρ)) (record : ρ) (member : String × Value) :
    Option ρ :=
  match slots.find? (·.name == member.1) with
  | some slot => slot.decode record member.2
  | none => if member.2.isUsable Ambient.Toml.isInteger128 then some record else none

def record {ρ : Type} (slots : List (Slot ρ)) (initial : ρ) : Value → Option ρ
  | .table members => members.foldlM (recordMember slots) initial
  | .array values => listed slots values initial
  | .datetime => some initial
  | _ => none

/-- A map from names. -/
def map {α : Type} (decode : Value → Option α) : Value → Option (NameMap α)
  | .table members =>
    members.foldlM (fun m (name, value) => (decode value).map (m.insert name)) ∅
  | _ => none

/-- A slot that holds a map. -/
def Slot.ofMap {ρ α : Type} (name : String) (decode : Value → Option α)
    (put : ρ → NameMap α → ρ) : Slot ρ where
  name
  mayBeLeftOut := true
  decode record value := (map decode value).map (put record)

/-! ## Elements -/

def elementMember (attributes : ElementAttributes) (member : String × Value) :
    Option ElementAttributes :=
  match elementFields.find? (·.1 == member.1), flagFields.find? (·.1 == member.1) with
  | some (_, entry), _ => field attributes member.2 entry
  | none, some (_, put) =>
    (flag member.2).map fun value => { attributes with flags := put attributes.flags value }
  | none, none => if member.2.isUsable Ambient.Toml.isInteger64 then some attributes else none

def element : Value → Option ElementAttributes
  | .table members => members.foldlM elementMember {}
  | .datetime => some {}
  | _ => none

/-! ## Snapshots -/

def table : Value → Option TableEntry :=
  record (tableFields.map .ofField ++ [.ofMap elementsField element fun t elements =>
    { t with elements }]) {}

def described (fields : List (String × Field (Option String))) : Value → Option (Option String) :=
  record (fields.map .ofField) none

def snapshotSlots : List (Slot Snapshot) :=
  [.ofMap "tables" table fun s tables => { s with tables },
   .ofMap "packages" (described descriptionFields) fun s packages => { s with packages },
   .ofMap "scopes" (described descriptionFields) fun s scopes => { s with scopes },
   .ofMap "types" (described labelFields) fun s types => { s with types }]

/-- Reads a snapshot, if the text is one. -/
def read? (content : String) : Option Snapshot := do
  record snapshotSlots {} (.table (← Ambient.Toml.read? content))

end Ambient.SnapshotFile.Toml
