import Ambient.Json.Token
import Ambient.Snapshot.Schema

/-!
# Snapshots in JSON

A record is an object, or, unless it is an element, an array of its values in
order. A name that is given twice is a fault in a record; in a map the last one
counts. Values of the wrong kind are taken first and refused then, but an array or
object that is out of place is not entered.
-/

namespace Ambient.SnapshotFile.Json

open Ambient.Json Reading

/-! ## Single values -/

/-- Refuses the value that comes next. -/
def refuse {α : Type} : Reader α := do
  match ← next? with
  | some '[' | some '{' => faultHere
  | _ =>
    let _ ← skim .kept 0
    faultHere

def text : Reader String := do
  if (← next?) = some '"' then string .kept else refuse

def flag : Reader Bool := do
  match ← next? with
  | some 't' | some 'f' =>
    match ← skim .kept 0 with
    | .bool value => return value
    | .other => faultHere
  | _ => refuse

/-- The largest number a field can hold. -/
def maxNumber : Nat := UInt32.size - 1

def number32 : Reader UInt32 := do
  match ← next? with
  | some c =>
    if c == '-' || c.isDigit then
      let n ← number .kept
      if n.integral && ! n.negative && n.significand ≤ maxNumber then
        return UInt32.ofNat n.significand
      else faultHere
    else refuse
  | none => refuse

/-- `null`, or a value. -/
def optional {α : Type} (value : Reader α) : Reader (Option α) := do
  if (← next?) = some 'n' then
    let _ ← skim .kept 0
    return none
  else some <$> value

def field {ρ : Type} (record : ρ) : Field ρ → Reader ρ
  | .text put => return put record (← text)
  | .optionalText put => return put record (← optional text)
  | .optionalNumber put => return put record (← optional number32)
  | .flag put => return put record (← flag)

/-! ## Records and maps -/

/-- A place in a record that reads its own value. -/
structure Slot (ρ : Type) where
  name : String
  mayBeLeftOut : Bool
  read : ρ → Reader ρ

def Slot.ofField {ρ : Type} (entry : String × Field ρ) : Slot ρ where
  name := entry.1
  mayBeLeftOut := entry.2.mayBeLeftOut
  read record := field record entry.2

/-- Gives up on an object, past its end if that comes next. -/
def leaveObject {α : Type} : Reader α := do
  if (← next?) = some '}' then advance
  faultHere

/-- Gives up on an array at its end, past the end. -/
def leaveArray {α : Type} : Reader α := do
  advance
  faultHere

/-- The values of a record in the order of its slots; no more of them are allowed. -/
def listed {ρ : Type} (slots : List (Slot ρ)) (record : ρ) : Reader ρ := do
  advance
  let record ← go true slots record
  match ← next? with
  | some ']' => advance; return record
  | some ',' => advance; let _ ← next?; faultPast
  | _ => faultPast
where
  go (first : Bool) : List (Slot ρ) → ρ → Reader ρ
    | [], record => pure record
    | slot :: slots, record => do
      if ← hasItem first then go false slots (← slot.read record)
      else if slot.mayBeLeftOut then go first slots record
      else leaveArray

/-- One member of a record. The names met so far are kept, since none may come again. -/
def recordMember {ρ : Type} (slots : List (Slot ρ)) (state : List String × ρ) (key : String) :
    Reader (List String × ρ) := do
  match slots.find? (·.name == key) with
  | none => colon; ignore; return state
  | some slot =>
    if key ∈ state.1 then leaveObject
    colon
    return (key :: state.1, ← slot.read state.2)

def record {ρ : Type} (slots : List (Slot ρ)) (initial : ρ) : Reader ρ := do
  match ← next? with
  | some '[' => listed slots initial
  | some '{' => return (← object .kept (recordMember slots) ([], initial)).2
  | _ => refuse

/-- A map from names; the last value of a name counts. -/
def map {α : Type} (value : Reader α) : Reader (NameMap α) := do
  if (← next?) = some '{' then
    object .kept (fun m name => do colon; return m.insert name (← value)) ∅
  else refuse

/-- A slot that holds a map. -/
def Slot.ofMap {ρ α : Type} (name : String) (value : Reader α) (put : ρ → NameMap α → ρ) :
    Slot ρ where
  name
  mayBeLeftOut := true
  read record := return put record (← map value)

/-! ## Elements -/

/-- An element as far as it is read. Values under names that are no fields are kept until the
element is complete. -/
structure PartialElement where
  met : List String := []
  attributes : ElementAttributes := {}
  others : List (String × Skimmed) := []

/-- How many brackets may be open inside a value of an element that is kept. -/
def maxOpen : Nat := 122

def elementMember (state : PartialElement) (key : String) : Reader PartialElement := do
  match elementFields.find? (·.1 == key) with
  | none =>
    colon
    return { state with others := (key, ← skim .kept maxOpen) :: state.others }
  | some (_, entry) =>
    if key ∈ state.met then leaveObject
    colon
    return { state with met := key :: state.met, attributes := ← field state.attributes entry }

/-- Sets the flags among the other values. None may be given twice or be anything but a truth
value. -/
def setFlags (flags : ElementFlags) : List (String × Skimmed) → Option ElementFlags
  | [] => some flags
  | (key, value) :: rest =>
    match flagFields.find? (·.1 == key) with
    | none => setFlags flags rest
    | some (_, put) =>
      match value with
      | .bool b => if rest.any (·.1 == key) then none else setFlags (put flags b) rest
      | .other => none

def element : Reader ElementAttributes := do
  if (← next?) = some '{' then
    let read ← object .kept elementMember {}
    match setFlags {} read.others with
    | some flags => return { read.attributes with flags }
    | none => faultHere
  else refuse

/-! ## Snapshots -/

def table : Reader TableEntry :=
  record (tableFields.map .ofField ++ [.ofMap elementsField element fun t elements =>
    { t with elements }]) {}

def described (fields : List (String × Field (Option String))) : Reader (Option String) :=
  record (fields.map .ofField) none

def snapshotSlots : List (Slot Snapshot) :=
  [.ofMap "tables" table fun s tables => { s with tables },
   .ofMap "packages" (described descriptionFields) fun s packages => { s with packages },
   .ofMap "scopes" (described descriptionFields) fun s scopes => { s with scopes },
   .ofMap "types" (described labelFields) fun s types => { s with types }]

/-- A snapshot and nothing after it. -/
def document : Reader Snapshot := do
  let snapshot ← record snapshotSlots {}
  match ← next? with
  | none => return snapshot
  | some _ => faultPast

/-- Reads a snapshot. A fault comes with the number of bytes taken. -/
def read (content : String) : Except Nat Snapshot :=
  match document content.toList with
  | .ok (snapshot, _) => .ok snapshot
  | .error fault => .error (Text.byteLength content.toList - fault.remaining)

end Ambient.SnapshotFile.Json
