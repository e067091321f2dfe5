import Ambient.Toml.Value

/-!
# Tables under construction

A document defines its tables piece by piece. Every table remembers how it came to
be, since that decides what may still be added to it: a header may complete a
table that earlier headers only passed through, dotted keys may add to tables that
dotted keys made, and a value is complete as it stands.
-/

namespace Ambient.Toml

/-- How a table came to be. -/
inductive Origin where
  /-- By a header of its own. -/
  | header
  /-- On the way of a header to a table further down. -/
  | passed
  /-- On the way of a dotted key. -/
  | dotted
  deriving DecidableEq, Inhabited, Repr

inductive Node where
  | value (value : Value)
  | table (origin : Origin) (members : List (String × Node))
  /-- Tables under one header, the latest first. -/
  | tables (items : List (List (String × Node)))
  deriving Inhabited

abbrev Members := List (String × Node)

namespace Node

mutual

def toValue : Node → Value
  | .value v => v
  | .table _ members => .table (membersToValues members)
  | .tables items => .array (itemsToValues items).reverse

def membersToValues : List (String × Node) → List (String × Value)
  | [] => []
  | (key, node) :: members => (key, node.toValue) :: membersToValues members

def itemsToValues : List (List (String × Node)) → List Value
  | [] => []
  | members :: items => .table (membersToValues members) :: itemsToValues items

end

end Node

namespace Members

def get? (members : Members) (key : String) : Option Node :=
  (members.find? (·.1 == key)).map Prod.snd

/-- Puts a node in the place of an earlier one of the key, or at the end. -/
def put (members : Members) (key : String) (node : Node) : Members :=
  if members.any (·.1 == key) then
    members.map fun member => if member.1 == key then (key, node) else member
  else members ++ [(key, node)]

/-- Changes the table at the end of a path; tables that are missing on the way are made. The
latest of several tables stands for all of them. With `dotted`, the path is that of a dotted
key, which must not pass through a table that has a header. -/
def alter (dotted : Bool) (change : Origin → Members → Option Members) :
    (path : List String) → Origin → Members → Option Members
  | [], origin, members => change origin members
  | key :: path, _, members =>
    match members.get? key with
    | none =>
      let origin := if dotted then .dotted else .passed
      (alter dotted change path origin []).map fun made => members.put key (.table origin made)
    | some (.table origin inner) =>
      if dotted && origin = .header then none
      else
        (alter dotted change path origin inner).map fun changed =>
          members.put key (.table origin changed)
    | some (.tables (latest :: earlier)) =>
      (alter dotted change path .header latest).map fun changed =>
        members.put key (.tables (changed :: earlier))
    | some (.tables []) | some (.value _) => none

/-- Adds a value under a key that is new. A dotted key adds to tables of dotted keys only, a
plain one to any other. -/
def define (members : Members) (path : List String) (key : String) (value : Value) :
    Option Members :=
  members.alter (! path.isEmpty)
    (fun origin inner =>
      if decide (origin = .dotted) == path.isEmpty || (Members.get? inner key).isSome then none
      else some (inner ++ [(key, .value value)]))
    path .header

end Members

/-! ## Documents -/

/-- The table that a document is in the middle of. -/
structure Section where
  path : List String
  key : String
  /-- One of several tables under the same header. -/
  isItem : Bool
  members : Members
  deriving Inhabited

/-- A document up to some line: finished tables, and the section that is open, if a header has
come already. -/
structure Document where
  root : Members := []
  current : Option Section := none
  deriving Inhabited

namespace Document

/-- Puts the open section where it belongs. -/
def finish (document : Document) : Option Members :=
  match document.current with
  | none => some document.root
  | some opened =>
    document.root.alter false
      (fun _ members =>
        if opened.isItem then
          match members.get? opened.key with
          | none => some (members.put opened.key (.tables [opened.members]))
          | some (.tables items) =>
            some (members.put opened.key (.tables (opened.members :: items)))
          | some _ => none
        else some (members.put opened.key (.table .header opened.members)))
      opened.path .header

/-- What a table header starts from: nothing, or the table that headers passed through. -/
def headerMembers (members : Members) (key : String) : Option Members :=
  match members.get? key with
  | none => some []
  | some (.table .passed inner) => some inner
  | some _ => none

/-- Whether one more table may come under a header. -/
def takesItem (members : Members) (key : String) : Bool :=
  match members.get? key with
  | none | some (.tables _) => true
  | some _ => false

/-- The members of the table at the end of a path, after the path has been made. -/
def membersAt (root : Members) (path : List String) : Option (Members × Members) := do
  let made ← root.alter false (fun _ members => some members) path .header
  return (made, ← find made path)
where
  find (members : Members) : List String → Option Members
    | [] => some members
    | key :: path =>
      match members.get? key with
      | some (.table _ inner) => find inner path
      | some (.tables (latest :: _)) => find latest path
      | _ => none

/-- A header opens a section. -/
def openSection (document : Document) (path : List String) (key : String) (isItem : Bool) :
    Option Document := do
  let root ← document.finish
  let (root, members) ← membersAt root path
  if isItem then
    if takesItem members key then
      return { root, current := some { path, key, isItem, members := [] } }
    else none
  else
    let members ← headerMembers members key
    return { root, current := some { path, key, isItem, members } }

def define (document : Document) (path : List String) (key : String) (value : Value) :
    Option Document :=
  match document.current with
  | none => (document.root.define path key value).map fun root => { document with root }
  | some opened =>
    (opened.members.define path key value).map fun members =>
      { document with current := some { opened with members } }

end Document

end Ambient.Toml
