import Ambient.Proofs.Document.Places

/-!
# Names that are looked up

A reference is resolved from the place where it is written. Its first segment is looked
up in the innermost namespace around the place that has a member of that name, and
outwards up to the top level; from there the path goes down segment by segment, and the
last segment names a type.

`writtenIn` lists the references of a document, each with its place, in the order in
which they are written.
-/

namespace Ambient.TypeScript

/-- The name under which an item is a member of the namespace it stands in. -/
def Item.name? : Item → Option String
  | .blank | .comment _ => none
  | .alias a => some a.name
  | .interface i => some i.name
  | .namespace _ name _ => some name

/-- The names of the members at a place. -/
def namesAt (place : List String) (document : Document) : List String :=
  (itemsAt place document).filterMap Item.name?

/-- The innermost of the places around `inner`, from `outer` down, that has a member `name`. -/
def homeFrom (document : Document) (name : String) (outer : List String) :
    (inner : List String) → Option (List String)
  | [] => if name ∈ namesAt outer document then some outer else none
  | segment :: inner =>
    (homeFrom document name (outer ++ [segment]) inner).or
      (if name ∈ namesAt outer document then some outer else none)

/-- Where a name is found that is written at `place`. -/
def home? (document : Document) (place : List String) (name : String) : Option (List String) :=
  homeFrom document name [] place

/-- The types that a reference may mean where it is written at `place`. -/
def resolve (document : Document) (place : List String) (reference : Reference) : List Item :=
  match reference.segments.head?.bind (home? document place) with
  | none => []
  | some home =>
    (typesAt (home ++ reference.segments.dropLast) document).filter
      (·.name? == reference.segments.getLast?)

/-- Written at `place`, the reference means one declaration: `item`, which stands at `target`. -/
def RefersTo (document : Document) (place : List String) (reference : Reference)
    (target : List String) (item : Item) : Prop :=
  (∃ home, reference.segments.head?.bind (home? document place) = some home ∧
      target = home ++ reference.segments.dropLast) ∧
    resolve document place reference = [item]

theorem RefersTo.unique {document : Document} {place target target' : List String}
    {reference : Reference} {item item' : Item}
    (h : RefersTo document place reference target item)
    (h' : RefersTo document place reference target' item') : target = target' ∧ item = item' := by
  obtain ⟨⟨home, hhome, rfl⟩, hresolve⟩ := h
  obtain ⟨⟨home', hhome', rfl⟩, hresolve'⟩ := h'
  refine ⟨?_, List.singleton_inj.mp (hresolve.symm.trans hresolve')⟩
  rw [Option.some.inj (hhome.symm.trans hhome')]

mutual

/-- The references written in an item that stands at `place`. -/
def Item.written (place : List String) : Item → List (List String × Reference)
  | .blank | .comment _ => []
  | .alias a => a.value.references.map (place, ·)
  | .interface i => (i.base.toList ++ i.properties.map (·.type)).map (place, ·)
  | .namespace _ name body => writtenIn (place ++ [name]) body

/-- The references written in a document that stands at `place`. -/
def writtenIn (place : List String) : Document → List (List String × Reference)
  | [] => []
  | item :: items => item.written place ++ writtenIn place items

end

/-- What is taken of the items at a place, nothing being taken of blanks and comments. -/
theorem gathers_filterMap_itemsAt {β : Type} {f : Item → Option β} (hblank : f .blank = none)
    (hcomment : ∀ lines, f (.comment lines) = none) (place : List String) :
    Gathers fun document => (itemsAt place document).filterMap f where
  append first second := by
    rw [itemsAt_append, List.filterMap_append]
  blank := by
    cases place with
    | nil => exact List.filterMap_cons_none hblank
    | cons name place => rw [(gathers_itemsAt name place).blank, List.filterMap_nil]
  comment lines := by
    cases place with
    | nil => exact List.filterMap_cons_none (hcomment lines)
    | cons name place => rw [(gathers_itemsAt name place).comment, List.filterMap_nil]

theorem gathers_namesAt (place : List String) : Gathers (namesAt place) :=
  gathers_filterMap_itemsAt rfl (fun _ => rfl) place

theorem gathers_writtenIn (place : List String) : Gathers (writtenIn place) where
  append first second := by
    induction first with
    | nil => rfl
    | cons item first ih => rw [List.cons_append, writtenIn, ih, writtenIn, List.append_assoc]
  blank := rfl
  comment _ := rfl

/-! ## Lookups by depth -/

/-- Where a name is found that is written in a namespace at the top level. -/
theorem home?_outer (document : Document) (outer name : String) :
    home? document [outer] name =
      if name ∈ namesAt [outer] document then some [outer]
      else if name ∈ namesAt [] document then some [] else none := by
  show Option.or (if name ∈ namesAt [outer] document then some [outer] else none) _ = _
  split
  · rfl
  · rfl

/-- Where a name is found that is written one namespace further in. -/
theorem home?_inner (document : Document) (outer inner name : String) :
    home? document [outer, inner] name =
      if name ∈ namesAt [outer, inner] document then some [outer, inner]
      else home? document [outer] name := by
  show Option.or (Option.or
    (if name ∈ namesAt [outer, inner] document then some [outer, inner] else none) _) _ = _
  split
  · rfl
  · rfl

end Ambient.TypeScript
