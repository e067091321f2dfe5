import Ambient.Proofs.Layout.Partition
import Ambient.Proofs.Render.Complete

/-!
# What is gathered from a document

Much that is told of a document is a list that is gathered from its items, in their
order, to which blanks and comments add nothing: the types at a place, the names there,
the references that are written, the lines of code. From a complete document every such
list is gathered group by group, and in a group namespace by namespace.
-/

namespace Ambient

open TypeScript (Document Item)

/-- What `f` tells of a document is told of its items, and nothing of blanks and comments. -/
structure TypeScript.Gathers {β : Type} (f : Document → List β) : Prop where
  append : ∀ first second, f (first ++ second) = f first ++ f second
  blank : f [.blank] = []
  comment : ∀ lines, f [.comment lines] = []

section Gathers

variable {β : Type} {f : Document → List β} (h : TypeScript.Gathers f)

namespace TypeScript.Gathers

include h in
theorem nil : f [] = [] := by
  have hnil := h.append [] []
  rw [List.append_nil] at hnil
  exact List.self_eq_append_left.mp hnil

include h in
theorem cons (item : Item) (document : Document) :
    f (item :: document) = f [item] ++ f document :=
  h.append [item] document

include h in
theorem intersperse (items : List Item) :
    f (items.intersperse .blank) = items.flatMap fun item => f [item] := by
  cases items with
  | nil => exact h.nil
  | cons item items =>
    rw [PassM.intersperse_cons, h.cons, List.flatMap_cons]
    congr 1
    induction items with
    | nil => exact h.nil
    | cons next items ih =>
      rw [List.flatMap_cons, h.append, ih, h.cons, h.blank, List.nil_append, List.flatMap_cons]

include h in
theorem comments (comments : List (List String)) : f (comments.map .comment) = [] := by
  induction comments with
  | nil => exact h.nil
  | cons lines comments ih => rw [List.map_cons, h.cons, h.comment, ih, List.nil_append]

end TypeScript.Gathers

namespace Repository

variable {r : Repository} {site : Site} {tables : List Table}

include h in
theorem gather_passesDocument :
    f (r.passesDocument site tables) =
      [NamespaceKind.records, .elements, .fields].flatMap fun kind =>
        f [r.kindNamespace site tables kind] := by
  have hsplit : r.passesDocument site tables =
      [r.kindNamespace site tables .records] ++ ([.blank]
        ++ ([r.kindNamespace site tables .elements] ++ ([.blank]
          ++ [r.kindNamespace site tables .fields]))) := rfl
  rw [hsplit, h.append, h.append [.blank], h.append [r.kindNamespace site tables .elements],
    h.append [.blank], h.blank]
  simp only [List.nil_append, List.flatMap_cons, List.flatMap_nil, List.append_nil]

include h in
/-- The headers of a scope add nothing. -/
theorem gather_groupDocument :
    f (r.groupDocument site tables) =
      match site.group.enclosing? with
      | none => f (r.passesDocument site tables)
      | some name => f [.namespace "declare namespace" name (r.passesDocument site tables)] := by
  unfold groupDocument
  cases site.group.enclosing? with
  | none => rfl
  | some name =>
    show f (List.map _ _ ++ _) = _
    rw [h.append, h.comments, List.nil_append]

include h in
theorem gather_groupsDocument (index : TableIndex) (begun : Bool)
    (groups : List (Group × List Table)) :
    f (r.groupsDocument index begun groups) =
      groups.flatMap fun entry => f (r.groupDocument ⟨entry.1, index⟩ entry.2) := by
  have hbegun : f (if begun then [.blank] else []) = [] := by
    cases begun with
    | false => exact h.nil
    | true => exact h.blank
  induction groups generalizing begun with
  | nil => exact h.nil
  | cons entry rest ih =>
    rw [groupsDocument, h.append, h.append, hbegun, ih true h.blank, List.flatMap_cons,
      List.nil_append]

include h in
theorem gather_document (mode : RenderMode) (tables : List Table) :
    f (r.document mode tables) =
      (partition mode tables).flatMap fun entry =>
        f (r.groupDocument ⟨entry.1, .ofTables mode tables⟩ entry.2) :=
  gather_groupsDocument h _ false _

end Repository

end Gathers

end Ambient
