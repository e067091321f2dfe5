import Ambient.Proofs.Document.Places
import Ambient.Proofs.TypeScript.Strip

/-!
# The code in a document

`codeLines` lists the lines of a document that are code: the statements of its
declarations and the lines around them. Where each of them is self-contained, they are
all that is left of the text when it is stripped; documentation is nowhere to be seen,
and neither is whether an empty interface was closed on its own line.
-/

namespace Ambient.TypeScript

open Code (Fragment fragmentLines writtenAt)

/-! ## What fragments leave -/

theorem fragmentLines_append (first second : List Fragment) :
    fragmentLines (first ++ second) = fragmentLines first ++ fragmentLines second := by
  induction first with
  | nil => rw [List.nil_append, fragmentLines, List.nil_append]
  | cons fragment first ih =>
    rw [List.cons_append, fragmentLines, ih, fragmentLines, List.append_assoc]

/-- At any depth, and whatever comes next, stripping the text of the fragments leaves `code`. -/
def Leaves (fragments : List Fragment) (code : List Char) : Prop :=
  ∀ depth rest, strip .code ((writtenAt depth (fragmentLines fragments)).toList ++ rest) =
    code ++ strip .code rest

theorem leaves_nil : Leaves [] [] := fun _ _ => by
  rw [fragmentLines, writtenAt]
  rfl

theorem Leaves.append {first second : List Fragment} {code code' : List Char}
    (h : Leaves first code) (h' : Leaves second code') :
    Leaves (first ++ second) (code ++ code') := by
  intro depth rest
  rw [fragmentLines_append, Code.writtenAt_append, String.toList_append, List.append_assoc, h, h',
    List.append_assoc]

theorem leaves_blank : Leaves [.blank] [] := by
  intro depth rest
  rw [fragmentLines, fragmentLines, List.append_nil, Fragment.lines, writtenAt, writtenAt,
    String.append_empty, List.nil_append]
  show strip .code ("\n".toList ++ rest) = _
  rw [show "\n".toList = ['\n'] from rfl, List.singleton_append]
  exact strip_code_blank (by decide) rest

theorem leaves_doc (texts : List String) : Leaves [.doc texts] [] := by
  intro depth rest
  rw [fragmentLines, fragmentLines, List.append_nil, Fragment.lines, strip_doc]
  rfl

theorem leaves_docFragments (texts : List String) : Leaves (docFragments texts) [] := by
  -- an empty documentation is not even a comment
  unfold docFragments
  split
  · exact leaves_nil
  · exact leaves_doc texts

theorem leaves_line {text : String} (h : SelfContained text.toList) :
    Leaves [.line text] (codeOf text) := by
  intro depth rest
  rw [fragmentLines, fragmentLines, List.append_nil, Fragment.lines, writtenAt, writtenAt,
    String.append_empty, strip_code_line h]
  rfl

theorem leaves_block {header close : String} {body : List Fragment} {code : List Char}
    (hheader : SelfContained header.toList) (hclose : SelfContained close.toList)
    (hbody : Leaves body code) :
    Leaves [.block header body (some close)] (codeOf header ++ code ++ codeOf close) := by
  intro depth rest
  rw [fragmentLines, fragmentLines, List.append_nil, Fragment.lines, Option.toList_some,
    List.map_singleton, List.cons_append, writtenAt, Code.writtenAt_append,
    Code.writtenAt_map_deeper, writtenAt, writtenAt, String.append_empty, String.toList_append,
    String.toList_append, List.append_assoc, List.append_assoc, strip_code_line hheader, hbody,
    strip_code_line hclose]
  simp only [List.append_assoc]
  rfl

/-! ## What documents leave -/

mutual

/-- The lines of an item that are code. -/
def Item.code : Item → List String
  | .blank | .comment _ => []
  | .alias a => [a.statement]
  | .interface i => i.header :: i.properties.map Property.statement ++ ["\x7d"]
  | .namespace keyword name body =>
    (keyword ++ " " ++ name ++ " \x7b") :: codeLines body ++ ["\x7d"]

/-- The lines of a document that are code. -/
def codeLines : Document → List String
  | [] => []
  | item :: items => item.code ++ codeLines items

end

theorem selfContained_close : SelfContained "\x7d".toList := selfContained_of_plain (by decide)

theorem leaves_members {members : List Member}
    (h : ∀ property ∈ members.filterMap Member.property?,
      SelfContained property.statement.toList) :
    Leaves (members.flatMap Member.fragments)
      (((members.filterMap Member.property?).map Property.statement).flatMap codeOf) := by
  induction members with
  | nil => exact leaves_nil
  | cons member members ih =>
    cases member with
    | comment lines =>
      rw [List.flatMap_cons]
      exact (leaves_doc lines).append (ih h)
    | property p =>
      rw [List.flatMap_cons]
      have hstatement := leaves_line (h p List.mem_cons_self)
      have hrest := ih fun q hq => h q (List.mem_cons_of_mem p hq)
      exact ((leaves_docFragments p.doc).append hstatement).append hrest

theorem leaves_interface {i : Interface}
    (h : ∀ line ∈ (Item.interface i).code, SelfContained line.toList) :
    Leaves i.fragments ((Item.interface i).code.flatMap codeOf) := by
  have hheader : SelfContained i.header.toList := h _ (by rw [Item.code]; exact List.mem_cons_self)
  have hproperties : ∀ p ∈ i.properties, SelfContained p.statement.toList := by
    intro p hp
    refine h _ ?_
    rw [Item.code]
    exact List.mem_cons_of_mem _ (List.mem_append_left _ (List.mem_map_of_mem hp))
  have hcode : (Item.interface i).code.flatMap codeOf =
      [] ++ (codeOf i.header ++ (i.properties.map Property.statement).flatMap codeOf
        ++ codeOf "\x7d") := by
    rw [Item.code, List.cons_append, List.flatMap_cons, List.flatMap_append, List.append_assoc,
      List.flatMap_singleton, List.nil_append]
  rw [hcode]
  refine (leaves_docFragments i.doc).append ?_
  split
  · -- without members the interface is closed on the line of its header
    rename_i hempty
    have hproperties : i.properties = [] := by
      rw [Interface.properties, List.isEmpty_iff.mp hempty]
      rfl
    have hclosed : codeOf (i.header ++ " \x7d") = codeOf i.header ++ codeOf "\x7d" := by
      rw [codeOf, String.toList_append, hheader]
      rfl
    rw [hproperties, List.map_nil, List.flatMap_nil, List.append_nil, ← hclosed]
    refine leaves_line ?_
    rw [String.toList_append]
    exact hheader.append (selfContained_of_plain (by decide))
  · exact leaves_block hheader selfContained_close (leaves_members hproperties)

mutual

theorem leaves_item (item : Item) (h : ∀ line ∈ item.code, SelfContained line.toList) :
    Leaves item.fragments (item.code.flatMap codeOf) := by
  match item with
  | .blank =>
    rw [Item.fragments, Item.code]
    exact leaves_blank
  | .comment lines =>
    rw [Item.fragments, Item.code]
    exact leaves_doc lines
  | .alias a =>
    rw [Item.fragments, Item.code, List.flatMap_singleton]
    rw [Item.code] at h
    exact (leaves_docFragments a.doc).append (leaves_line (h _ List.mem_cons_self))
  | .interface i =>
    rw [Item.fragments]
    exact leaves_interface h
  | .namespace keyword name body =>
    rw [Item.code] at h
    have hbody : Leaves (documentFragments body) ((codeLines body).flatMap codeOf) :=
      leaves_document body fun line hline =>
        h line (List.mem_cons_of_mem _ (List.mem_append_left _ hline))
    rw [Item.fragments, Item.code, List.cons_append, List.flatMap_cons, List.flatMap_append,
      List.flatMap_singleton, ← List.append_assoc]
    exact leaves_block (h _ List.mem_cons_self) selfContained_close hbody

theorem leaves_document (document : Document)
    (h : ∀ line ∈ codeLines document, SelfContained line.toList) :
    Leaves (documentFragments document) ((codeLines document).flatMap codeOf) := by
  match document with
  | [] =>
    rw [documentFragments, codeLines]
    exact leaves_nil
  | item :: items =>
    rw [codeLines] at h
    have hitem := leaves_item item fun line hline => h line (List.mem_append_left _ hline)
    have hitems := leaves_document items fun line hline => h line (List.mem_append_right _ hline)
    rw [documentFragments, codeLines, List.flatMap_append]
    exact hitem.append hitems

end

/-- **The code of a document's text** is that of its code lines. -/
theorem codeOf_text {document : Document}
    (h : ∀ line ∈ codeLines document, SelfContained line.toList) :
    codeOf document.text = (codeLines document).flatMap codeOf := by
  have hleaves := leaves_document document h 0 []
  rw [List.append_nil, strip, List.append_nil] at hleaves
  rw [← hleaves, codeOf, Document.text, Document.writeTo, Code.Builder.applyAll_eq]
  show strip .code ("" ++ _).toList = _
  rw [String.empty_append]

end Ambient.TypeScript
