import Ambient.Proofs.Code.Lines
import Ambient.TypeScript.Document

/-!
# Documents that stop early

A document is written piece by piece: the opening line of a namespace, its closing
line, and between them blanks, comments and declarations, each of which is one
piece. A cut of a document is what is left of it when the writing stops between two
pieces and every namespace that is still open is closed.

`Cut.exists_pieces` turns this picture of trees into one of text: the pieces of a
cut are a beginning of the pieces of the whole, and then one closing line for every
namespace that this beginning leaves open.
-/

namespace Ambient.TypeScript

open Code (Builder WholeLines)

/-- `Cut cut whole`: writing `whole` was stopped between two items, and `cut` is what stands. -/
inductive Cut : Document → Document → Prop where
  | stop (whole : Document) : Cut [] whole
  | item (item : Item) {cut whole : Document} : Cut cut whole → Cut (item :: cut) (item :: whole)
  | inside (keyword name : String) {cut body : Document} (rest : Document) : Cut cut body →
      Cut [.namespace keyword name cut] (.namespace keyword name body :: rest)

namespace Cut

theorem refl (whole : Document) : Cut whole whole := by
  induction whole with
  | nil => exact .stop []
  | cons item rest ih => exact .item item ih

theorem append_left (before : Document) {cut whole : Document} (h : Cut cut whole) :
    Cut (before ++ cut) (before ++ whole) := by
  induction before with
  | nil => exact h
  | cons item before ih => exact .item item ih

theorem append_right {cut whole : Document} (h : Cut cut whole) (after : Document) :
    Cut cut (whole ++ after) := by
  induction h with
  | stop whole => exact .stop _
  | item item _ ih => exact .item item ih
  | inside keyword name rest hbody _ => exact .inside keyword name _ hbody

end Cut

/-! ## Pieces -/

/-- What is written in one go. -/
inductive Piece where
  /-- The opening line of a namespace. -/
  | opening (keyword name : String)
  /-- The closing line of a namespace. -/
  | closing
  /-- A blank, a comment or a declaration. -/
  | whole (item : Item)

mutual

def Item.pieces : Item → List Piece
  | .namespace keyword name body => .opening keyword name :: documentPieces body ++ [.closing]
  | item => [.whole item]

/-- The pieces of a document in the order in which they are written. -/
def documentPieces : Document → List Piece
  | [] => []
  | item :: items => item.pieces ++ documentPieces items

end

namespace Piece

def write (b : Builder) : Piece → Builder
  | .opening keyword name => (b.line (keyword ++ " " ++ name ++ " \x7b")).deeper
  | .closing => b.shallower.line "\x7d"
  | .whole item => b.applyAll item.fragments

/-- The depths of the opening lines that are without a closing line once the piece is written at
`depth`, innermost first. -/
def track (depth : Nat) (opened : List Nat) : Piece → List Nat
  | .opening _ _ => depth :: opened
  | .closing => opened.tail
  | .whole _ => opened

end Piece

/-- The builder once the pieces are written. -/
def writePieces (b : Builder) (pieces : List Piece) : Builder := pieces.foldl Piece.write b

/-- The text of pieces that stand at the top level. -/
def piecesText (pieces : List Piece) : String := (writePieces {} pieces).text

/-- The depths of the opening lines that are left open, `opened` before the pieces. -/
def openDepthsFrom (b : Builder) (opened : List Nat) : List Piece → List Nat
  | [] => opened
  | piece :: rest => openDepthsFrom (piece.write b) (piece.track b.depth opened) rest

/-- The depths of the opening lines that pieces at the top level leave open, innermost first. -/
def openDepths (pieces : List Piece) : List Nat := openDepthsFrom {} [] pieces

/-- A closing line at each of the depths. -/
def closingLines : List Nat → String
  | [] => ""
  | depth :: rest => Code.indentation depth ++ "\x7d" ++ "\n" ++ closingLines rest

theorem writePieces_append (b : Builder) (first second : List Piece) :
    writePieces b (first ++ second) = writePieces (writePieces b first) second :=
  List.foldl_append

mutual

theorem writePieces_item (b : Builder) (item : Item) :
    writePieces b item.pieces = b.applyAll item.fragments := by
  match item with
  | .namespace keyword name body =>
    show writePieces (Piece.write b (.opening keyword name)) (documentPieces body ++ [.closing]) = _
    rw [writePieces_append, writePieces_document _ body]
    rfl
  | .blank => rfl
  | .comment lines => rfl
  | .alias a => rfl
  | .interface i => rfl

/-- Writing a document is writing its pieces. -/
theorem writePieces_document (b : Builder) (document : Document) :
    writePieces b (documentPieces document) = document.writeTo b := by
  match document with
  | [] => rfl
  | item :: items =>
    rw [documentPieces, writePieces_append, writePieces_item b item, writePieces_document _ items]
    exact (Builder.applyAll_append b item.fragments (documentFragments items)).symm

end

theorem text_eq_piecesText (document : Document) :
    document.text = piecesText (documentPieces document) := by
  rw [piecesText, writePieces_document]
  rfl

/-! ## What a cut leaves open -/

/-- The open namespaces, the depth of each told by the number of those around it. -/
def nesting (opened : List Nat) (pieces : List Piece) : List Nat :=
  pieces.foldl (fun opened piece => piece.track opened.length opened) opened

theorem nesting_append (opened : List Nat) (first second : List Piece) :
    nesting opened (first ++ second) = nesting (nesting opened first) second :=
  List.foldl_append

mutual

/-- What an item opens, it closes. -/
theorem nesting_item (opened : List Nat) (item : Item) : nesting opened item.pieces = opened := by
  match item with
  | .namespace keyword name body =>
    show nesting (opened.length :: opened) (documentPieces body ++ [.closing]) = _
    rw [nesting_append, nesting_document _ body]
    rfl
  | .blank => rfl
  | .comment lines => rfl
  | .alias a => rfl
  | .interface i => rfl

theorem nesting_document (opened : List Nat) (document : Document) :
    nesting opened (documentPieces document) = opened := by
  match document with
  | [] => rfl
  | item :: items =>
    rw [documentPieces, nesting_append, nesting_item opened item, nesting_document opened items]

end

/-- The pieces of a cut: some first pieces of the whole, and a closing line for each namespace
that these leave open. -/
theorem Cut.exists_pieces {cut whole : Document} (h : Cut cut whole) :
    ∃ (written : List Piece) (left : Nat), written <+: documentPieces whole ∧
      documentPieces cut = written ++ List.replicate left .closing ∧
      ∀ opened : List Nat, (nesting opened written).length = opened.length + left := by
  induction h with
  | stop whole => exact ⟨[], 0, List.nil_prefix, rfl, fun _ => rfl⟩
  | @item item cut whole _ ih =>
    obtain ⟨written, left, hprefix, hcut, hleft⟩ := ih
    refine ⟨item.pieces ++ written, left, ?_, ?_, fun opened => ?_⟩
    · exact (List.prefix_append_right_inj _).mpr hprefix
    · rw [documentPieces, hcut, List.append_assoc]
    · rw [nesting_append, nesting_item, hleft]
  | @inside keyword name cut body rest _ ih =>
    obtain ⟨written, left, hprefix, hcut, hleft⟩ := ih
    -- the namespace that the cut ends in is one more to be closed
    refine ⟨.opening keyword name :: written, left + 1, ?_, ?_, fun opened => ?_⟩
    · show _ <+: Item.pieces (.namespace keyword name body) ++ documentPieces rest
      rw [Item.pieces, List.append_assoc, List.cons_append]
      exact List.cons_prefix_cons.mpr ⟨rfl, hprefix.trans (List.prefix_append _ _)⟩
    · show Item.pieces (.namespace keyword name cut) ++ [] = _
      rw [Item.pieces, hcut, List.append_nil, List.replicate_succ', List.cons_append,
        List.cons_append, List.append_assoc]
    · show (nesting (opened.length :: opened) written).length = _
      rw [hleft, List.length_cons]
      omega

/-! ## The text of a cut -/

/-- At every time the depth of the builder is the number of open namespaces. -/
theorem depth_write {b : Builder} {opened : List Nat} (piece : Piece)
    (h : b.depth = opened.length) :
    (piece.write b).depth = (piece.track opened.length opened).length := by
  cases piece with
  | opening keyword name =>
    show (b.line _).depth + 1 = (opened.length :: opened).length
    rw [Builder.depth_line, h, List.length_cons]
  | closing =>
    show (b.shallower.line _).depth = opened.tail.length
    rw [Builder.depth_line, List.length_tail, ← h]
    rfl
  | whole item =>
    show (b.applyAll item.fragments).depth = opened.length
    rw [Builder.depth_applyAll, h]

theorem depth_writePieces {b : Builder} {opened : List Nat} (pieces : List Piece)
    (h : b.depth = opened.length) :
    (writePieces b pieces).depth = (nesting opened pieces).length := by
  induction pieces generalizing b opened with
  | nil => exact h
  | cons piece pieces ih => exact ih (depth_write piece h)

/-- The number of namespaces around an opening line is the depth it is written at. -/
theorem openDepthsFrom_eq_nesting {b : Builder} {opened : List Nat} (pieces : List Piece)
    (h : b.depth = opened.length) : openDepthsFrom b opened pieces = nesting opened pieces := by
  induction pieces generalizing b opened with
  | nil => rfl
  | cons piece pieces ih =>
    rw [openDepthsFrom, h]
    exact ih (depth_write piece h)

/-- The open namespaces stand one level below the other. -/
theorem nesting_reverse_range (opened : Nat) (pieces : List Piece) :
    ∃ now, nesting (List.range opened).reverse pieces = (List.range now).reverse := by
  induction pieces generalizing opened with
  | nil => exact ⟨opened, rfl⟩
  | cons piece pieces ih =>
    have hpiece : ∃ now, piece.track opened (List.range opened).reverse
        = (List.range now).reverse := by
      cases piece with
      | opening keyword name =>
        refine ⟨opened + 1, ?_⟩
        rw [Piece.track, List.range_succ, List.reverse_append]
        rfl
      | closing =>
        refine ⟨opened - 1, ?_⟩
        cases opened with
        | zero => rfl
        | succ opened =>
          rw [Piece.track, List.range_succ, List.reverse_append]
          rfl
      | whole item => exact ⟨opened, rfl⟩
    obtain ⟨now, hnow⟩ := hpiece
    rw [nesting, List.foldl_cons, List.length_reverse, List.length_range, hnow]
    exact ih now

/-- As many closing lines as namespaces are open close them all, from the innermost outwards. -/
theorem text_writePieces_closings (b : Builder) :
    (writePieces b (List.replicate b.depth .closing)).text =
      b.text ++ closingLines (List.range b.depth).reverse := by
  -- on the depth: the first closing line is the innermost one, and leaves one namespace fewer
  induction hdepth : b.depth generalizing b with
  | zero =>
    show b.text = b.text ++ ""
    rw [String.append_empty]
  | succ depth ih =>
    have hb : (Piece.write b .closing).depth = depth := by
      show b.depth - 1 = depth
      omega
    have htext : (Piece.write b .closing).text =
        b.text ++ Code.indentation depth ++ "\x7d" ++ "\n" := by
      show b.text ++ Code.indentation (b.depth - 1) ++ "\x7d" ++ "\n" = _
      rw [hdepth, Nat.add_sub_cancel]
    rw [List.replicate_succ, List.range_succ, List.reverse_append]
    show (writePieces (Piece.write b .closing) (List.replicate depth .closing)).text =
      b.text ++
        (Code.indentation depth ++ "\x7d" ++ "\n" ++ closingLines (List.range depth).reverse)
    rw [ih _ hb, htext]
    simp only [String.append_assoc]

/-- Whatever is written goes after what was written before, in whole lines. -/
theorem exists_text_writePieces (b : Builder) (pieces : List Piece) :
    ∃ text, WholeLines text ∧ (writePieces b pieces).text = b.text ++ text := by
  induction pieces generalizing b with
  | nil => exact ⟨"", .inl rfl, String.append_empty.symm⟩
  | cons piece pieces ih =>
    have hpiece : ∃ text, WholeLines text ∧ (piece.write b).text = b.text ++ text := by
      cases piece with
      | opening keyword name =>
        refine ⟨_, Code.wholeLines_writtenAt b.depth [.text 0 (keyword ++ " " ++ name ++ " \x7b")],
          ?_⟩
        show (b.line _).text = _
        rw [Builder.line_eq]
        rfl
      | closing =>
        refine ⟨_, Code.wholeLines_writtenAt b.shallower.depth [.text 0 "\x7d"], ?_⟩
        show (b.shallower.line _).text = _
        rw [Builder.line_eq]
        rfl
      | whole item =>
        refine ⟨_, Code.wholeLines_writtenAt b.depth (Code.fragmentLines item.fragments), ?_⟩
        show (b.applyAll _).text = _
        rw [Builder.applyAll_eq]
        rfl
    obtain ⟨first, hfirst, htext⟩ := hpiece
    obtain ⟨rest, hrest, htext'⟩ := ih (piece.write b)
    refine ⟨first ++ rest, hfirst.append hrest, ?_⟩
    rw [writePieces, List.foldl_cons, ← writePieces, htext', htext, String.append_assoc]

/-- **The text of a cut** is some first pieces of the whole, and then one closing line for each
namespace that these leave open. -/
theorem Cut.exists_text {cut whole : Document} (h : Cut cut whole) :
    ∃ written, written <+: documentPieces whole ∧
      cut.text = piecesText written ++ closingLines (openDepths written) := by
  obtain ⟨written, left, hprefix, hcut, hleft⟩ := h.exists_pieces
  refine ⟨written, hprefix, ?_⟩
  have hlen : (nesting [] written).length = left := by
    rw [hleft, List.length_nil, Nat.zero_add]
  have hdepth : (writePieces {} written).depth = (nesting [] written).length :=
    depth_writePieces written rfl
  rw [hlen] at hdepth
  -- the namespaces left open stand one level below the other, so their number tells the depths
  have hopen : openDepths written = (List.range left).reverse := by
    obtain ⟨now, hnow⟩ := nesting_reverse_range 0 written
    have hnow' : nesting [] written = (List.range now).reverse := hnow
    rw [hnow', List.length_reverse, List.length_range] at hlen
    rw [openDepths, openDepthsFrom_eq_nesting written rfl, hnow', hlen]
  have hclose := text_writePieces_closings (writePieces {} written)
  rw [hdepth] at hclose
  rw [text_eq_piecesText, hcut, piecesText, writePieces_append, hclose, hopen]
  rfl

/-- Some first pieces make a beginning of the text of all of them. -/
theorem piecesText_of_prefix {written pieces : List Piece} (h : written <+: pieces) :
    ∃ rest, piecesText pieces = piecesText written ++ rest := by
  obtain ⟨after, rfl⟩ := h
  obtain ⟨rest, -, hrest⟩ := exists_text_writePieces (writePieces {} written) after
  exact ⟨rest, by rw [piecesText, writePieces_append, hrest, piecesText]⟩

theorem wholeLines_piecesText (pieces : List Piece) : WholeLines (piecesText pieces) := by
  obtain ⟨text, hwhole, htext⟩ := exists_text_writePieces {} pieces
  rw [piecesText, htext]
  exact WholeLines.append (.inl rfl) hwhole

end Ambient.TypeScript
