import Ambient.Proofs.Render.Complete

/-!
# Renderings that stop early

However a rendering ends, the text is whole: it is a beginning of the text of the
complete document, which ends between two pieces, and then one closing line for
every namespace that the beginning leaves open.
-/

namespace Ambient

open Code (WholeLines)
open TypeScript (closingLines documentPieces openDepths piecesText)

variable (mode : RenderMode) (tables : List Table)

/-- **A stopped rendering leaves a closed beginning of the complete text.**

A piece is a line that opens or closes a namespace, or all of a blank, a comment or a
declaration, so the beginning never ends inside one of these. -/
theorem text_render_eq_closed_prefix (c : Connection) (session : Session) :
    let complete := (render mode tables { repository := c.repository } {}).document
    let stopped := (render mode tables c session).document
    ∃ written, written <+: documentPieces complete ∧
      complete.text = piecesText (documentPieces complete) ∧
      (∃ rest, complete.text = piecesText written ++ rest) ∧
      WholeLines (piecesText written) ∧
      stopped.text = piecesText written ++ closingLines (openDepths written) ∧
      ∀ b, (stopped.writeTo b).depth = b.depth := by
  intro complete stopped
  have hcut := cut_render mode tables c session
  rw [← document_render c.repository mode tables] at hcut
  obtain ⟨written, hprefix, htext⟩ := hcut.exists_text
  refine ⟨written, hprefix, TypeScript.text_eq_piecesText complete, ?_,
    TypeScript.wholeLines_piecesText written, htext, ?_⟩
  · rw [TypeScript.text_eq_piecesText]
    exact TypeScript.piecesText_of_prefix hprefix
  · intro b
    exact Code.Builder.depth_applyAll b _

end Ambient
