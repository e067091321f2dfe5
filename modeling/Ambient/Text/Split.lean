/-!
# Cutting at a separator
-/

namespace Ambient.Text

/-- The pieces between the occurrences of a separator: one more than there are occurrences. -/
def splitAt (separator : Char) : List Char → List (List Char)
  | [] => [[]]
  | c :: cs =>
    if c = separator then [] :: splitAt separator cs
    else
      match splitAt separator cs with
      | piece :: pieces => (c :: piece) :: pieces
      | [] => [[c]]

theorem splitAt_ne_nil (separator : Char) (cs : List Char) : splitAt separator cs ≠ [] := by
  cases cs with
  | nil => simp [splitAt]
  | cons c cs =>
    unfold splitAt
    split
    · simp
    · split <;> simp

/-- No piece holds the separator. -/
theorem not_mem_of_mem_splitAt {separator : Char} {cs piece : List Char}
    (h : piece ∈ splitAt separator cs) : separator ∉ piece := by
  induction cs generalizing piece with
  | nil => simp_all [splitAt]
  | cons c cs ih =>
    unfold splitAt at h
    split at h
    · rcases List.mem_cons.mp h with rfl | h
      · simp
      · exact ih h
    · rename_i hc
      split at h
      · rename_i first rest heq
        rcases List.mem_cons.mp h with rfl | h
        · rw [List.mem_cons, not_or]
          exact ⟨Ne.symm hc, ih (heq ▸ List.mem_cons_self)⟩
        · exact ih (heq ▸ List.mem_cons_of_mem _ h)
      · simp only [List.mem_singleton] at h
        simpa [h] using Ne.symm hc

/-- The pieces with the separator between them are the text again. -/
theorem intercalate_splitAt (separator : Char) (cs : List Char) :
    [separator].intercalate (splitAt separator cs) = cs := by
  induction cs with
  | nil => simp [splitAt]
  | cons c cs ih =>
    unfold splitAt
    split
    · rename_i hc
      obtain ⟨first, rest, heq⟩ := List.exists_cons_of_ne_nil (splitAt_ne_nil separator cs)
      rw [heq] at ih ⊢
      rw [List.intercalate_cons_cons, ih, hc]
      rfl
    · split
      · rename_i first rest heq
        rw [heq] at ih
        rw [← ih]
        cases rest <;> simp
      · rename_i heq
        exact absurd heq (splitAt_ne_nil separator cs)

end Ambient.Text
