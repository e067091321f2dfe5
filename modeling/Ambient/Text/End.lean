/-!
# Ends of lists

What is left of a list once everything of one kind at its end is dropped.
-/

namespace Ambient.Text

variable {α : Type} {p : α → Bool}

/-- Drops the longest end of a list in which everything satisfies `p`. -/
def dropEndWhile (p : α → Bool) : List α → List α
  | [] => []
  | a :: as =>
    match dropEndWhile p as with
    | [] => if p a then [] else [a]
    | kept => a :: kept

theorem dropEndWhile_eq_nil_iff {as : List α} : dropEndWhile p as = [] ↔ ∀ a ∈ as, p a := by
  induction as with
  | nil => simp [dropEndWhile]
  | cons a as ih =>
    rw [List.forall_mem_cons, ← ih, dropEndWhile]
    split
    · rename_i heq
      simp [heq]
    · rename_i hne
      exact ⟨(nomatch ·), fun h => absurd h.2 hne⟩

/-- Only an end is dropped. -/
theorem dropEndWhile_prefix (p : α → Bool) (as : List α) : dropEndWhile p as <+: as := by
  induction as with
  | nil => exact List.prefix_rfl
  | cons a as ih =>
    unfold dropEndWhile
    split
    · split
      · exact List.nil_prefix
      · exact List.cons_prefix_cons.mpr ⟨rfl, List.nil_prefix⟩
    · exact List.cons_prefix_cons.mpr ⟨rfl, ih⟩

/-- What is left ends in something else. -/
theorem not_of_getLast?_dropEndWhile {as : List α} {a : α}
    (h : (dropEndWhile p as).getLast? = some a) : p a = false := by
  induction as with
  | nil => simp [dropEndWhile] at h
  | cons head as ih =>
    unfold dropEndWhile at h
    split at h
    · split at h
      · simp at h
      · rename_i hp
        simp_all
    · rename_i kept
      obtain ⟨first, rest, heq⟩ := List.exists_cons_of_ne_nil kept
      rw [heq, List.getLast?_cons_cons, ← heq] at h
      exact ih h

end Ambient.Text
