import Ambient.Proofs.Code.Steps
import Ambient.Proofs.TypeScript.Strip

/-!
# Comments are closed at their end

Documentation is written as one comment, whatever its texts say: the first place that
closes it is its last two characters. What a reader skips as a comment is told by
`afterComment`; here the same is said by where stars and slashes stand.
-/

namespace Ambient.TypeScript

open Code (Builder)

/-- A comment is closed by the first star that a slash follows. -/
theorem exists_of_afterComment {text after : List Char} (h : afterComment text = after)
    (hafter : after ≠ []) :
    ∃ inside, text = inside ++ '*' :: '/' :: after ∧
      ∀ before rest, text = before ++ '*' :: '/' :: rest → inside.length ≤ before.length := by
  fun_induction afterComment text with
  | case1 => exact absurd h.symm hafter
  | case2 rest =>
    subst h
    exact ⟨[], rfl, fun before _ _ => Nat.zero_le before.length⟩
  | case3 c rest hopen ih =>
    obtain ⟨inside, hinside, hfirst⟩ := ih h
    refine ⟨c :: inside, congrArg (c :: ·) hinside, fun before tail htext => ?_⟩
    cases before with
    | nil =>
      obtain ⟨hstar, hslash⟩ := List.cons.inj htext
      exact absurd hslash (hopen tail hstar)
    | cons d before =>
      have hbefore := hfirst before tail (List.cons.inj htext).2
      rw [List.length_cons, List.length_cons]
      omega

/-- A comment for documentation that its last two characters close, and none before them. -/
structure ClosedAtEnd (comment : List Char) : Prop where
  opens : ['/', '*', '*'] <+: comment
  closes : ∃ inside, comment = '/' :: '*' :: inside ++ ['*', '/'] ∧
    ∀ before after, inside ++ ['*', '/'] = before ++ '*' :: '/' :: after →
      before = inside ∧ after = []

/-- What is skipped as a comment up to the line feed is closed at its end. -/
theorem closedAtEnd_of_afterComment {inside : List Char}
    (h : afterComment ('*' :: inside) = ['\n']) :
    ∃ comment, '/' :: '*' :: '*' :: inside = comment ++ ['\n'] ∧ ClosedAtEnd comment := by
  obtain ⟨body, hbody, hfirst⟩ := exists_of_afterComment h (List.cons_ne_nil _ _)
  have hend : '*' :: inside = (body ++ ['*', '/']) ++ ['\n'] := by
    rw [hbody, List.append_assoc]
    rfl
  refine ⟨'/' :: '*' :: body ++ ['*', '/'], ?_, ?_, body, rfl, ?_⟩
  · rw [hend]
    rfl
  · -- the second star is the first character of the body or of what closes it
    cases body with
    | nil => exact ⟨['/'], rfl⟩
    | cons c body =>
      obtain ⟨rfl, -⟩ := List.cons.inj hbody
      exact ⟨body ++ ['*', '/'], rfl⟩
  · intro before after hsplit
    have hle : body.length ≤ before.length := by
      refine hfirst before (after ++ ['\n']) ?_
      rw [hend, hsplit, List.append_assoc]
      rfl
    have hlength := congrArg List.length hsplit
    simp only [List.length_append, List.length_cons, List.length_nil] at hlength
    have hsame : body.length = before.length := by omega
    obtain ⟨rfl, htail⟩ := List.append_inj hsplit hsame
    exact ⟨rfl, (List.cons.inj (List.cons.inj htail).2).2.symm⟩

/-- **Documentation is one comment, closed at its end**: what is written for it is the indentation,
the comment and a line feed, at any depth and whatever its texts say. -/
theorem doc_closedAtEnd (b : Builder) {texts : List String} (htexts : texts ≠ []) :
    ∃ comment, ClosedAtEnd comment ∧
      (b.doc texts).text.toList =
        b.text.toList ++ (List.replicate (2 * b.depth) ' ' ++ comment ++ ['\n']) := by
  obtain ⟨inside, hwritten, hafter⟩ := exists_comment b.depth htexts []
  obtain ⟨comment, hcomment, hclosed⟩ := closedAtEnd_of_afterComment hafter
  refine ⟨comment, hclosed, ?_⟩
  rw [List.append_nil, hcomment, Code.toList_indentation] at hwritten
  rw [Builder.doc, Builder.lines_eq, Builder.written, String.toList_append, hwritten,
    List.append_assoc]

/-- Texts that close a comment, within one of them and from one to the next. -/
theorem doc_closedAtEnd_hostile :
    let b : Builder := { depth := 1, text := "a\n" }
    let texts := ["**//", "", "*", "/ */\n*/"]
    texts ≠ [] ∧ ∃ comment, ClosedAtEnd comment ∧
      (b.doc texts).text.toList =
        b.text.toList ++ (List.replicate (2 * b.depth) ' ' ++ comment ++ ['\n']) := by
  intro b texts
  have htexts : texts ≠ [] := by decide
  exact ⟨htexts, doc_closedAtEnd b htexts⟩

end Ambient.TypeScript
