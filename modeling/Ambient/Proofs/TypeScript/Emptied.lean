import Ambient.Proofs.Text.Words
import Ambient.Proofs.TypeScript.Strip

/-!
# Code line by line

`emptied` keeps a text as it is but for its comments, of which nothing remains but that
they are there. So the lines of the text that are nothing but a comment can be told from
blank ones, and what is left is the code with its blank lines: `codeWords`.
-/

namespace Ambient.TypeScript

open Code (commentLines indentation writtenAt)
open Text (linesOf linesOf_line words words_append words_space)

/-- The text with an empty comment in place of each comment. -/
def emptied : Lexical → List Char → List Char
  | _, [] => []
  | .code, '/' :: '*' :: rest => '/' :: '*' :: '*' :: '/' :: emptied .comment rest
  | .code, c :: rest => c :: emptied (if isQuote c then .literal c else .code) rest
  | .comment, '*' :: '/' :: rest => emptied .code rest
  | .comment, _ :: rest => emptied .comment rest
  | .literal quote, '\\' :: c :: rest => '\\' :: c :: emptied (.literal quote) rest
  | .literal quote, c :: rest => c :: emptied (if c = quote then .code else .literal quote) rest

/-- The words of each line of a text. Lines that are nothing but a comment, or inside one, do not
count; blank ones do. -/
def codeWords (text : List Char) : List (List String) :=
  ((linesOf (emptied .code text)).map words).filter (· ≠ ["/**/"])

theorem emptied_code_cons {c : Char} (h : c ≠ '/') (rest : List Char) :
    emptied .code (c :: rest) = c :: emptied (if isQuote c then .literal c else .code) rest := by
  rw [emptied]
  intro _ heq _
  exact h heq

theorem emptied_comment (text : List Char) :
    emptied .comment text = emptied .code (afterComment text) := by
  fun_induction afterComment text with
  | case1 => rfl
  | case2 rest => rw [emptied]
  | case3 c rest hopen ih =>
    rw [emptied, ih]
    exact hopen

theorem readsLiterals_emptied : ReadsLiterals emptied where
  pair quote c rest := by rw [emptied]
  cons quote c h rest := by
    rw [emptied]
    intro _ _ heq _
    exact h heq

/-! ## Code that is kept -/

/-- There is no comment in the text, and none begins at its end. -/
def Verbatim (text : List Char) : Prop :=
  ∀ rest, emptied .code (text ++ rest) = text ++ emptied .code rest

theorem Verbatim.append {first second : List Char} (h : Verbatim first) (h' : Verbatim second) :
    Verbatim (first ++ second) := by
  intro rest
  rw [List.append_assoc, h, h', List.append_assoc]

theorem verbatim_of_plain {text : List Char} (h : text.all isPlain = true) : Verbatim text := by
  intro rest
  induction text with
  | nil => rfl
  | cons c text ih =>
    rw [List.all_cons, Bool.and_eq_true] at h
    obtain ⟨hplain, htext⟩ := h
    obtain ⟨hslash, hquote⟩ := isPlain_iff.mp hplain
    rw [List.cons_append, emptied_code_cons hslash, if_neg hquote, ih htext, List.cons_append]

theorem verbatim_quoted (name : String) : Verbatim (Text.quoted name).toList := by
  intro rest
  unfold Text.quoted
  rw [String.toList_ofList, List.cons_append, List.cons_append, List.append_assoc,
    emptied_code_cons (by decide), if_pos (by decide)]
  show _ = '"' :: (_ ++ ['"'] ++ _)
  rw [List.append_assoc]
  exact congrArg _ (readsLiterals_emptied.escaped _ _)

theorem verbatim_indentation (depth : Nat) : Verbatim (indentation depth).toList := by
  refine verbatim_of_plain (List.all_eq_true.mpr fun c hc => ?_)
  by_cases h : c = ' '
  · subst h
    decide
  · exact absurd hc (not_mem_indentation h depth)

/-! ## Lines -/

theorem words_indentation (depth : Nat) (line : List Char) :
    words ((indentation depth).toList ++ line) = words line := by
  induction depth with
  | zero => rfl
  | succ depth ih =>
    have hunit : Code.indentUnit.toList = [' ', ' '] := rfl
    rw [indentation, String.toList_append, hunit, List.append_assoc, List.cons_append,
      List.cons_append, List.nil_append, words_space, words_space, ih]

/-- The first line, where it is known what remains of it without its comments. -/
theorem codeWords_of_emptied {text line rest : List Char} (hline : '\n' ∉ line)
    (h : emptied .code text = line ++ '\n' :: emptied .code rest) :
    codeWords text = (if words line ≠ ["/**/"] then [words line] else []) ++ codeWords rest := by
  unfold codeWords
  rw [h, linesOf_line hline, List.map_cons, List.filter_cons]
  by_cases hwords : words line = ["/**/"]
  · simp [hwords]
  · simp [hwords]

theorem emptied_feed (rest : List Char) :
    emptied .code ('\n' :: rest) = '\n' :: emptied .code rest :=
  emptied_code_cons (by decide) rest

theorem codeWords_blank (rest : List Char) : codeWords ('\n' :: rest) = [] :: codeWords rest :=
  codeWords_of_emptied List.not_mem_nil (emptied_feed rest)

/-- A line of code. -/
theorem codeWords_line {content : String} (h : Verbatim content.toList)
    (hline : '\n' ∉ content.toList) (hwords : words content.toList ≠ ["/**/"])
    (depth below : Nat) (rest : List Char) :
    codeWords (((Code.Line.text below content).writtenAt depth).toList ++ rest) =
      words content.toList :: codeWords rest := by
  have hemptied : emptied .code (((Code.Line.text below content).writtenAt depth).toList ++ rest) =
      ((indentation (depth + below)).toList ++ content.toList) ++ '\n' :: emptied .code rest := by
    rw [Code.Line.writtenAt, String.toList_append, String.toList_append, List.append_assoc,
      ((verbatim_indentation _).append h) _]
    exact congrArg _ (emptied_feed rest)
  have hfeed : '\n' ∉ (indentation (depth + below)).toList ++ content.toList := by
    rw [List.mem_append, not_or]
    exact ⟨not_mem_indentation (by decide) _, hline⟩
  rw [codeWords_of_emptied hfeed hemptied, words_indentation, if_pos hwords]
  rfl

/-- Documentation is none of the lines. -/
theorem codeWords_doc (depth : Nat) (texts : List String) (rest : List Char) :
    codeWords ((writtenAt depth ((commentLines texts).map (.text 0))).toList ++ rest) =
      codeWords rest := by
  by_cases htexts : texts = []
  · subst htexts
    rfl
  · obtain ⟨inside, hchars, hafter⟩ := exists_comment depth htexts rest
    have hopen : emptied .code ('/' :: '*' :: '*' :: inside) =
        '/' :: '*' :: '*' :: '/' :: emptied .comment ('*' :: inside) := rfl
    have hemptied : emptied .code
        ((writtenAt depth ((commentLines texts).map (.text 0))).toList ++ rest) =
          ((indentation depth).toList ++ "/**/".toList) ++ '\n' :: emptied .code rest := by
      rw [hchars, verbatim_indentation, hopen, emptied_comment, hafter, emptied_feed,
        List.append_assoc]
      rfl
    have hfeed : '\n' ∉ (indentation depth).toList ++ "/**/".toList := by
      rw [List.mem_append, not_or]
      exact ⟨not_mem_indentation (by decide) _, by decide⟩
    have hwords : words "/**/".toList = ["/**/"] := by decide
    rw [codeWords_of_emptied hfeed hemptied, words_indentation, hwords]
    rfl

example : codeWords "/** a\n *\n */\n\n  b \"/* c\" /* d */ \x7b\n".toList =
    [[], ["b", "\"/*", "c\"", "/**/", "\x7b"]] := by decide

end Ambient.TypeScript
