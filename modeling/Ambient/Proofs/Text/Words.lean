import Ambient.Text.Split

/-!
# Lines and words

A text is a list of lines, and a line a list of words: what stands between its spaces.
How many spaces there are between two words, or before the first one, makes no
difference to them.
-/

namespace Ambient.Text

theorem splitAt_of_not_mem {separator : Char} {piece : List Char} (h : separator ∉ piece) :
    splitAt separator piece = [piece] := by
  induction piece with
  | nil => rfl
  | cons c piece ih =>
    obtain ⟨hc, hpiece⟩ := not_or.mp fun hmem => h (List.mem_cons.mpr hmem)
    rw [splitAt, if_neg (Ne.symm hc), ih hpiece]

/-- A text is cut where the separator stands, whatever is before and after it. -/
theorem splitAt_append (separator : Char) (first second : List Char) :
    splitAt separator (first ++ separator :: second) =
      splitAt separator first ++ splitAt separator second := by
  induction first with
  | nil =>
    rw [List.nil_append, splitAt.eq_def separator (separator :: second)]
    exact if_pos rfl
  | cons c first ih =>
    obtain ⟨piece, pieces, heq⟩ := List.exists_cons_of_ne_nil (splitAt_ne_nil separator first)
    rw [List.cons_append, splitAt, splitAt, ih, heq]
    split
    · rfl
    · rfl

theorem flatten_splitAt (separator : Char) (text : List Char) :
    (splitAt separator text).flatten = text.filter (· ≠ separator) := by
  induction text with
  | nil => rfl
  | cons c text ih =>
    obtain ⟨piece, pieces, heq⟩ := List.exists_cons_of_ne_nil (splitAt_ne_nil separator text)
    rw [heq, List.flatten_cons] at ih
    by_cases hc : c = separator
    · rw [splitAt, if_pos hc, heq, List.flatten_cons, List.flatten_cons, List.nil_append, ih,
        List.filter_cons_of_neg (by simpa using hc)]
    · rw [splitAt, if_neg hc, heq, List.filter_cons_of_pos (by simpa using hc), ← ih]
      rfl

/-! ## Lines -/

/-- The lines of a text. What follows the last line feed is a line only if there is something. -/
def linesOf (text : List Char) : List (List Char) :=
  let pieces := splitAt '\n' text
  if pieces.getLast? = some [] then pieces.dropLast else pieces

theorem linesOf_line {line : List Char} (h : '\n' ∉ line) (rest : List Char) :
    linesOf (line ++ '\n' :: rest) = line :: linesOf rest := by
  obtain ⟨piece, pieces, heq⟩ := List.exists_cons_of_ne_nil (splitAt_ne_nil '\n' rest)
  have hsplit : splitAt '\n' (line ++ '\n' :: rest) = line :: splitAt '\n' rest := by
    rw [splitAt_append, splitAt_of_not_mem h]
    rfl
  unfold linesOf
  simp only [hsplit, heq, List.getLast?_cons_cons, List.dropLast_cons_cons]
  split
  · rfl
  · rfl

/-! ## Words -/

def words (line : List Char) : List String :=
  ((splitAt ' ' line).filter (· ≠ [])).map String.ofList

theorem words_append (first second : List Char) :
    words (first ++ ' ' :: second) = words first ++ words second := by
  unfold words
  rw [splitAt_append, List.filter_append, List.map_append]

theorem words_space (line : List Char) : words (' ' :: line) = words line :=
  words_append [] line

/-- A name without spaces is one word. -/
theorem words_of_name {name : String} (hname : name ≠ "") (h : ' ' ∉ name.toList) :
    words name.toList = [name] := by
  have hkept : [name.toList].filter (· ≠ []) = [name.toList] :=
    List.filter_eq_self.mpr fun piece hpiece => by simpa [List.mem_singleton.mp hpiece] using hname
  unfold words
  rw [splitAt_of_not_mem h, hkept]
  show [String.ofList name.toList] = _
  rw [String.ofList_toList]

/-- A name and whatever comes after a space. -/
theorem words_name_append {name : String} (hname : name ≠ "") (h : ' ' ∉ name.toList)
    (rest : List Char) : words (name.toList ++ ' ' :: rest) = name :: words rest := by
  rw [words_append, words_of_name hname h]
  rfl

/-- The characters of the words are those of the line, without its spaces. -/
theorem flatMap_toList_words (line : List Char) :
    (words line).flatMap String.toList = line.filter (· ≠ ' ') := by
  have hflatten : ∀ pieces : List (List Char),
      ((pieces.filter (· ≠ [])).map String.ofList).flatMap String.toList = pieces.flatten := by
    intro pieces
    induction pieces with
    | nil => rfl
    | cons piece pieces ih =>
      cases piece with
      | nil => exact ih
      | cons c piece =>
        rw [List.filter_cons_of_pos rfl, List.map_cons, List.flatMap_cons, ih,
          String.toList_ofList, List.flatten_cons]
  unfold words
  rw [hflatten, flatten_splitAt]

/-- A line does not have the words of a text that ends otherwise. -/
theorem words_ne_of_end {line : List Char} {c : Char} {others : List String}
    (hc : c ≠ ' ') (h : (others.flatMap String.toList).getLast? ≠ some c) :
    words (line ++ [c]) ≠ others := by
  rintro rfl
  refine h ?_
  rw [flatMap_toList_words, List.filter_append, List.filter_cons_of_pos (by simpa using hc)]
  exact List.getLast?_concat

end Ambient.Text
