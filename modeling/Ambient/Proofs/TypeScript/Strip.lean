import Ambient.Proofs.Code.Lines
import Ambient.Text.Blank
import Ambient.Text.Quoted

/-!
# Code without its comments

`strip` leaves of a text what is neither a comment nor a blank outside a literal. A
comment reaches to the first place that closes it, a literal to the first quote of its
own that no backslash stands before.

What is written as documentation leaves nothing, whatever it says: the escaped text has
no place that closes the comment. What is written as code is stripped piece by piece as
long as each piece is `SelfContained`.
-/

namespace Ambient.TypeScript

open Code (commentLines commentText escapeComment indentation writtenAt)

/-- What a text is in the middle of. -/
inductive Lexical where
  | code
  | comment
  | literal (quote : Char)
  deriving DecidableEq, Repr

/-- A quotation mark, an apostrophe, or a backtick. -/
def isQuote (c : Char) : Bool := c == '"' || c == '\'' || c == Char.ofNat 96

/-- The text without its comments, and without the blanks outside its literals. -/
def strip : Lexical → List Char → List Char
  | _, [] => []
  | .code, '/' :: '*' :: rest => strip .comment rest
  | .code, c :: rest =>
    if isQuote c then c :: strip (.literal c) rest
    else if Text.isBlank c then strip .code rest
    else c :: strip .code rest
  | .comment, '*' :: '/' :: rest => strip .code rest
  | .comment, _ :: rest => strip .comment rest
  | .literal quote, '\\' :: c :: rest => '\\' :: c :: strip (.literal quote) rest
  | .literal quote, c :: rest => c :: strip (if c = quote then .code else .literal quote) rest

/-- What a whole text says as code. -/
def codeOf (text : String) : List Char := strip .code text.toList

/-! ## Code -/

theorem strip_code_cons {c : Char} (h : c ≠ '/') (rest : List Char) :
    strip .code (c :: rest) =
      if isQuote c then c :: strip (.literal c) rest
      else if Text.isBlank c then strip .code rest
      else c :: strip .code rest := by
  rw [strip]
  intro _ heq _
  exact h heq

theorem isQuote_iff {c : Char} :
    isQuote c = true ↔ c = '"' ∨ c = '\'' ∨ c = Char.ofNat 96 := by
  unfold isQuote
  rw [Bool.or_eq_true, Bool.or_eq_true, beq_iff_eq, beq_iff_eq, beq_iff_eq, or_assoc]

/-- A character that begins neither a comment nor a literal. -/
def isPlain (c : Char) : Bool := c != '/' && ! isQuote c

theorem isPlain_iff {c : Char} : isPlain c = true ↔ c ≠ '/' ∧ ¬ isQuote c = true := by
  unfold isPlain
  rw [Bool.and_eq_true, bne_iff_ne, Bool.not_eq_true', Bool.not_eq_true]

/-- Characters of a class without slashes and quotes are plain. -/
theorem isPlain_of_class {p : Char → Bool} {c : Char}
    (hp : ['/', '"', '\'', Char.ofNat 96].any p = false) (h : p c = true) : isPlain c = true := by
  have hne : ∀ d ∈ ['/', '"', '\'', Char.ofNat 96], c ≠ d := by
    intro d hd heq
    subst heq
    exact List.any_eq_false.mp hp c hd h
  simp only [List.mem_cons, List.not_mem_nil, or_false, forall_eq_or_imp, forall_eq] at hne
  obtain ⟨hslash, hdouble, hsingle, hbacktick⟩ := hne
  rw [isPlain_iff, isQuote_iff]
  refine ⟨hslash, fun hquote => ?_⟩
  rcases hquote with heq | heq | heq
  · exact hdouble heq
  · exact hsingle heq
  · exact hbacktick heq

theorem strip_code_blank {c : Char} (h : Text.isBlank c = true) (rest : List Char) :
    strip .code (c :: rest) = strip .code rest := by
  obtain ⟨hslash, hquote⟩ := isPlain_iff.mp (isPlain_of_class (by decide) h)
  rw [strip_code_cons hslash, if_neg hquote, if_pos h]

/-- No comment and no literal begins, or goes on, at the end of the text. -/
def SelfContained (text : List Char) : Prop :=
  ∀ rest, strip .code (text ++ rest) = strip .code text ++ strip .code rest

theorem SelfContained.append {first second : List Char} (h : SelfContained first)
    (h' : SelfContained second) : SelfContained (first ++ second) := by
  intro rest
  rw [List.append_assoc, h, h', h, List.append_assoc]

theorem selfContained_of_plain {text : List Char} (h : text.all isPlain = true) :
    SelfContained text := by
  intro rest
  induction text with
  | nil => rfl
  | cons c text ih =>
    rw [List.all_cons, Bool.and_eq_true] at h
    obtain ⟨hplain, htext⟩ := h
    obtain ⟨hslash, hquote⟩ := isPlain_iff.mp hplain
    rw [List.cons_append, strip_code_cons hslash, strip_code_cons hslash, if_neg hquote,
      if_neg hquote, ih htext]
    split
    · rfl
    · rfl

/-! ## Literals -/

/-- What is between the quotes of a literal is read as it stands; only the quote ends it. -/
structure ReadsLiterals (read : Lexical → List Char → List Char) : Prop where
  pair : ∀ quote c rest,
    read (.literal quote) ('\\' :: c :: rest) = '\\' :: c :: read (.literal quote) rest
  cons : ∀ quote {c}, c ≠ '\\' → ∀ rest, read (.literal quote) (c :: rest) =
    c :: read (if c = quote then .code else .literal quote) rest

theorem readsLiterals_strip : ReadsLiterals strip where
  pair quote c rest := by rw [strip]
  cons quote c h rest := by
    rw [strip]
    intro _ _ heq _
    exact h heq

namespace ReadsLiterals

variable {read : Lexical → List Char → List Char} (h : ReadsLiterals read)

include h in
theorem escapeChar (c : Char) (rest : List Char) :
    read (.literal '"') (Text.escapeChar c ++ rest) =
      Text.escapeChar c ++ read (.literal '"') rest := by
  obtain ⟨d, -, -, heq⟩ | ⟨-, heq⟩ | ⟨hplain, heq⟩ := Text.escapeChar_cases c
  · -- what is escaped is a pair with a backslash in front, which the literal reads at once
    rw [heq]
    exact h.pair _ _ _
  · rw [heq]
    rfl
  · have hslash : c ≠ '\\' := fun hc => hplain (by simp [hc])
    have hquote : c ≠ '"' := fun hc => hplain (by simp [hc])
    rw [heq, List.singleton_append, h.cons _ hslash, if_neg hquote]
    rfl

include h in
/-- Between the quotes nothing is dropped, and nothing ends the literal. -/
theorem escaped (chars rest : List Char) :
    read (.literal '"') (chars.flatMap Text.escapeChar ++ '"' :: rest) =
      chars.flatMap Text.escapeChar ++ '"' :: read .code rest := by
  induction chars with
  | nil => exact h.cons _ (by decide) rest
  | cons c chars ih =>
    rw [List.flatMap_cons, List.append_assoc, List.append_assoc, h.escapeChar, ih]

end ReadsLiterals

theorem selfContained_quoted (name : String) : SelfContained (Text.quoted name).toList := by
  intro rest
  have hstrip : ∀ rest, strip .code ((Text.quoted name).toList ++ rest) =
      '"' :: (name.toList.flatMap Text.escapeChar ++ '"' :: strip .code rest) := by
    intro rest
    unfold Text.quoted
    rw [String.toList_ofList, List.cons_append, List.cons_append, List.append_assoc,
      strip_code_cons (by decide), if_pos (by decide)]
    exact congrArg _ (readsLiterals_strip.escaped _ _)
  have hwhole := hstrip []
  rw [List.append_nil] at hwhole
  rw [hstrip, hwhole, List.cons_append, List.append_assoc]
  rfl

/-! ## Comments -/

/-- What comes after the place that closes the comment. -/
def afterComment : List Char → List Char
  | [] => []
  | '*' :: '/' :: rest => rest
  | _ :: rest => afterComment rest

theorem strip_comment (text : List Char) :
    strip .comment text = strip .code (afterComment text) := by
  fun_induction afterComment text with
  | case1 => rfl
  | case2 rest => rw [strip]
  | case3 c rest hopen ih =>
    rw [strip, ih]
    exact hopen

theorem afterComment_cons {c : Char} {rest : List Char}
    (h : c = '*' → rest.head? ≠ some '/') : afterComment (c :: rest) = afterComment rest := by
  rw [afterComment]
  intro tail hstar hslash
  refine h hstar ?_
  rw [hslash]
  rfl

theorem afterComment_of_ne {c : Char} (h : c ≠ '*') (rest : List Char) :
    afterComment (c :: rest) = afterComment rest :=
  afterComment_cons fun heq => absurd heq h

/-- The comment is not closed before or where the text ends, unless by what comes next. -/
def InComment (text : List Char) : Prop :=
  ∀ c rest, c ≠ '/' → afterComment (text ++ c :: rest) = afterComment (c :: rest)

theorem InComment.cons {c : Char} {text : List Char} (hc : c ≠ '*') (h : InComment text) :
    InComment (c :: text) := by
  intro d rest hd
  rw [List.cons_append, afterComment_of_ne hc, h d rest hd]

theorem InComment.after {before text : List Char} (hbefore : '*' ∉ before)
    (h : InComment text) : InComment (before ++ text) := by
  induction before with
  | nil => exact h
  | cons c before ih =>
    have hc : c ≠ '*' := fun heq => hbefore (heq ▸ List.mem_cons_self)
    exact (ih fun hmem => hbefore (List.mem_cons_of_mem c hmem)).cons hc

theorem inComment_of_not_mem {text : List Char} (h : '*' ∉ text) : InComment text := by
  rw [← List.append_nil text]
  exact InComment.after h fun _ _ _ => rfl

theorem inComment_star : InComment ['*'] := fun _ _ hc =>
  afterComment_cons fun _ heq => hc (Option.some.inj heq)

/-- A star and whatever else does not close the comment. -/
theorem InComment.star {c : Char} {text : List Char} (hc : c ≠ '/') (h : InComment (c :: text)) :
    InComment ('*' :: c :: text) := by
  intro d rest hd
  rw [List.cons_append, ← h d rest hd]
  exact afterComment_cons fun _ heq => hc (Option.some.inj heq)

theorem head?_escapeComment (chars : List Char) : (escapeComment chars).head? = chars.head? := by
  fun_cases escapeComment chars with
  | case1 rest => rfl
  | case2 c rest h => rfl
  | case3 => rfl

/-- **An escaped text does not close a comment.** -/
theorem inComment_escapeComment (chars : List Char) : InComment (escapeComment chars) := by
  intro d tail hd
  fun_induction escapeComment chars with
  | case1 rest ih =>
    -- the backslash keeps the star and the slash apart
    have hslash : afterComment ('/' :: (escapeComment rest ++ d :: tail)) =
        afterComment (escapeComment rest ++ d :: tail) :=
      afterComment_of_ne (by decide) _
    have hback : afterComment ('\\' :: '/' :: (escapeComment rest ++ d :: tail)) =
        afterComment ('/' :: (escapeComment rest ++ d :: tail)) :=
      afterComment_of_ne (by decide) _
    have hstar : afterComment ('*' :: '\\' :: '/' :: (escapeComment rest ++ d :: tail)) =
        afterComment ('\\' :: '/' :: (escapeComment rest ++ d :: tail)) :=
      afterComment_cons fun _ h => absurd (Option.some.inj h) (by decide)
    exact hstar.trans (hback.trans (hslash.trans ih))
  | case2 c rest hopen ih =>
    rw [List.cons_append, afterComment_cons ?_, ih]
    intro hstar hhead
    -- a slash right after the star would have been escaped
    cases rest with
    | nil => exact hd (Option.some.inj hhead)
    | cons next rest =>
      rw [List.head?_append, head?_escapeComment] at hhead
      exact hopen rest hstar (congrArg (· :: rest) (Option.some.inj hhead))
  | case3 => rfl

theorem inComment_commentText (text : String) : InComment (commentText text).toList := by
  rw [commentText, String.toList_ofList]
  exact inComment_escapeComment _

theorem not_mem_indentation {c : Char} (h : c ≠ ' ') (depth : Nat) :
    c ∉ (indentation depth).toList := by
  induction depth with
  | zero => exact List.not_mem_nil
  | succ depth ih =>
    have hunit : Code.indentUnit.toList = [' ', ' '] := rfl
    rw [indentation, String.toList_append, List.mem_append, not_or, hunit]
    exact ⟨by simp [h], ih⟩

theorem strip_indentation (depth : Nat) (rest : List Char) :
    strip .code ((indentation depth).toList ++ rest) = strip .code rest := by
  induction depth with
  | zero => rfl
  | succ depth ih =>
    have hunit : Code.indentUnit.toList = [' ', ' '] := rfl
    rw [indentation, String.toList_append, hunit, List.append_assoc, List.cons_append,
      List.cons_append, List.nil_append, strip_code_blank (by decide),
      strip_code_blank (by decide), ih]

/-- A line inside a comment. -/
theorem afterComment_line {content : String} (h : InComment content.toList) (depth : Nat)
    (rest : List Char) :
    afterComment (((Code.Line.text 0 content).writtenAt depth).toList ++ rest) =
      afterComment rest := by
  have hline : InComment ((indentation depth).toList ++ content.toList) :=
    h.after (not_mem_indentation (by decide) depth)
  rw [Code.Line.writtenAt, String.toList_append, String.toList_append, List.append_assoc]
  show afterComment (_ ++ '\n' :: rest) = _
  rw [Nat.add_zero, hline _ _ (by decide)]
  exact afterComment_of_ne (by decide) rest

/-- A line of code. -/
theorem strip_code_line {content : String} (h : SelfContained content.toList) (depth below : Nat)
    (rest : List Char) :
    strip .code (((Code.Line.text below content).writtenAt depth).toList ++ rest) =
      strip .code content.toList ++ strip .code rest := by
  rw [Code.Line.writtenAt, String.toList_append, String.toList_append, List.append_assoc,
    List.append_assoc, strip_indentation, h]
  exact congrArg _ (strip_code_blank (by decide) rest)

/-- A line between those that open and close the comment. -/
def bodyLine (text : String) : String := if text.isEmpty then " *" else " * " ++ commentText text

theorem inComment_bodyLine (text : String) : InComment (bodyLine text).toList := by
  unfold bodyLine
  split
  · show InComment [' ', '*']
    exact inComment_star.cons (by decide)
  · rw [String.toList_append]
    exact (((inComment_commentText text).cons (by decide)).star (by decide)).cons (by decide)

theorem afterComment_body (depth : Nat) (texts : List String) (rest : List Char) :
    afterComment ((writtenAt depth ((texts.map bodyLine).map (.text 0))).toList ++ rest) =
      afterComment rest := by
  induction texts with
  | nil => rfl
  | cons text texts ih =>
    rw [List.map_cons, List.map_cons, writtenAt, String.toList_append, List.append_assoc,
      afterComment_line (inComment_bodyLine text), ih]

theorem commentLines_of_several (first second : String) (texts : List String) :
    commentLines (first :: second :: texts) =
      "/**" :: ((first :: second :: texts).map bodyLine ++ [" */"]) := rfl

theorem afterComment_close (rest : List Char) :
    afterComment (' ' :: '*' :: '/' :: '\n' :: rest) = '\n' :: rest :=
  afterComment_of_ne (by decide) _

/-- Documentation is one comment, which ends with its last line. -/
theorem exists_comment (depth : Nat) {texts : List String} (htexts : texts ≠ [])
    (rest : List Char) :
    ∃ inside, (writtenAt depth ((commentLines texts).map (.text 0))).toList ++ rest =
        (indentation depth).toList ++ '/' :: '*' :: '*' :: inside ∧
      afterComment ('*' :: inside) = '\n' :: rest := by
  match texts with
  | [] => exact absurd rfl htexts
  | [text] =>
    -- the second star of the opening is already inside the comment
    have hinside : InComment ('*' :: ' ' :: (commentText text).toList) :=
      ((inComment_commentText text).cons (by decide)).star (by decide)
    refine ⟨' ' :: (commentText text).toList ++ ' ' :: '*' :: '/' :: '\n' :: rest, ?_, ?_⟩
    · simp [commentLines, writtenAt, Code.Line.writtenAt]
    · exact (hinside _ _ (by decide)).trans (afterComment_close rest)
  | first :: second :: texts =>
    let inner := writtenAt depth (((first :: second :: texts).map bodyLine).map (.text 0))
    have hindent : InComment (indentation depth).toList :=
      inComment_of_not_mem (not_mem_indentation (by decide) depth)
    refine ⟨'\n' :: (inner.toList ++
      ((indentation depth).toList ++ ' ' :: '*' :: '/' :: '\n' :: rest)), ?_, ?_⟩
    · rw [commentLines_of_several, List.map_cons, List.map_append, writtenAt, Code.writtenAt_append]
      simp [inner, writtenAt, Code.Line.writtenAt]
    · refine (inComment_star _ _ (by decide)).trans ?_
      rw [afterComment_of_ne (by decide), afterComment_body, hindent _ _ (by decide),
        afterComment_close]

/-- **A documentation comment leaves nothing**, at any depth and whatever its texts say. -/
theorem strip_doc (depth : Nat) (texts : List String) (rest : List Char) :
    strip .code ((writtenAt depth ((commentLines texts).map (.text 0))).toList ++ rest) =
      strip .code rest := by
  by_cases htexts : texts = []
  · subst htexts
    rfl
  · obtain ⟨inside, hchars, hafter⟩ := exists_comment depth htexts rest
    have hopen : strip .code ('/' :: '*' :: '*' :: inside) = strip .comment ('*' :: inside) := rfl
    rw [hchars, strip_indentation, hopen, strip_comment, hafter]
    exact strip_code_blank (by decide) rest

example : codeOf "/** a *\\/ b */ \"/* c\\\" d\" /**/ e" = "\"/* c\\\" d\"e".toList := by decide

end Ambient.TypeScript
