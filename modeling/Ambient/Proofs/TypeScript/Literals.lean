import Ambient.TypeScript.Naming

/-!
# Literals and keys

What a text becomes in quotes is a string literal: the only quote that no backslash
escapes is the one that ends it, and it reads as the text without its carriage returns.

A property is called either by an identifier, which is its own key, or by a literal, whose
key is what the literal says. No property is both, so that its key is never in doubt:
`KeyOf.unique`. The key that an element's property has is the element's name.
-/

namespace Ambient.TypeScript

/-! ## What stands between quotes -/

/-- Reads the characters between the quotes back. -/
def unescape : List Char → List Char
  | '\\' :: c :: rest => (if c = 'n' then '\n' else c) :: unescape rest
  | c :: rest => c :: unescape rest
  | [] => []

theorem unescape_escapeChar {c : Char} (h : c ≠ '\r') (rest : List Char) :
    unescape (Text.escapeChar c ++ rest) = c :: unescape rest := by
  obtain ⟨d, -, rfl, heq⟩ | ⟨hreturn, -⟩ | ⟨hplain, heq⟩ := Text.escapeChar_cases c
  · rw [heq]
    rfl
  · exact absurd hreturn h
  · have hslash : c ≠ '\\' := fun hc => hplain (by simp [hc])
    rw [heq]
    exact unescape.eq_2 c rest fun _ _ hc _ => hslash hc

/-- What is written between the quotes reads as the text without its carriage returns. -/
theorem unescape_flatMap_escapeChar (chars : List Char) :
    unescape (chars.flatMap Text.escapeChar) = chars.filter (· ≠ '\r') := by
  induction chars with
  | nil => rfl
  | cons c chars ih =>
    rw [List.flatMap_cons]
    by_cases hc : c = '\r'
    · subst hc
      rw [List.filter_cons_of_neg (by decide)]
      exact ih
    · rw [unescape_escapeChar hc, ih, List.filter_cons_of_pos (by simpa using hc)]

theorem filter_ne_of_not_mem {chars : List Char} (h : '\r' ∉ chars) :
    chars.filter (· ≠ '\r') = chars := by
  refine List.filter_eq_self.mpr fun c hc => ?_
  have hne : c ≠ '\r' := fun heq => h (heq ▸ hc)
  simpa using hne

/-- The characters of a literal: each backslash begins an escape, and what would end the literal
or its line does not stand there unescaped. -/
inductive LiteralBody : List Char → Prop
  | nil : LiteralBody []
  | escape {c : Char} {rest : List Char} :
      c ∈ ['"', '\\', 'n'] → LiteralBody rest → LiteralBody ('\\' :: c :: rest)
  | plain {c : Char} {rest : List Char} :
      c ∉ ['"', '\\', '\n', '\r'] → LiteralBody rest → LiteralBody (c :: rest)

namespace LiteralBody

variable {body rest : List Char}

theorem append (h : LiteralBody body) (hrest : LiteralBody rest) : LiteralBody (body ++ rest) := by
  induction h with
  | nil => exact hrest
  | escape hc _ ih => exact .escape hc ih
  | plain hc _ ih => exact .plain hc ih

theorem not_mem_lineFeed (h : LiteralBody body) : '\n' ∉ body := by
  induction h with
  | nil => exact List.not_mem_nil
  | escape hc _ ih =>
    intro hmem
    rcases List.mem_cons.mp hmem with heq | hmem
    · exact absurd heq (by decide)
    · rcases List.mem_cons.mp hmem with rfl | hmem
      · exact absurd hc (by decide)
      · exact ih hmem
  | plain hc _ ih =>
    intro hmem
    rcases List.mem_cons.mp hmem with rfl | hmem
    · exact hc (by decide)
    · exact ih hmem

end LiteralBody

theorem literalBody_escapeChar (c : Char) : LiteralBody (Text.escapeChar c) := by
  obtain ⟨d, hd, -, heq⟩ | ⟨-, heq⟩ | ⟨hplain, heq⟩ := Text.escapeChar_cases c
  · rw [heq]
    exact .escape hd .nil
  · rw [heq]
    exact .nil
  · rw [heq]
    exact .plain hplain .nil

theorem literalBody_flatMap_escapeChar (chars : List Char) :
    LiteralBody (chars.flatMap Text.escapeChar) := by
  induction chars with
  | nil => exact .nil
  | cons c chars ih =>
    rw [List.flatMap_cons]
    exact (literalBody_escapeChar c).append ih

/-! ## Which quotes are escaped -/

def backslashesAtEnd (text : List Char) : Nat :=
  (text.reverse.takeWhile (· = '\\')).length

/-- The character that comes next is escaped: two backslashes are one that stands for itself, and
an odd one begins an escape. -/
def Escaping (before : List Char) : Prop := backslashesAtEnd before % 2 = 1

theorem backslashesAtEnd_le (text : List Char) : backslashesAtEnd text ≤ text.length := by
  have hprefix := (List.takeWhile_prefix (l := text.reverse) (· = '\\')).length_le
  rwa [List.length_reverse] at hprefix

/-- Only before a text of backslashes does it matter what stands in front. -/
theorem backslashesAtEnd_cons (c : Char) (text : List Char) :
    backslashesAtEnd (c :: text) =
      if backslashesAtEnd text = text.length then text.length + (if c = '\\' then 1 else 0)
      else backslashesAtEnd text := by
  unfold backslashesAtEnd
  rw [List.reverse_cons, List.takeWhile_append, List.length_reverse]
  split
  · by_cases hc : c = '\\'
    · simp [hc]
    · simp [hc]
  · rfl

theorem not_escaping_nil : ¬ Escaping [] := by
  unfold Escaping
  decide

theorem escaping_cons_iff {c : Char} (hc : c ≠ '\\') (text : List Char) :
    Escaping (c :: text) ↔ Escaping text := by
  have hcons := backslashesAtEnd_cons c text
  unfold Escaping
  rw [if_neg hc] at hcons
  split at hcons
  · omega
  · omega

/-- A backslash and what it escapes make no difference to what comes after them. -/
theorem escaping_pair_iff (c : Char) (text : List Char) :
    Escaping ('\\' :: c :: text) ↔ Escaping text := by
  have hle := backslashesAtEnd_le text
  have hinner := backslashesAtEnd_cons c text
  have houter := backslashesAtEnd_cons '\\' (c :: text)
  unfold Escaping
  rw [List.length_cons, if_pos rfl] at houter
  split at hinner
  · -- all of `text` is backslashes, so `c` may belong to them
    split at hinner
    · rw [if_pos (by omega)] at houter
      omega
    · rw [if_neg (by omega)] at houter
      omega
  · rw [if_neg (by omega)] at houter
    omega

/-- **The quote that ends a literal is the only one that is not escaped.** -/
theorem LiteralBody.escaping_iff {body before after : List Char} (h : LiteralBody body)
    (hsplit : body ++ ['"'] = before ++ '"' :: after) : Escaping before ↔ after ≠ [] := by
  induction h generalizing before with
  | nil =>
    cases before with
    | nil =>
      obtain ⟨-, rfl⟩ := List.cons.inj hsplit
      simp [not_escaping_nil]
    | cons d before =>
      have hrest := (List.cons.inj hsplit).2
      exact absurd hrest.symm (List.append_ne_nil_of_right_ne_nil before (List.cons_ne_nil _ _))
  | @escape c rest hc hrest ih =>
    match before with
    | [] => exact absurd (List.cons.inj hsplit).1 (by decide)
    | [d] =>
      -- the quote is the one that the backslash escapes
      obtain ⟨rfl, htail⟩ := List.cons.inj hsplit
      obtain ⟨rfl, rfl⟩ := List.cons.inj htail
      have hslash : Escaping ['\\'] := by
        unfold Escaping
        decide
      simp [hslash]
    | d :: e :: before =>
      obtain ⟨rfl, htail⟩ := List.cons.inj hsplit
      obtain ⟨rfl, hlater⟩ := List.cons.inj htail
      rw [escaping_pair_iff]
      exact ih hlater
  | @plain c rest hc hrest ih =>
    cases before with
    | nil =>
      obtain ⟨rfl, -⟩ := List.cons.inj hsplit
      exact absurd (by decide) hc
    | cons d before =>
      obtain ⟨rfl, hlater⟩ := List.cons.inj hsplit
      have hslash : c ≠ '\\' := fun heq => hc (by simp [heq])
      rw [escaping_cons_iff hslash]
      exact ih hlater

/-! ## Literals -/

/-- `literal` is a string literal that says `text`, and `body` is what stands between its quotes. -/
structure LiteralOf (text : String) (literal body : List Char) : Prop where
  quotes : literal = '"' :: body ++ ['"']
  /-- Every backslash begins an escape, of a quote, a backslash or an `n`. -/
  escapes : LiteralBody body
  /-- The quote at the end is the only one that is not escaped. -/
  ends : ∀ {before after}, body ++ ['"'] = before ++ '"' :: after → (Escaping before ↔ after ≠ [])
  oneLine : '\n' ∉ body
  /-- Only carriage returns are not said. -/
  reads : unescape body = text.toList.filter (· ≠ '\r')

theorem literalOf_quoted (text : String) :
    LiteralOf text (Text.quoted text).toList (text.toList.flatMap Text.escapeChar) where
  quotes := by rw [Text.quoted, String.toList_ofList]
  escapes := literalBody_flatMap_escapeChar text.toList
  ends := (literalBody_flatMap_escapeChar text.toList).escaping_iff
  oneLine := (literalBody_flatMap_escapeChar text.toList).not_mem_lineFeed
  reads := unescape_flatMap_escapeChar text.toList

/-! ## Keys -/

/-- The key of a property that is called `property`: an identifier is its own key, the key of a
literal is what it says. -/
def KeyOf (property key : String) : Prop :=
  isIdentifier property = true ∧ key = property ∨
    ∃ body, LiteralBody body ∧ property.toList = '"' :: body ++ ['"'] ∧ key.toList = unescape body

/-- No identifier is a literal. -/
theorem toList_ne_of_isIdentifier {property : String} (h : isIdentifier property = true)
    (rest : List Char) : property.toList ≠ '"' :: rest := by
  intro hchars
  unfold isIdentifier at h
  rw [hchars] at h
  simp [isIdentifierStart] at h

theorem KeyOf.unique {property key key' : String} (h : KeyOf property key)
    (h' : KeyOf property key') : key = key' := by
  rcases h with ⟨hid, rfl⟩ | ⟨body, -, hchars, hkey⟩
  · rcases h' with ⟨-, rfl⟩ | ⟨body', -, hchars', -⟩
    · rfl
    · exact absurd hchars' (toList_ne_of_isIdentifier hid _)
  · rcases h' with ⟨hid', rfl⟩ | ⟨body', -, hchars', hkey'⟩
    · exact absurd hchars (toList_ne_of_isIdentifier hid' _)
    · have hbody : body = body' := by
        rw [hchars] at hchars'
        exact List.append_cancel_right (List.cons.inj hchars').2
      rw [← String.toList_inj, hkey, hkey', hbody]

theorem keyOf_propertyName {name : String} (h : '\r' ∉ name.toList) :
    KeyOf (propertyName name) name := by
  unfold propertyName
  by_cases hid : isIdentifier name = true
  · rw [if_pos hid]
    exact .inl ⟨hid, rfl⟩
  · have hliteral := literalOf_quoted name
    rw [if_neg hid]
    refine .inr ⟨_, hliteral.escapes, hliteral.quotes, ?_⟩
    rw [hliteral.reads, filter_ne_of_not_mem h]

end Ambient.TypeScript
