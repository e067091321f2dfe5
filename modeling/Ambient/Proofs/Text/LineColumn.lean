import Ambient.Proofs.Snapshot.Spans
import Ambient.Proofs.Text.Shown

/-!
# Lines and columns

The line of a byte is told by the line feeds before it, and its column by the bytes between
it and the last of them. Both are counted on the bytes of the text, where a character may take
several; a line feed is one byte, and no other character has that byte among its own
(`lineFeed_not_mem_utf8EncodeChar`). So skipping lines character by character comes to where the
line starts (`lineStart_count`), and a line and a column lead back to the byte.

The start of a line and a column are added as words. For a line and a column that were counted on
the text the sum is below its length, so it is what it should be; a column that is no place of the
text may be too large for that.
-/

namespace Ambient.Text

/-! ## Counting bytes -/

/-- The bytes of a text in UTF-8. -/
def bytes (source : String) : List UInt8 := source.toByteArray.data.toList

def lineFeed : UInt8 := 10

/-- The line of the byte at `offset`, from one. -/
def lineOf (source : String) (offset : Nat) : Nat :=
  1 + ((bytes source).take offset).count lineFeed

/-- Where the line of the byte at `offset` starts: right behind the last line feed before it. -/
def startOfLine (source : String) (offset : Nat) : Nat :=
  (dropEndWhile (· != lineFeed) ((bytes source).take offset)).length

/-- The column of the byte at `offset`, from one. -/
def columnOf (source : String) (offset : Nat) : Nat :=
  1 + (offset - startOfLine source offset)

theorem bytes_eq_flatMap (source : String) :
    bytes source = source.toList.flatMap String.utf8EncodeChar := by
  rw [bytes, ← String.utf8Encode_toList, List.utf8Encode, List.data_toByteArray]

theorem utf8EncodeChar_lineFeed : String.utf8EncodeChar '\n' = [lineFeed] := rfl

/-- A byte below 128 is all that its character takes. -/
theorem toNat_eq_of_mem_utf8EncodeChar {c : Char} {b : UInt8} (h : b ∈ String.utf8EncodeChar c)
    (hb : b.toNat < 128) : c.val.toNat = b.toNat := by
  unfold String.utf8EncodeChar at h
  dsimp only at h
  split at h
  · rw [List.mem_singleton.mp h, UInt8.toNat_ofNat']
    omega
  · -- the first byte tells how many there are, the others go on, and all have the highest bit
    exfalso
    split at h
    · simp only [List.mem_cons, List.not_mem_nil, or_false] at h
      rcases h with rfl | rfl <;> rw [UInt8.toNat_ofNat'] at hb <;> omega
    · split at h
      · simp only [List.mem_cons, List.not_mem_nil, or_false] at h
        rcases h with rfl | rfl | rfl <;> rw [UInt8.toNat_ofNat'] at hb <;> omega
      · simp only [List.mem_cons, List.not_mem_nil, or_false] at h
        rcases h with rfl | rfl | rfl | rfl <;> rw [UInt8.toNat_ofNat'] at hb <;> omega

theorem lineFeed_not_mem_utf8EncodeChar {c : Char} (hc : c ≠ '\n') :
    lineFeed ∉ String.utf8EncodeChar c := by
  intro hmem
  have hval : c.val.toNat = 10 := toNat_eq_of_mem_utf8EncodeChar hmem (by decide)
  exact hc (Char.ext (UInt32.toNat_inj.mp hval))

/-! ## Where a line starts -/

theorem dropEndWhile_eq_nil_iff_count {bs : List UInt8} :
    dropEndWhile (· != lineFeed) bs = [] ↔ bs.count lineFeed = 0 := by
  rw [dropEndWhile_eq_nil_iff, List.count_eq_zero]
  constructor
  · intro hall hmem
    exact absurd (hall lineFeed hmem) (by decide)
  · intro hnot b hb
    exact bne_iff_ne.mpr fun heq => hnot (heq ▸ hb)

/-- **Skipping as many lines as there are line feeds in a beginning of a text leads to where the
last of its lines starts.** -/
theorem lineStart_count {cs : List Char} {before : List UInt8}
    (h : before <+: cs.flatMap String.utf8EncodeChar) :
    lineStart (before.count lineFeed) cs = (dropEndWhile (· != lineFeed) before).length := by
  -- on the characters; from the second line on the beginning goes past the first of them
  induction cs generalizing before with
  | nil =>
    rw [List.prefix_nil.mp h]
    rfl
  | cons c cs ih =>
    by_cases hfirst : before.count lineFeed = 0
    · rw [hfirst, dropEndWhile_eq_nil_iff_count.mpr hfirst]
      rfl
    rw [List.flatMap_cons] at h
    by_cases hc : c = '\n'
    · subst hc
      rw [utf8EncodeChar_lineFeed, List.singleton_append] at h
      cases before with
      | nil => rfl
      | cons b before =>
        obtain ⟨rfl, hlater⟩ := List.cons_prefix_cons.mp h
        rw [List.count_cons_self, lineStart, if_pos rfl, ih hlater,
          dropEndWhile_cons_of_not (by decide), List.length_cons, Nat.add_comm]
        rfl
    · have hnone := lineFeed_not_mem_utf8EncodeChar hc
      obtain ⟨after, hafter⟩ := h
      rcases List.append_eq_append_iff.mp hafter with ⟨more, hmore, -⟩ | ⟨later, rfl, hlater⟩
      · -- a beginning that ends within the character has no line feed
        have hmem := List.mem_append_left more (List.count_pos_iff.mp (Nat.pos_of_ne_zero hfirst))
        exact absurd (hmore ▸ hmem) hnone
      · rw [List.count_append, List.count_eq_zero.mpr hnone, Nat.zero_add] at hfirst ⊢
        obtain ⟨skipped, hskipped⟩ := Nat.exists_eq_succ_of_ne_zero hfirst
        rw [dropEndWhile_append_of_ne_nil _ (mt dropEndWhile_eq_nil_iff_count.mp hfirst),
          List.length_append, String.length_utf8EncodeChar, ← ih ⟨after, hlater.symm⟩, hskipped,
          lineStart, if_neg hc]

theorem startOfLine_eq (source : String) (offset : Nat) :
    startOfLine source offset = lineStart (lineOf source offset - 1) source.toList := by
  have hbegins : (bytes source).take offset <+: source.toList.flatMap String.utf8EncodeChar :=
    bytes_eq_flatMap source ▸ List.take_prefix offset (bytes source)
  rw [startOfLine, lineOf, Nat.add_sub_cancel_left, lineStart_count hbegins]

theorem startOfLine_le (source : String) (offset : Nat) : startOfLine source offset ≤ offset := by
  have hkept := dropEndWhile_prefix (· != lineFeed) ((bytes source).take offset)
  calc startOfLine source offset
      ≤ ((bytes source).take offset).length := hkept.length_le
    _ ≤ offset := List.length_take_le _ _

/-- Whatever the sum comes to, a line and a column are a byte of the text. -/
theorem offsetOf_eq_some {source : String} {line : Nat} (hline : line ≥ 1) (column : Nat) :
    offsetOf source line column =
      some (min ((lineStart (line - 1) source.toList + (column - 1)) % UInt64.size)
        (byteLength source.toList - 1)) :=
  if_neg (Nat.ne_of_gt hline)

/-- **A line and a column lead back to the byte that they are counted for**, whatever bytes stand
before it and whichever of its character's bytes it is.

Every other line and column are a byte of the text too, and where the column grows the byte is not
an earlier one, as long as the start of the line and the bytes before the column add up to a
word. -/
theorem offsetOf_inverts_counting {source : String} (hsource : source ≠ "")
    (hfits : source.utf8ByteSize < UInt64.size) :
    (∀ offset < source.utf8ByteSize,
        offsetOf source (lineOf source offset) (columnOf source offset) = some offset) ∧
      ∀ line ≥ 1, ∃ place : Nat → Nat,
        (∀ column, offsetOf source line column = some (place column) ∧
          place column < source.utf8ByteSize) ∧
        ∀ column later, column ≤ later →
          lineStart (line - 1) source.toList + (later - 1) < UInt64.size →
            place column ≤ place later := by
  constructor
  · intro offset hoffset
    have hline : lineOf source offset ≥ 1 := Nat.le_add_right 1 _
    have hle := startOfLine_le source offset
    have hsum : startOfLine source offset + (columnOf source offset - 1) = offset := by
      rw [columnOf]
      omega
    rw [offsetOf_eq_some hline, ← startOfLine_eq, hsum, byteLength_toList,
      Nat.mod_eq_of_lt (Nat.lt_trans hoffset hfits)]
    congr 1
    omega
  · intro line hline
    refine ⟨_, fun column => ⟨offsetOf_eq_some hline column,
      offsetOf_lt hsource (offsetOf_eq_some hline column)⟩, fun column later hle hword => ?_⟩
    have hsum : lineStart (line - 1) source.toList + (column - 1) ≤
        lineStart (line - 1) source.toList + (later - 1) := by omega
    rw [Nat.mod_eq_of_lt hword, Nat.mod_eq_of_lt (Nat.lt_of_le_of_lt hsum hword)]
    omega

/-- The byte is the second of the three of its character, behind a character of two bytes. No ninth
line is there. -/
theorem offsetOf_inverts_counting_withinCharacter :
    let source := "é\n€x\n"
    (source ≠ "" ∧ source.utf8ByteSize < UInt64.size ∧ 4 < source.utf8ByteSize) ∧
      (lineOf source 4 = 2 ∧ columnOf source 4 = 2 ∧ offsetOf source 2 2 = some 4) ∧
      ∃ place : Nat → Nat,
        (∀ column, offsetOf source 9 column = some (place column) ∧
          place column < source.utf8ByteSize) ∧
        place 3 ≤ place 1000 := by
  intro source
  have hsource : source ≠ "" := by decide
  have hfits : source.utf8ByteSize < UInt64.size := by decide
  have hoffset : 4 < source.utf8ByteSize := by decide
  have hline : lineOf source 4 = 2 := by decide +kernel
  have hcolumn : columnOf source 4 = 2 := by decide +kernel
  obtain ⟨hback, hinside⟩ := offsetOf_inverts_counting hsource hfits
  have hfound := hback 4 hoffset
  rw [hline, hcolumn] at hfound
  obtain ⟨place, hplace, hmono⟩ := hinside 9 (by decide)
  exact ⟨⟨hsource, hfits, hoffset⟩, ⟨hline, hcolumn, hfound⟩, place, hplace,
    hmono 3 1000 (by decide) (by decide +kernel)⟩

/-- Beyond that the place may be an earlier one: line two starts at two here, and with the bytes
before the last of all columns that comes to zero. -/
example : offsetOf "a\nb" 2 1 = some 2 ∧ offsetOf "a\nb" 2 (UInt64.size - 1) = some 0 := by
  decide +kernel

end Ambient.Text
