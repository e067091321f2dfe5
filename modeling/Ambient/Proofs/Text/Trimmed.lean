import Ambient.Schema.Scalar

/-!
# Text in the form in which it is compared

Trimming a text, and lowering its letters, leaves a text that the same step does not
change again, and the two steps do not get in each other's way. So every name that is
compared has one form that stands for all its spellings.
-/

namespace Ambient

namespace Text

variable {α : Type} {p : α → Bool}

theorem dropEndWhile_dropEndWhile (as : List α) :
    dropEndWhile p (dropEndWhile p as) = dropEndWhile p as := by
  induction as with
  | nil => rfl
  | cons a as ih =>
    cases h : dropEndWhile p as with
    | nil =>
      by_cases ha : p a = true
      · simp [dropEndWhile, h, ha]
      · simp [dropEndWhile, h, ha]
    | cons b bs =>
      have hcons : dropEndWhile p (a :: as) = a :: b :: bs := by
        rw [dropEndWhile, h]
      rw [h] at ih
      rw [hcons, dropEndWhile, ih]

theorem dropEndWhile_map {β : Type} (f : β → α) (as : List β) :
    dropEndWhile p (as.map f) = (dropEndWhile (p ∘ f) as).map f := by
  induction as with
  | nil => rfl
  | cons a as ih =>
    rw [List.map_cons, dropEndWhile, ih, dropEndWhile]
    cases dropEndWhile (p ∘ f) as with
    | nil =>
      show (if p (f a) then [] else [f a]) = List.map f (if p (f a) then [] else [a])
      split
      · rfl
      · rfl
    | cons b bs => rfl

/-- Where a list does not begin with anything to be dropped, nothing is dropped. -/
theorem dropWhile_of_head {as : List α} (h : ∀ a, as.head? = some a → p a = false) :
    as.dropWhile p = as := by
  cases as with
  | nil => rfl
  | cons a as => rw [List.dropWhile_cons, h a rfl]; rfl

/-- What is left between the two ends begins with something else. -/
theorem not_of_head?_dropEndWhile_dropWhile {as : List α} {a : α}
    (h : (dropEndWhile p (as.dropWhile p)).head? = some a) : p a = false := by
  obtain ⟨tail, htail⟩ := dropEndWhile_prefix p (as.dropWhile p)
  have hnot := List.head?_dropWhile_not p as
  rw [← htail, List.head?_append, h] at hnot
  simpa using hnot

theorem trim_trim (text : String) : trim (trim text) = trim text := by
  unfold trim
  rw [String.toList_ofList, dropWhile_of_head fun _ => not_of_head?_dropEndWhile_dropWhile,
    dropEndWhile_dropEndWhile]

/-- Nothing is left exactly of a text that is blank throughout. -/
theorem trim_eq_empty_iff {text : String} : trim text = "" ↔ isBlankText text = true := by
  have hsplit : text.toList.takeWhile isBlank ++ text.toList.dropWhile isBlank = text.toList :=
    List.takeWhile_append_dropWhile
  rw [← String.toList_eq_nil_iff, trim, String.toList_ofList, dropEndWhile_eq_nil_iff, isBlankText,
    List.all_eq_true]
  constructor
  · intro h c hc
    rw [← hsplit] at hc
    rcases List.mem_append.mp hc with hc | hc
    · exact List.all_eq_true.mp List.all_takeWhile c hc
    · exact h c hc
  · intro h c hc
    exact h c (hsplit ▸ List.mem_append_right _ hc)

theorem present?_present? (value : Option String) : present? (present? value) = present? value := by
  unfold present?
  cases value with
  | none => rfl
  | some text =>
    rw [Option.map_some, Option.filter_some]
    split
    · rename_i h
      rw [Option.map_some, trim_trim, Option.filter_some, if_pos h]
    · rfl

/-- What is present has been trimmed. -/
theorem map_trim_present? (value : Option String) : (present? value).map trim = present? value := by
  cases hpresent : present? value with
  | none => rfl
  | some text =>
    obtain ⟨hmap, -⟩ := Option.filter_eq_some_iff.mp hpresent
    obtain ⟨raw, -, rfl⟩ := Option.map_eq_some_iff.mp hmap
    exact congrArg some (trim_trim raw)

/-- Only the letters `A` to `Z` are lowered. -/
theorem toLower_eq_or_upper (c : Char) : c.toLower = c ∨ c.toNat ∈ List.range' 65 26 := by
  unfold Char.toLower
  split
  · rename_i h
    simp only [ge_iff_le, UInt32.le_iff_toNat_le, Char.toNat_val] at h
    exact .inr (List.mem_range'_1.mpr ⟨h.1, Nat.lt_succ_of_le h.2⟩)
  · exact .inl rfl

theorem isBlank_toLower (c : Char) : isBlank c.toLower = isBlank c := by
  rcases toLower_eq_or_upper c with h | h
  · rw [h]
  · have hletters : ∀ n ∈ List.range' 65 26,
        isBlank (Char.ofNat n).toLower = isBlank (Char.ofNat n) := by decide
    have hc := hletters _ h
    rwa [Char.ofNat_toNat] at hc

theorem toLower_toLower (c : Char) : c.toLower.toLower = c.toLower := by
  rcases toLower_eq_or_upper c with h | h
  · rw [h]
    exact h
  · have hletters : ∀ n ∈ List.range' 65 26,
        (Char.ofNat n).toLower.toLower = (Char.ofNat n).toLower := by decide
    have hc := hletters _ h
    rwa [Char.ofNat_toNat] at hc

theorem trim_asciiLower (text : String) : trim (asciiLower text) = asciiLower (trim text) := by
  have hblank : isBlank ∘ Char.toLower = isBlank := funext isBlank_toLower
  unfold trim asciiLower
  rw [String.toList_ofList, String.toList_ofList, List.dropWhile_map, dropEndWhile_map, hblank]

theorem asciiLower_eq_empty_iff {text : String} : asciiLower text = "" ↔ text = "" := by
  rw [← String.toList_eq_nil_iff, asciiLower, String.toList_ofList, List.map_eq_nil_iff,
    String.toList_eq_nil_iff]

theorem asciiLower_asciiLower (text : String) : asciiLower (asciiLower text) = asciiLower text := by
  have hlower : Char.toLower ∘ Char.toLower = Char.toLower := funext toLower_toLower
  unfold asciiLower
  rw [String.toList_ofList, List.map_map, hlower]

end Text

theorem Scalar.canonicalName_canonicalName (typeName : String) :
    canonicalName (canonicalName typeName) = canonicalName typeName := by
  unfold canonicalName
  rw [Text.trim_asciiLower, Text.trim_trim, Text.asciiLower_asciiLower]

end Ambient
