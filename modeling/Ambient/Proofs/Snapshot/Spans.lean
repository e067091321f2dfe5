import Ambient.Snapshot.Parse
import Mathlib.Control.Monad.Basic

/-!
# Where errors point

A fault of JSON is shown as one byte and an invalid name as one occurrence of it. An
occurrence lies in the source as a matter of course, and the one byte is moved to the last
one where it would lie behind. So all spans lie inside their sources but one: in the empty
source there is no byte to be moved to.
-/

namespace Ambient

/-! ## Places -/

namespace Text

theorem byteLength_eq_utf8ByteSize (cs : List Char) :
    byteLength cs = (String.ofList cs).utf8ByteSize := by
  induction cs with
  | nil => rfl
  | cons c cs ih =>
    have hsplit : String.ofList (c :: cs) = String.singleton c ++ String.ofList cs := by
      rw [String.singleton_eq_ofList, ← String.ofList_append]
      rfl
    rw [byteLength_cons, ih, hsplit, String.utf8ByteSize_append, String.utf8ByteSize_singleton]

theorem byteLength_toList (s : String) : byteLength s.toList = s.utf8ByteSize := by
  rw [byteLength_eq_utf8ByteSize, String.ofList_toList]

/-- What is found stands there. -/
theorem exists_of_occurrence? {pattern cs : List Char} {offset : Nat}
    (h : occurrence? pattern cs = some offset) :
    ∃ before after, cs = before ++ pattern ++ after ∧ offset = byteLength before := by
  induction cs generalizing offset with
  | nil =>
    unfold occurrence? at h
    split at h
    case isTrue hempty =>
      obtain rfl := List.isEmpty_iff.mp hempty
      exact ⟨[], [], rfl, (Option.some.inj h).symm⟩
    case isFalse => exact nomatch h
  | cons c cs ih =>
    unfold occurrence? at h
    split at h
    case isTrue hprefix =>
      obtain ⟨after, hafter⟩ := List.isPrefixOf_iff_prefix.mp hprefix
      exact ⟨[], after, hafter.symm, (Option.some.inj h).symm⟩
    case isFalse =>
      obtain ⟨later, hlater, rfl⟩ := Option.map_eq_some_iff.mp h
      obtain ⟨before, after, rfl, rfl⟩ := ih hlater
      exact ⟨c :: before, after, rfl, by rw [byteLength_cons, Nat.add_comm]⟩

/-- A line and column are a place of one byte, if the source has any. -/
theorem offsetOf_lt {source : String} {line column offset : Nat} (hsource : source ≠ "")
    (h : offsetOf source line column = some offset) : offset < source.utf8ByteSize := by
  have hpos : source.utf8ByteSize ≠ 0 := fun h => hsource (String.utf8ByteSize_eq_zero_iff.mp h)
  unfold offsetOf at h
  split at h
  case isTrue => exact nomatch h
  case isFalse =>
    rw [← Option.some.inj h, byteLength_toList]
    have hlast := Nat.min_le_right
      ((lineStart (line - 1) source.toList + (column - 1)) % UInt64.size) (source.utf8ByteSize - 1)
    omega

end Text

/-! ## Spans -/

namespace Span

variable {source name : String} {span : Span}

def Inside (span : Span) (source : String) : Prop :=
  span.offset + span.length ≤ source.utf8ByteSize

instance : Decidable (span.Inside source) := inferInstanceAs (Decidable (_ ≤ _))

/-- The span is that of one occurrence of `text`. -/
def Covers (span : Span) (source text : String) : Prop :=
  ∃ before after, source = before ++ text ++ after ∧
    span.offset = before.utf8ByteSize ∧ span.length = text.utf8ByteSize

theorem Covers.inside {text : String} (h : span.Covers source text) : span.Inside source := by
  obtain ⟨before, after, rfl, hoffset, hlength⟩ := h
  unfold Inside
  rw [hoffset, hlength, String.utf8ByteSize_append, String.utf8ByteSize_append]
  exact Nat.le_add_right _ _

/-- Wherever the name is said to be, it is. -/
def Finds (source name : String) (offset? : Option Nat) : Prop :=
  ∀ offset, offset? = some offset → Covers ⟨offset, name.utf8ByteSize⟩ source name

theorem Finds.or {first second : Option Nat} (h : Finds source name first)
    (h' : Finds source name second) : Finds source name (first.or second) := by
  intro offset hoffset
  cases first with
  | none => exact h' offset hoffset
  | some found => exact h offset hoffset

/-- A name between two marks, where the first mark is left out. -/
theorem finds_between (opening closing : String) (hopening : opening.utf8ByteSize = 1) :
    Finds source name
      ((Text.occurrence? (opening ++ name ++ closing).toList source.toList).map (· + 1)) := by
  intro offset hoffset
  obtain ⟨found, hfound, rfl⟩ := Option.map_eq_some_iff.mp hoffset
  obtain ⟨before, after, hsource, rfl⟩ := Text.exists_of_occurrence? hfound
  refine ⟨String.ofList before ++ opening, closing ++ String.ofList after, ?_, ?_, rfl⟩
  · refine String.toList_injective (hsource.trans ?_)
    simp only [String.toList_append, String.toList_ofList, List.append_assoc]
  · rw [String.utf8ByteSize_append, ← Text.byteLength_eq_utf8ByteSize, hopening]

theorem finds_anywhere : Finds source name (Text.occurrence? name.toList source.toList) := by
  intro offset hoffset
  obtain ⟨before, after, hsource, rfl⟩ := Text.exists_of_occurrence? hoffset
  refine ⟨String.ofList before, String.ofList after, ?_, ?_, rfl⟩
  · refine String.toList_injective (hsource.trans ?_)
    simp only [String.toList_append, String.toList_ofList]
  · exact Text.byteLength_eq_utf8ByteSize before

/-- A name is covered, whichever of the ways to look for it finds it first. -/
theorem covers_ofName (h : ofName source name = some span) : span.Covers source name := by
  unfold ofName at h
  obtain ⟨offset, hoffset, rfl⟩ := Option.map_eq_some_iff.mp h
  have hdotted : Finds source name _ :=
    (finds_between "." "]" rfl).or (finds_between "." "." rfl)
  have hquoted : Finds source name _ := finds_between "\"" "\"" rfl
  exact ((hdotted.or hquoted).or finds_anywhere) offset hoffset

/-- A place where reading stopped is shown as one byte. -/
theorem inside_ofTaken {taken : Nat} (hsource : source ≠ "")
    (h : ofTaken source taken = some span) :
    span.Inside source := by
  unfold ofTaken at h
  obtain ⟨offset, hoffset, rfl⟩ := Option.map_eq_some_iff.mp h
  exact Text.offsetOf_lt hsource hoffset

end Span

/-! ## Errors -/

/-- The place that an error of a snapshot points at. -/
def SnapshotError.span? : SnapshotError → Option Span
  | .unreadable _ | .toml => none
  | .json span | .invalid _ span => span

namespace Snapshot

variable {content : String} {format : SnapshotFormat} {error : SnapshotError} {span : Span}

theorem decode_eq_error (h : decode content format = .error error) :
    error = .toml ∨ ∃ taken, error = .json (Span.ofTaken content taken) := by
  unfold decode at h
  cases format with
  | toml =>
    cases hread : SnapshotFile.Toml.read? content with
    | some snapshot =>
      simp only [hread] at h
      exact nomatch h
    | none =>
      simp only [hread] at h
      exact .inl (Except.error.inj h).symm
  | json =>
    cases hread : SnapshotFile.Json.read content with
    | ok snapshot =>
      simp only [hread] at h
      exact nomatch h
    | error taken =>
      simp only [hread] at h
      exact .inr ⟨taken, (Except.error.inj h).symm⟩

/-- What is refused cannot be read, or it names something that is not valid. -/
theorem parse_eq_error (h : parse content format = .error error) :
    decode content format = .error error ∨
      ∃ violation, error = .invalid violation (Span.ofName content violation.name) := by
  unfold parse at h
  cases hdecode : decode content format with
  | error found =>
    rw [hdecode] at h
    exact .inl h
  | ok snapshot =>
    cases hviolation : snapshot.violation? with
    | none =>
      simp only [hdecode, bind, Except.bind, hviolation] at h
      exact nomatch h
    | some violation =>
      simp only [hdecode, bind, Except.bind, hviolation] at h
      exact .inr ⟨violation, (Except.error.inj h).symm⟩

theorem inside_of_parse (hcontent : content ≠ "") (h : parse content format = .error error)
    (hspan : error.span? = some span) : span.Inside content := by
  obtain hdecode | ⟨violation, rfl⟩ := parse_eq_error h
  · obtain rfl | ⟨taken, rfl⟩ := decode_eq_error hdecode
    · exact nomatch hspan
    · exact Span.inside_ofTaken hcontent hspan
  · exact (Span.covers_ofName hspan).inside

/-! ## The empty source -/

theorem parse_empty_toml : parse "" .toml = .ok {} := by decide +kernel

theorem parse_empty_json : parse "" .json = .error (.json (some ⟨0, 1⟩)) := by decide +kernel

/-- **The span of an error lies inside the source exactly where there is a source.**

The empty text is a snapshot in TOML. In JSON it is a fault that is shown as its first byte. -/
theorem inside_iff_ne_empty (h : parse content format = .error error)
    (hspan : error.span? = some span) : span.Inside content ↔ content ≠ "" := by
  refine ⟨?_, fun hcontent => inside_of_parse hcontent h hspan⟩
  rintro hinside rfl
  cases format with
  | toml =>
    rw [parse_empty_toml] at h
    exact nomatch h
  | json =>
    rw [parse_empty_json] at h
    obtain rfl := Except.error.inj h
    obtain rfl := Option.some.inj hspan
    exact absurd hinside (by decide)

/-- The text ends in the middle of an object, after a line feed that is its last byte. -/
theorem inside_iff_ne_empty_unfinished :
    let error : SnapshotError := .json (some ⟨1, 1⟩)
    parse "\x7b\n" .json = .error error ∧ error.span? = some ⟨1, 1⟩ ∧
      (Span.Inside ⟨1, 1⟩ "\x7b\n" ↔ "\x7b\n" ≠ "") := by
  intro error
  have hparse : parse "\x7b\n" .json = .error error := by decide +kernel
  exact ⟨hparse, rfl, inside_iff_ne_empty hparse rfl⟩

/-- The fault of the empty text is shown as a byte that it does not have. -/
theorem not_inside_empty :
    ∃ error span, parse "" .json = .error error ∧ error.span? = some span ∧
      ¬ span.Inside "" :=
  ⟨_, ⟨0, 1⟩, parse_empty_json, rfl, by decide⟩

end Snapshot

end Ambient
