import Ambient.Proofs.Snapshot.Names
import Ambient.Proofs.TypeScript.Literals

/-!
# Different names stay different

Properties are declared under their own names, quoted where a name is no identifier.
Quoting leaves out carriage returns only, and no name of an element holds one, so the key
of a property is the name of its element and two elements of a table never become one
property.

Types are declared under their own names, escaped where a name is a reserved word. This
keeps names apart with one exception: what a reserved word is escaped to may be the name
of another table.
-/

namespace Ambient.TypeScript

theorem propertyName_injective {a b : String} (ha : '\r' ∉ a.toList) (hb : '\r' ∉ b.toList)
    (h : propertyName a = propertyName b) : a = b := by
  have hkey := keyOf_propertyName ha
  rw [h] at hkey
  exact hkey.unique (keyOf_propertyName hb)

/-- A name without blanks holds no carriage return. -/
theorem not_mem_of_nameFault? {name : String} (h : nameFault? name = none) :
    '\r' ∉ name.toList := by
  intro hmem
  unfold nameFault? at h
  by_cases hempty : name.isEmpty = true
  · rw [if_pos hempty] at h
    exact nomatch h
  · have hany : name.toList.any Text.isBlank = true :=
      List.any_eq_true.mpr ⟨'\r', hmem, by decide⟩
    rw [if_neg hempty, if_pos hany] at h
    exact nomatch h

/-- **A quoted text is a literal that says the text, and a property has the name of its element as
its key**: so different elements never become one property. -/
theorem literalOf_quoted_and_keyOf_propertyName (text : String) {a b : String}
    (ha : nameFault? a = none) (hb : nameFault? b = none) :
    (∃ body, LiteralOf text (Text.quoted text).toList body) ∧
      (∀ key, KeyOf (propertyName a) key ↔ key = a) ∧
      (propertyName a = propertyName b → a = b) := by
  have hreturn := not_mem_of_nameFault? ha
  have hkey := keyOf_propertyName hreturn
  refine ⟨⟨_, literalOf_quoted text⟩, fun key => ⟨fun h => h.unique hkey, ?_⟩, ?_⟩
  · rintro rfl
    exact hkey
  · exact propertyName_injective hreturn (not_mem_of_nameFault? hb)

/-- Names and a text that end in what quoting escapes. -/
theorem literalOf_quoted_and_keyOf_propertyName_backslashes :
    nameFault? "u\\\"\\" = none ∧ nameFault? "u\\\"" = none ∧
      (∃ body, LiteralOf "\"\r\n\\" (Text.quoted "\"\r\n\\").toList body) ∧
      (∀ key, KeyOf (propertyName "u\\\"\\") key ↔ key = "u\\\"\\") ∧
      propertyName "u\\\"\\" ≠ propertyName "u\\\"" := by
  have hfirst : nameFault? "u\\\"\\" = none := by decide
  have hsecond : nameFault? "u\\\"" = none := by decide
  obtain ⟨hliteral, hkey, hinj⟩ :=
    literalOf_quoted_and_keyOf_propertyName "\"\r\n\\" hfirst hsecond
  exact ⟨hfirst, hsecond, hliteral, hkey, mt hinj (by decide)⟩

/-! ## Types -/

theorem isIdentifierRest_of_start {c : Char} (h : isIdentifierStart c = true) :
    isIdentifierRest c = true := by
  unfold isIdentifierStart at h
  unfold isIdentifierRest Char.isAlphanum
  grind

theorem all_of_isIdentifier {name : String} (h : isIdentifier name = true) :
    name.toList.all isIdentifierRest = true := by
  unfold isIdentifier at h
  cases hname : name.toList with
  | nil => rfl
  | cons first rest =>
    simp only [hname, Bool.and_eq_true] at h
    rw [List.all_cons, isIdentifierRest_of_start h.1, h.2]
    rfl

theorem ne_empty_of_isIdentifier {name : String} (h : isIdentifier name = true) : name ≠ "" := by
  rintro rfl
  exact absurd h (by decide)

/-- What holds of a text that is put together as the text of a type is. -/
structure Composes (P : String → Prop) : Prop where
  append : ∀ {first second}, P first → P second → P (first ++ second)
  punctuation : ∀ text ∈ ["", ".", " & ", "<", ", ", ">"], P text

namespace Composes

variable {P : String → Prop} (hp : Composes P)

include hp in
theorem reference {reference : Reference} (h : ∀ segment ∈ reference.segments, P segment) :
    P reference.text := by
  obtain ⟨segments⟩ := reference
  unfold Reference.text
  induction segments with
  | nil => exact hp.punctuation "" (by decide)
  | cons first rest ih =>
    have hfirst := h first List.mem_cons_self
    have hrest := ih fun segment hsegment => h segment (List.mem_cons_of_mem first hsegment)
    cases rest with
    | nil =>
      rw [String.intercalate_singleton]
      exact hfirst
    | cons second rest =>
      rw [String.intercalate_cons_cons]
      exact hp.append (hp.append hfirst (hp.punctuation "." (by decide))) hrest

include hp in
theorem type {type : TypeExpr} (h : ∀ reference ∈ type.references, P reference.text) :
    P type.text := by
  cases type with
  | plain type => exact h type List.mem_cons_self
  | intersection left right =>
    have hleft := h left List.mem_cons_self
    have hright := h right (List.mem_cons_of_mem _ List.mem_cons_self)
    exact hp.append (hp.append hleft (hp.punctuation " & " (by decide))) hright
  | applied head first second =>
    have hhead := h head List.mem_cons_self
    have hfirst := h first (List.mem_cons_of_mem _ List.mem_cons_self)
    have hsecond := h second (List.mem_cons_of_mem _ (List.mem_cons_of_mem _ List.mem_cons_self))
    have hopen := hp.append (hp.append hhead (hp.punctuation "<" (by decide))) hfirst
    have hboth := hp.append (hp.append hopen (hp.punctuation ", " (by decide))) hsecond
    exact hp.append hboth (hp.punctuation ">" (by decide))

end Composes

/-- `escaped` is what the reserved word is escaped to. -/
def EscapesTo (word escaped : String) : Prop := isReserved word = true ∧ escaped = "_" ++ word

/-- No reserved word is what another one is escaped to. -/
theorem isReserved_escaped {word : String} (h : isReserved word = true) :
    isReserved ("_" ++ word) = false := by
  have hall : ∀ word ∈ reservedWords, isReserved ("_" ++ word) = false := by decide +kernel
  exact hall word (of_decide_eq_true h)

theorem EscapesTo.typeName_eq {word escaped : String} (h : EscapesTo word escaped) :
    typeName word = typeName escaped := by
  obtain ⟨hword, rfl⟩ := h
  unfold typeName
  rw [if_pos hword, isReserved_escaped hword, if_neg Bool.false_ne_true]

/-- **Escaping takes two names to one** exactly if one of them is escaped to the other. -/
theorem typeName_eq_iff {a b : String} :
    typeName a = typeName b ↔ a = b ∨ EscapesTo a b ∨ EscapesTo b a := by
  constructor
  · intro h
    unfold typeName at h
    by_cases ha : isReserved a = true <;> by_cases hb : isReserved b = true
    · rw [if_pos ha, if_pos hb] at h
      exact .inl (String.append_right_inj _ |>.mp h)
    · rw [if_pos ha, if_neg hb] at h
      exact .inr (.inl ⟨ha, h.symm⟩)
    · rw [if_neg ha, if_pos hb] at h
      exact .inr (.inr ⟨hb, h⟩)
    · rw [if_neg ha, if_neg hb] at h
      exact .inl h
  · rintro (rfl | h | h)
    · rfl
    · exact h.typeName_eq
    · exact h.typeName_eq.symm

theorem EscapesTo.ne {word escaped : String} (h : EscapesTo word escaped) : word ≠ escaped := by
  rintro rfl
  have hnot := isReserved_escaped h.1
  rw [← h.2, h.1] at hnot
  exact nomatch hnot

/-- What is escaped is an identifier if it was one before. -/
theorem isIdentifier_typeName {name : String} (h : isIdentifier name = true) :
    isIdentifier (typeName name) = true := by
  unfold typeName
  split
  · unfold isIdentifier
    rw [String.toList_append]
    show (isIdentifierStart '_' && name.toList.all isIdentifierRest) = true
    rw [all_of_isIdentifier h]
    rfl
  · exact h

theorem isReserved_typeName (name : String) : isReserved (typeName name) = false := by
  unfold typeName
  split
  · rename_i h
    exact isReserved_escaped h
  · rename_i h
    exact Bool.eq_false_iff.mpr h

end Ambient.TypeScript
