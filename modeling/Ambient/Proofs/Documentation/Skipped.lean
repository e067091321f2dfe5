import Ambient.Proofs.Inheritance.Shape
import Ambient.Proofs.Render.Complete
import Ambient.Proofs.Repository.Unfailing
import Ambient.Proofs.Snapshot.Trimmed
import Ambient.Proofs.Text.Shown

/-!
# What is left unsaid of a skipped field

A field is skipped if it is declared and documented as its counterpart is. The two are
compared without the blanks around their texts and without the case of their type names,
and a blank text counts as absent, but a comment shows a text as it stands. So the
comments on the two may differ in how they are spelled. They do not differ in what they
tell: `TellAlike` goes through a comment part by part.
-/

namespace Ambient

/-! ## The comparison -/

namespace Element

variable {a b : Element}

/-- Two elements are documented alike: label up to surrounding blanks; comments, default value
and package trimmed, a blank one as absent; size class and flags as they are. -/
structure SameDocumentation (a b : Element) : Prop where
  label : Text.trim a.label = Text.trim b.label
  comments : Text.present? a.comments = Text.present? b.comments
  defaultValue : Text.present? a.defaultValue = Text.present? b.defaultValue
  sizeClass : a.sizeClass = b.sizeClass
  package : Text.present? a.package = Text.present? b.package
  flags : a.flags = b.flags

/-- The comparison that is made when a field is written decides `SameDocumentation`. -/
theorem sameDocumentation_iff : a.sameDocumentation b = true ↔ a.SameDocumentation b := by
  unfold sameDocumentation
  simp only [Bool.and_eq_true, beq_iff_eq]
  constructor
  · rintro ⟨⟨⟨⟨⟨hlabel, hcomments⟩, hdefault⟩, hsize⟩, hpackage⟩, hflags⟩
    exact ⟨hlabel, hcomments, hdefault, hsize, hpackage, hflags⟩
  · rintro ⟨hlabel, hcomments, hdefault, hsize, hpackage, hflags⟩
    exact ⟨⟨⟨⟨⟨hlabel, hcomments⟩, hdefault⟩, hsize⟩, hpackage⟩, hflags⟩

/-- A field is skipped exactly where nothing differs in the comparison. -/
theorem disposition_eq_inherited_iff :
    a.disposition (some b) = .inherited ↔ a.SameShape b ∧ a.SameDocumentation b := by
  rw [← sameShape_iff, ← sameDocumentation_iff, disposition]
  cases a.sameShape b with
  | false => exact ⟨nofun, fun h => nomatch h.1⟩
  | true =>
    cases a.sameDocumentation b with
    | false => exact ⟨nofun, fun h => nomatch h.2⟩
    | true => exact ⟨fun _ => ⟨rfl, rfl⟩, fun _ => rfl⟩

theorem trim_labelOrName (hname : a.name = b.name) (h : Text.trim a.label = Text.trim b.label) :
    Text.trim a.labelOrName = Text.trim b.labelOrName := by
  have hblank : Text.isBlankText a.label = Text.isBlankText b.label := by
    rw [Bool.eq_iff_iff, ← Text.trim_eq_empty_iff, h, Text.trim_eq_empty_iff]
  unfold labelOrName Text.nonBlank?
  rw [hblank]
  split
  · exact congrArg Text.trim hname
  · exact h

end Element

/-! ## The parts of a comment -/

namespace Doc

/-- What a section adds below other lines. -/
def sectionLines (text : Option String) : List String :=
  match text.filter (! ·.isEmpty) with
  | none => []
  | some text => ["", text]

theorem withSection_of_ne_nil {lines : List String} (h : lines ≠ []) (text : Option String) :
    withSection lines text = lines ++ sectionLines text := by
  unfold withSection sectionLines
  cases text.filter (! ·.isEmpty) with
  | none => exact (List.append_nil lines).symm
  | some text => exact if_neg (mt List.isEmpty_iff.mp h)

theorem sectionLines_eq {text : Option String} (h : text ≠ some "") :
    sectionLines text = (text.map fun text => ["", text]).getD [] := by
  cases text with
  | none => rfl
  | some text =>
    have hkept : (some text).filter (! ·.isEmpty) = some text :=
      Option.filter_eq_some_iff.mpr ⟨rfl, by simpa using h⟩
    rw [sectionLines, hkept]
    rfl

/-- Lines that are not empty are told from the sections they make. -/
theorem sectionLines_inj {text text' : Option String} (h : text ≠ some "") (h' : text' ≠ some "") :
    sectionLines text = sectionLines text' ↔ text = text' := by
  refine ⟨fun heq => ?_, congrArg sectionLines⟩
  rw [sectionLines_eq h, sectionLines_eq h'] at heq
  cases text with
  | none => cases text' with
    | none => rfl
    | some => exact nomatch heq
  | some text => cases text' with
    | none => exact nomatch heq
    | some text' => exact congrArg some (List.cons.inj (List.cons.inj heq).2).1

/-- The lines that an element's own comments make. -/
def commentLines (element : Element) : List String :=
  (element.comments.map Text.textLines).getD []

theorem elementDoc_eq (element : Element) (type : Option ScalarType) (package : Option Package)
    (explicit : Bool) :
    elementDoc element type package explicit =
      element.labelOrName :: commentLines element
        ++ sectionLines (typeLine element type explicit)
        ++ sectionLines (flagsLine element.flags)
        ++ sectionLines (defaultValueLine element.defaultValue)
        ++ sectionLines (packageLine package element.package) := by
  unfold elementDoc
  simp only [List.cons_append, withSection_of_ne_nil (List.cons_ne_nil _ _)]
  rfl

/-- Once the first one is trimmed as well, the lines are told from the trimmed comments. -/
theorem modifyHead_trim_commentLines (element : Element) :
    (commentLines element).modifyHead Text.trim =
      ((Text.present? element.comments).map Text.textLines).getD [] := by
  unfold commentLines Text.present?
  cases element.comments with
  | none => rfl
  | some text =>
    rw [Option.map_some, Option.getD_some, Text.modifyHead_trim_textLines, Option.map_some,
      Option.filter_some]
    split
    · rw [Option.map_some, Option.getD_some]
    · rename_i hblank
      have hempty : Text.trim text = "" := by simpa using hblank
      rw [hempty]
      rfl

/-! ### Type lines -/

theorem clauses_ne_empty {parts : List String} (h : ∀ part ∈ parts, part ≠ "") :
    clauses parts ≠ some "" := by
  cases parts with
  | nil => exact nofun
  | cons part parts =>
    have hpart := h part List.mem_cons_self
    refine fun heq => hpart ?_
    have hline : "; ".intercalate (part :: parts) = "" := Option.some.inj heq
    cases parts with
    | nil => rwa [String.intercalate_singleton] at hline
    | cons other parts =>
      rw [String.intercalate_cons_cons, String.append_eq_empty_iff,
        String.append_eq_empty_iff] at hline
      exact hline.1.1

/-- The clause that names the type. -/
def typeClause (type : Option ScalarType) (name : String) (explicit : Bool) : List String :=
  clauseIf (! name.isEmpty) <|
    match type.bind (·.distinctDisplayName?) with
    | some display =>
      if explicit then "Type: " ++ display ++ " (" ++ name ++ ")" else "Type: " ++ display
    | none => "Type: " ++ name

/-- The clauses on the length and the size class of an element. -/
def measureClauses (element : Element) : List String :=
  clauseIf
      (0 < element.maxLength.getD 0 &&
        ! (Scalar.isExplicit element.typeName && Scalar.isUnboundedList element.typeName))
      ("Max Length: " ++ toString (element.maxLength.getD 0).toNat)
    ++ (element.sizeClass.map ("Size Class: " ++ toString ·.toNat)).toList

/-- The type line from its clauses, for a type with the name that the element has it under. -/
theorem typeLine_eq {element : Element} {type : Option ScalarType}
    (h : Text.trim ((type.map (·.name)).getD element.typeName) = Text.trim element.typeName) :
    typeLine element type (Scalar.isExplicit element.typeName) =
      clauses (typeClause type (Text.trim element.typeName) (Scalar.isExplicit element.typeName)
        ++ measureClauses element) := by
  have hunbounded : Scalar.isUnboundedList (Text.trim element.typeName) =
      Scalar.isUnboundedList element.typeName := by
    unfold Scalar.isUnboundedList
    rw [Scalar.canonicalName_trim]
  unfold typeLine measureClauses
  simp only [h, hunbounded]
  rw [List.append_assoc]
  cases element.maxLength with
  | none => cases element.sizeClass with
    | none => rfl
    | some size => rfl
  | some length => cases element.sizeClass with
    | none => rfl
    | some size => rfl

theorem append_ne_empty {text : String} (h : text ≠ "") (rest : String) : text ++ rest ≠ "" :=
  fun heq => h (String.append_eq_empty_iff.mp heq).1

theorem ne_empty_of_mem_clauseIf {condition : Bool} {text part : String}
    (h : part ∈ clauseIf condition text) (htext : text ≠ "") : part ≠ "" := by
  unfold clauseIf at h
  split at h
  · exact List.mem_singleton.mp h ▸ htext
  · exact nomatch h

theorem typeLine_ne_empty (type : Option ScalarType) (name : String) (explicit : Bool)
    (element : Element) :
    clauses (typeClause type name explicit ++ measureClauses element) ≠ some "" := by
  have hstart : "Type: " ≠ "" := by decide
  refine clauses_ne_empty fun part hpart => ?_
  rcases List.mem_append.mp hpart with htype | hmeasure
  · refine ne_empty_of_mem_clauseIf htype ?_
    split
    · split
      · simp only [String.append_assoc]
        exact append_ne_empty hstart _
      · exact append_ne_empty hstart _
    · exact append_ne_empty hstart _
  · rcases List.mem_append.mp hmeasure with hlength | hsize
    · exact ne_empty_of_mem_clauseIf hlength (append_ne_empty (by decide) _)
    · obtain ⟨size, -, rfl⟩ := Option.map_eq_some_iff.mp (Option.mem_toList.mp hsize)
      exact append_ne_empty (by decide) _

theorem defaultValueLine_ne_empty (value : Option String) : defaultValueLine value ≠ some "" := by
  intro heq
  obtain ⟨value, -, hline⟩ := Option.map_eq_some_iff.mp heq
  exact append_ne_empty (by decide) _ hline

/-- Type lines with the same measures both make a section, or both make none. -/
theorem length_sectionLines_clauses {type type' : Option ScalarType} {name name' : String}
    {explicit explicit' : Bool} {element : Element} (hname : name.isEmpty = name'.isEmpty) :
    (sectionLines (clauses (typeClause type name explicit ++ measureClauses element))).length =
      (sectionLines
        (clauses (typeClause type' name' explicit' ++ measureClauses element))).length := by
  have hlength : (typeClause type name explicit).length =
      (typeClause type' name' explicit').length := by
    unfold typeClause clauseIf
    rw [hname]
    split
    · rfl
    · rfl
  have hempty : (typeClause type name explicit ++ measureClauses element).isEmpty =
      (typeClause type' name' explicit' ++ measureClauses element).isEmpty := by
    rw [Bool.eq_iff_iff, List.isEmpty_iff_length_eq_zero, List.isEmpty_iff_length_eq_zero,
      List.length_append, List.length_append, hlength]
  rw [sectionLines_eq (typeLine_ne_empty type name explicit element),
    sectionLines_eq (typeLine_ne_empty type' name' explicit' element)]
  unfold clauses
  rw [hempty]
  split
  · rfl
  · rfl

end Doc

/-! ## Comments in a repository -/

namespace Repository

def scalarTypeOf (r : Repository) (name : String) : Option ScalarType :=
  (Text.present? (some name)).bind r.scalarType?

def typeLine (r : Repository) (element : Element) : Option String :=
  Doc.typeLine element (r.scalarTypeOf element.typeName) (Scalar.isExplicit element.typeName)

def packageLine (r : Repository) (element : Element) : Option String :=
  Doc.packageLine (r.packageOf element.package) element.package

/-- The clause that names the type of an element. -/
def typeClause (r : Repository) (element : Element) : List String :=
  Doc.typeClause (r.scalarTypeOf element.typeName) (Text.trim element.typeName)
    (Scalar.isExplicit element.typeName)

/--
The comments on two elements tell the same, part by part.

Flags and package are the same lines. Of the other parts it is said how far they may
differ, and `lines` says that the comments as a whole differ in these parts or not at all.
-/
structure TellAlike (r : Repository) (a b : Element) : Prop where
  /-- The titles are the same but for the blanks around them. -/
  title : Text.trim a.labelOrName = Text.trim b.labelOrName
  /-- The lines below the title are the same but for the blanks before the first one. -/
  comments : (Doc.commentLines a).modifyHead Text.trim = (Doc.commentLines b).modifyHead Text.trim
  /-- The type lines are the same if the type names are, blanks around them apart. -/
  typeLine : Text.trim a.typeName = Text.trim b.typeName → r.typeLine a = r.typeLine b
  /-- If they are not, it is the clause that names the type which may differ. -/
  clauses : ∀ element ∈ [a, b],
    r.typeLine element = Doc.clauses (r.typeClause element ++ Doc.measureClauses element)
  measures : Doc.measureClauses a = Doc.measureClauses b
  flags : Doc.flagsLine a.flags = Doc.flagsLine b.flags
  /-- The default values are the same but for the blanks around them, a blank one being none. -/
  defaultValue : Text.present? a.defaultValue = Text.present? b.defaultValue
  package : r.packageLine a = r.packageLine b
  /-- Nothing is left unsaid where these four parts are spelled alike, and only there. -/
  lines : r.elementDoc a = r.elementDoc b ↔
    a.labelOrName = b.labelOrName ∧ Doc.commentLines a = Doc.commentLines b ∧
      r.typeLine a = r.typeLine b ∧
        Doc.defaultValueLine a.defaultValue = Doc.defaultValueLine b.defaultValue

variable {r : Repository} {a b : Element}

theorem elementDoc_eq (r : Repository) (element : Element) :
    r.elementDoc element =
      element.labelOrName :: Doc.commentLines element
        ++ Doc.sectionLines (r.typeLine element)
        ++ Doc.sectionLines (Doc.flagsLine element.flags)
        ++ Doc.sectionLines (Doc.defaultValueLine element.defaultValue)
        ++ Doc.sectionLines (r.packageLine element) :=
  Doc.elementDoc_eq element _ _ _

/-- Comments with as many lines in each part are compared part by part. -/
theorem elementDoc_eq_iff (hflags : Doc.flagsLine a.flags = Doc.flagsLine b.flags)
    (hpackage : r.packageLine a = r.packageLine b)
    (hcomments : (Doc.commentLines a).length = (Doc.commentLines b).length)
    (hsection : (Doc.sectionLines (r.typeLine a)).length =
      (Doc.sectionLines (r.typeLine b)).length)
    (ha : r.typeLine a ≠ some "") (hb : r.typeLine b ≠ some "") :
    r.elementDoc a = r.elementDoc b ↔
      a.labelOrName = b.labelOrName ∧ Doc.commentLines a = Doc.commentLines b ∧
        r.typeLine a = r.typeLine b ∧
          Doc.defaultValueLine a.defaultValue = Doc.defaultValueLine b.defaultValue := by
  have htitle : (a.labelOrName :: Doc.commentLines a).length =
      (b.labelOrName :: Doc.commentLines b).length := congrArg (· + 1) hcomments
  have habove : ∀ flags : List String,
      (a.labelOrName :: Doc.commentLines a ++ Doc.sectionLines (r.typeLine a) ++ flags).length =
        (b.labelOrName :: Doc.commentLines b ++ Doc.sectionLines (r.typeLine b)
          ++ flags).length := by
    intro flags
    rw [List.length_append, List.length_append, List.length_append, List.length_append, htitle,
      hsection]
  -- what stands above the default value is as long on both sides, so the lists are cut there
  rw [elementDoc_eq, elementDoc_eq, hflags, hpackage, List.append_left_inj,
    List.append_eq_append_iff_of_size_eq_left (habove _), List.append_left_inj,
    List.append_eq_append_iff_of_size_eq_left htitle, List.cons.injEq,
    Doc.sectionLines_inj ha hb,
    Doc.sectionLines_inj (Doc.defaultValueLine_ne_empty _) (Doc.defaultValueLine_ne_empty _),
    and_assoc, and_assoc]

theorem typeClause_eq (r : Repository) (h : Text.trim a.typeName = Text.trim b.typeName) :
    r.typeClause a = r.typeClause b := by
  have hpresent : Text.present? (some a.typeName) = Text.present? (some b.typeName) :=
    congrArg (fun name => (some name).filter _) h
  have hexplicit : Scalar.isExplicit a.typeName = Scalar.isExplicit b.typeName := by
    rw [← Scalar.isExplicit_trim, h, Scalar.isExplicit_trim]
  unfold typeClause scalarTypeOf
  rw [hpresent, hexplicit, h]

end Repository

namespace Snapshot

variable {snapshot : Snapshot} {a b : Element}

/-- A type is found under the name it has. -/
theorem trim_name_scalarTypeOf (snapshot : Snapshot) (name : String) :
    Text.trim (((snapshot.repository.scalarTypeOf name).map (·.name)).getD name) =
      Text.trim name := by
  cases hfound : snapshot.repository.scalarTypeOf name with
  | none => rfl
  | some type =>
    obtain ⟨key, hkey, htype⟩ := Option.bind_eq_some_iff.mp hfound
    obtain ⟨_, -, rfl⟩ := Option.map_eq_some_iff.mp htype
    obtain ⟨hmap, -⟩ := Option.filter_eq_some_iff.mp hkey
    obtain rfl : Text.trim name = key := Option.some.inj hmap
    exact Text.trim_trim name

theorem typeLine_eq (snapshot : Snapshot) (element : Element) :
    snapshot.repository.typeLine element =
      Doc.clauses (snapshot.repository.typeClause element ++ Doc.measureClauses element) :=
  Doc.typeLine_eq (snapshot.trim_name_scalarTypeOf element.typeName)

theorem typeLine_ne_empty (snapshot : Snapshot) (element : Element) :
    snapshot.repository.typeLine element ≠ some "" := by
  rw [typeLine_eq]
  exact Doc.typeLine_ne_empty _ _ _ element

variable (hshape : a.SameShape b) (hdoc : a.SameDocumentation b)

include hshape

theorem isEmpty_trim_typeName :
    (Text.trim a.typeName).isEmpty = (Text.trim b.typeName).isEmpty := by
  rw [Bool.eq_iff_iff, String.isEmpty_iff, String.isEmpty_iff, ← Text.asciiLower_eq_empty_iff,
    hshape.typeName, Text.asciiLower_eq_empty_iff]

include hdoc

theorem measureClauses_eq : Doc.measureClauses a = Doc.measureClauses b := by
  have hcanonical : Scalar.canonicalName a.typeName = Scalar.canonicalName b.typeName :=
    hshape.typeName
  unfold Doc.measureClauses Scalar.isExplicit Scalar.isUnboundedList
  rw [hcanonical, hshape.maxLength, hdoc.sizeClass]

theorem tellAlike (snapshot : Snapshot) (hname : a.name = b.name) :
    snapshot.repository.TellAlike a b := by
  let r := snapshot.repository
  have hmeasures := measureClauses_eq hshape hdoc
  have hcomments : (Doc.commentLines a).modifyHead Text.trim =
      (Doc.commentLines b).modifyHead Text.trim := by
    rw [Doc.modifyHead_trim_commentLines, Doc.modifyHead_trim_commentLines, hdoc.comments]
  have hpackage : r.packageLine a = r.packageLine b := by
    unfold Repository.packageLine Repository.packageOf
    rw [← Doc.packageLine_present? _ a.package, ← Doc.packageLine_present? _ b.package,
      hdoc.package]
  have hflags : Doc.flagsLine a.flags = Doc.flagsLine b.flags := congrArg _ hdoc.flags
  have hcount : (Doc.commentLines a).length = (Doc.commentLines b).length := by
    have hlength := congrArg List.length hcomments
    rwa [List.length_modifyHead, List.length_modifyHead] at hlength
  have hsection : (Doc.sectionLines (r.typeLine a)).length =
      (Doc.sectionLines (r.typeLine b)).length := by
    rw [typeLine_eq, typeLine_eq, ← hmeasures]
    exact Doc.length_sectionLines_clauses (isEmpty_trim_typeName hshape)
  exact
    { title := Element.trim_labelOrName hname hdoc.label
      comments := hcomments
      typeLine := fun htype => by rw [typeLine_eq, typeLine_eq, hmeasures, r.typeClause_eq htype]
      clauses := fun element _ => snapshot.typeLine_eq element
      measures := hmeasures
      flags := hflags
      defaultValue := hdoc.defaultValue
      package := hpackage
      lines := Repository.elementDoc_eq_iff hflags hpackage hcount hsection
        (snapshot.typeLine_ne_empty a) (snapshot.typeLine_ne_empty b) }

end Snapshot

/-- **A field that is skipped tells what its counterpart tells.**

The comments on the two are those that are written where nothing is skipped, and whatever was
looked up before. Part by part they tell the same. -/
theorem tellAlike_of_inherited (snapshot : Snapshot) {a b : Element} (hname : a.name = b.name)
    (hskip : a.disposition (some b) = .inherited) :
    (∀ element ∈ [a, b], ∀ state : CachedSession, state.cache.Kept snapshot.repository →
      (CacheM.elementDoc element { repository := snapshot.repository } state).1 =
        .ok (snapshot.repository.elementDoc element)) ∧
      snapshot.repository.TellAlike a b := by
  refine ⟨fun element _ state hkept => ?_, ?_⟩
  · obtain ⟨hrun, -⟩ := (CacheM.answers_elementDoc element).run_of_unfailing
      (CacheM.ends_elementDoc element) (c := { repository := snapshot.repository }) hkept
      fun _ _ => rfl
    rw [hrun]
  · obtain ⟨hshape, hdoc⟩ := Element.disposition_eq_inherited_iff.mp hskip
    exact Snapshot.tellAlike hshape hdoc snapshot hname

/-- A table that repeats the fields of its super table, each of them spelled in another way. -/
def Snapshot.respelled : Snapshot where
  tables := .ofList
    [("incident",
      { attributes := { superName := some "task" }
        elements := .ofList
          [("due", { typeName := "string", defaultValue := some " " }),
           ("notes", { typeName := "string", comments := some "  What was done\nand by whom" }),
           ("number", { label := " Number", typeName := "string" }),
           ("state", { typeName := "Integer" })] }),
     ("task",
      { elements := .ofList
          [("due", { typeName := "string" }),
           ("notes", { typeName := "string", comments := some "What was done\nand by whom" }),
           ("number", { label := "Number", typeName := "string" }),
           ("state", { typeName := "integer" })] })]
  types := .ofList [("integer", some "Whole number")]

theorem tellAlike_of_inherited_respelled :
    let a : Element := { typeName := "Integer", name := "state", table := "incident" }
    let b : Element := { typeName := "integer", name := "state", table := "task" }
    (a.name = b.name ∧ a.disposition (some b) = .inherited) ∧
      (∀ element ∈ [a, b], ∀ state : CachedSession,
        state.cache.Kept Snapshot.respelled.repository →
          (CacheM.elementDoc element { repository := Snapshot.respelled.repository } state).1 =
            .ok (Snapshot.respelled.repository.elementDoc element)) ∧
        Snapshot.respelled.repository.TellAlike a b := by
  intro a b
  have hskip : a.disposition (some b) = .inherited := by decide +kernel
  exact ⟨⟨rfl, hskip⟩, tellAlike_of_inherited Snapshot.respelled rfl hskip⟩

/-- Each of the four spellings makes the comment on a skipped field another one. -/
theorem elementDoc_ne_of_inherited :
    let r := Snapshot.respelled.repository
    let written (element : Element) := (CacheM.elementDoc element { repository := r } {}).1.toOption
    Snapshot.respelled.violation? = none ∧
      (r.table? "incident").bind r.superTable? = r.table? "task" ∧
        ∀ name ∈ ["due", "notes", "number", "state"],
          ∃ a ∈ r.elementsOf "incident", ∃ b ∈ r.elementsOf "task",
            (a.name = name ∧ b.name = name) ∧ a.disposition (some b) = .inherited ∧
              (written a).isSome ∧ (written b).isSome ∧ written a ≠ written b := by
  decide +kernel

end Ambient
