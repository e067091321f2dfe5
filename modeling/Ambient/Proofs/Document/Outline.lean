import Ambient.Proofs.Document.Statements
import Ambient.Proofs.TypeScript.Emptied
import Ambient.Proofs.TypeScript.Names

/-!
# The outline of a text

The outline of a text lists what stands in it outside its comments and the bodies of
interfaces, line by line: where namespaces open and close, which types are declared, and
where a line is blank. It is read from the text alone. What a document is written as reads
back as the outline of the document, as long as its names are names: `outline_text`.
-/

namespace Ambient.TypeScript

open Code (Fragment fragmentLines writtenAt)
open Text (words words_append words_name_append words_ne_of_end words_of_name)

/-! ## Reading -/

/-- What one line says. -/
inductive Mark where
  | blank
  | opens (keyword name : String)
  | closes
  | type (name : String)
  | interface (name : String)
  | other (line : List String)
  deriving DecidableEq, Repr

/-- What a line says, given its words. -/
def Mark.ofLine : List String → Mark
  | [] => .blank
  | ["\x7d"] => .closes
  | [first, "namespace", name, "\x7b"] => .opens (first ++ " namespace") name
  | "export" :: "type" :: name :: _ => .type name
  | "export" :: "interface" :: name :: _ => .interface name
  | line => .other line

/-- The line begins an interface that does not end with it. -/
def opensBody : List String → Bool
  | "export" :: "interface" :: rest => rest.getLast? == some "\x7b"
  | _ => false

/-- Reads line by line. In the body of an interface only blank lines count, and the line that ends
it. -/
def outlineFrom : (inside : Bool) → List (List String) → List Mark
  | _, [] => []
  | true, line :: rest =>
    (if line = [] then [.blank] else []) ++ outlineFrom (line ≠ ["\x7d"]) rest
  | false, line :: rest => .ofLine line :: outlineFrom (opensBody line) rest

def outline (text : String) : List Mark := outlineFrom false (codeWords text.toList)

/-! ## What is written -/

mutual

def Item.marks : Item → List Mark
  | .blank => [.blank]
  | .comment _ => []
  | .alias a => [.type a.name]
  | .interface i => [.interface i.name]
  | .namespace keyword name body => .opens keyword name :: marksOf body ++ [.closes]

/-- The outline of a document. -/
def marksOf : Document → List Mark
  | [] => []
  | item :: items => item.marks ++ marksOf items

end

def Reference.Legible (reference : Reference) : Prop :=
  ∀ segment ∈ reference.segments, isIdentifier segment = true

def Property.Legible (p : Property) : Prop :=
  (∃ name, p.name = propertyName name) ∧ p.type.Legible

mutual

/-- What is written as a name is a name. -/
def Item.Legible : Item → Prop
  | .blank | .comment _ => True
  | .alias a => isIdentifier a.name = true ∧ ∀ reference ∈ a.value.references, reference.Legible
  | .interface i => isIdentifier i.name = true ∧ (∀ base ∈ i.base, base.Legible) ∧
      ∀ p ∈ i.properties, p.Legible
  | .namespace keyword name body =>
    keyword ∈ ["declare namespace", "export namespace"] ∧ isIdentifier name = true ∧
      LegibleItems body

def LegibleItems : Document → Prop
  | [] => True
  | item :: items => item.Legible ∧ LegibleItems items

end

theorem legibleItems_iff {document : Document} :
    LegibleItems document ↔ ∀ item ∈ document, item.Legible := by
  induction document with
  | nil => simp [LegibleItems]
  | cons item items ih => rw [LegibleItems, ih, List.forall_mem_cons]

theorem marksOf_append (first second : Document) :
    marksOf (first ++ second) = marksOf first ++ marksOf second := by
  induction first with
  | nil => rfl
  | cons item first ih => rw [List.cons_append, marksOf, ih, marksOf, List.append_assoc]

/-! ## Lines of code -/

/-- Code on one line, no comment being there and none beginning at its end. -/
structure OneLine (text : String) : Prop where
  verbatim : Verbatim text.toList
  feed : '\n' ∉ text.toList

theorem oneLine_of_plain {text : String}
    (h : (text.toList.all fun c => isPlain c && c != '\n') = true) : OneLine text := by
  have hchars : ∀ c ∈ text.toList, isPlain c = true ∧ c ≠ '\n' := fun c hc => by
    simpa using List.all_eq_true.mp h c hc
  exact ⟨verbatim_of_plain (List.all_eq_true.mpr fun c hc => (hchars c hc).1),
    fun hfeed => (hchars _ hfeed).2 rfl⟩

theorem OneLine.append {first second : String} (h : OneLine first) (h' : OneLine second) :
    OneLine (first ++ second) := by
  constructor
  · rw [String.toList_append]
    exact h.verbatim.append h'.verbatim
  · rw [String.toList_append, List.mem_append, not_or]
    exact ⟨h.feed, h'.feed⟩

theorem oneLine_of_isIdentifier {name : String} (h : isIdentifier name = true) : OneLine name := by
  refine oneLine_of_plain (List.all_eq_true.mpr fun c hc => ?_)
  have hrest := List.all_eq_true.mp (all_of_isIdentifier h) c hc
  have hfeed : c ≠ '\n' := by
    rintro rfl
    exact absurd hrest (by decide)
  simpa [hfeed] using isPlain_of_class (p := isIdentifierRest) (by decide) hrest

theorem not_space_of_isIdentifier {name : String} (h : isIdentifier name = true) :
    ' ' ∉ name.toList := fun hmem =>
  absurd (List.all_eq_true.mp (all_of_isIdentifier h) ' ' hmem) (by decide)

theorem oneLine_quoted (name : String) : OneLine (Text.quoted name) := by
  refine ⟨verbatim_quoted name, ?_⟩
  have hbody := (literalBody_flatMap_escapeChar name.toList).not_mem_lineFeed
  rw [Text.quoted, String.toList_ofList]
  simpa using hbody

theorem oneLine_propertyName (name : String) : OneLine (propertyName name) := by
  unfold propertyName
  split
  · rename_i h
    exact oneLine_of_isIdentifier h
  · exact oneLine_quoted name

theorem composes_oneLine : Composes OneLine where
  append := OneLine.append
  punctuation := by
    have hall : ∀ text ∈ ["", ".", " & ", "<", ", ", ">"],
        (text.toList.all fun c => isPlain c && c != '\n') = true := by decide
    exact fun text htext => oneLine_of_plain (hall text htext)

theorem Reference.Legible.oneLine {reference : Reference} (h : reference.Legible) :
    OneLine reference.text :=
  composes_oneLine.reference fun segment hsegment => oneLine_of_isIdentifier (h segment hsegment)

/-! ## What fragments read as -/

/-- At any depth, and whatever comes next, the fragments read as these marks. -/
def Reads (fragments : List Fragment) (marks : List Mark) : Prop :=
  ∀ depth rest, outlineFrom false
      (codeWords ((writtenAt depth (fragmentLines fragments)).toList ++ rest)) =
    marks ++ outlineFrom false (codeWords rest)

theorem reads_nil : Reads [] [] := fun _ _ => by
  rw [fragmentLines, writtenAt]
  rfl

theorem Reads.append {first second : List Fragment} {marks marks' : List Mark}
    (h : Reads first marks) (h' : Reads second marks') :
    Reads (first ++ second) (marks ++ marks') := by
  intro depth rest
  rw [fragmentLines_append, Code.writtenAt_append, String.toList_append, List.append_assoc, h, h',
    List.append_assoc]

theorem codeWords_fragments_blank (depth : Nat) (rest : List Char) :
    codeWords ((writtenAt depth (fragmentLines [.blank])).toList ++ rest) =
      [] :: codeWords rest := by
  rw [fragmentLines, fragmentLines, List.append_nil, Fragment.lines, writtenAt, writtenAt,
    String.append_empty]
  show codeWords ("\n".toList ++ rest) = _
  rw [show "\n".toList = ['\n'] from rfl, List.singleton_append, codeWords_blank]

theorem codeWords_fragments_doc (texts : List String) (depth : Nat) (rest : List Char) :
    codeWords ((writtenAt depth (fragmentLines [.doc texts])).toList ++ rest) = codeWords rest := by
  rw [fragmentLines, fragmentLines, List.append_nil, Fragment.lines]
  exact codeWords_doc depth texts rest

theorem codeWords_docFragments (texts : List String) (depth : Nat) (rest : List Char) :
    codeWords ((writtenAt depth (fragmentLines (docFragments texts))).toList ++ rest) =
      codeWords rest := by
  unfold docFragments
  split
  · rw [fragmentLines, writtenAt]
    rfl
  · exact codeWords_fragments_doc texts depth rest

theorem codeWords_fragments_line {text : String} (h : OneLine text)
    (hwords : words text.toList ≠ ["/**/"]) (depth : Nat) (rest : List Char) :
    codeWords ((writtenAt depth (fragmentLines [.line text])).toList ++ rest) =
      words text.toList :: codeWords rest := by
  rw [fragmentLines, fragmentLines, List.append_nil, Fragment.lines, writtenAt, writtenAt,
    String.append_empty]
  exact codeWords_line h.verbatim h.feed hwords depth 0 rest

/-- A header, what is written below it, and a brace. -/
theorem codeWords_fragments_block {header : String} (hheader : OneLine header)
    (hwords : words header.toList ≠ ["/**/"]) (body : List Fragment) (depth : Nat)
    (rest : List Char) :
    codeWords ((writtenAt depth (fragmentLines [.block header body (some "\x7d")])).toList
        ++ rest) =
      words header.toList :: codeWords ((writtenAt (depth + 1) (fragmentLines body)).toList ++
        (((Code.Line.text 0 "\x7d").writtenAt depth).toList ++ rest)) := by
  rw [fragmentLines, fragmentLines, List.append_nil, Fragment.lines, Option.toList_some,
    List.map_singleton, List.cons_append, writtenAt, Code.writtenAt_append,
    Code.writtenAt_map_deeper, writtenAt, writtenAt, String.append_empty, String.toList_append,
    String.toList_append, List.append_assoc, List.append_assoc]
  exact codeWords_line hheader.verbatim hheader.feed hwords depth 0 _

theorem codeWords_close (depth : Nat) (rest : List Char) :
    codeWords (((Code.Line.text 0 "\x7d").writtenAt depth).toList ++ rest) =
      ["\x7d"] :: codeWords rest := by
  have hclose : OneLine "\x7d" := oneLine_of_plain (by decide)
  exact codeWords_line hclose.verbatim hclose.feed (by decide) depth 0 rest

theorem reads_docFragments (texts : List String) : Reads (docFragments texts) [] :=
  fun depth rest => congrArg _ (codeWords_docFragments texts depth rest)

/-! ## Declarations -/

theorem words_statement {a : Alias} (hname : isIdentifier a.name = true) :
    words a.statement.toList = "export" :: "type" :: a.name :: "=" ::
      words (a.value.text ++ ";").toList := by
  have hchars : a.statement.toList = "export".toList ++ ' ' :: ("type".toList ++ ' ' ::
      (a.name.toList ++ ' ' :: ("=".toList ++ ' ' :: (a.value.text ++ ";").toList))) := by
    show ("export type " ++ a.name ++ " = " ++ a.value.text ++ ";").toList = _
    simp
  rw [hchars, words_name_append (by decide) (by decide), words_name_append (by decide) (by decide),
    words_name_append (ne_empty_of_isIdentifier hname) (not_space_of_isIdentifier hname),
    words_name_append (by decide) (by decide)]

theorem reads_alias {a : Alias} (h : (Item.alias a).Legible) :
    Reads a.fragments [.type a.name] := by
  rw [Item.Legible] at h
  obtain ⟨hname, hvalue⟩ := h
  have hopening : OneLine ("export type " ++ a.name ++ " = ") :=
    ((oneLine_of_plain (by decide)).append (oneLine_of_isIdentifier hname)).append
      (oneLine_of_plain (by decide))
  have hline : OneLine a.statement :=
    (hopening.append (composes_oneLine.type fun reference href =>
      (hvalue reference href).oneLine)).append (oneLine_of_plain (by decide))
  refine (reads_docFragments a.doc).append fun depth rest => ?_
  rw [codeWords_fragments_line hline (by rw [words_statement hname]; simp), words_statement hname]
  rfl

/-- The header of an interface opens a brace after the name and whatever it extends. -/
theorem exists_words_header {i : Interface} (hname : isIdentifier i.name = true) :
    ∃ extending, words i.header.toList =
      "export" :: "interface" :: i.name :: (extending ++ ["\x7b"]) := by
  have hwords : ∀ rest, words ("export".toList ++ ' ' :: ("interface".toList ++ ' ' ::
      (i.name.toList ++ ' ' :: rest))) = "export" :: "interface" :: i.name :: words rest := by
    intro rest
    rw [words_name_append (by decide) (by decide), words_name_append (by decide) (by decide),
      words_name_append (ne_empty_of_isIdentifier hname) (not_space_of_isIdentifier hname)]
  cases hbase : i.base with
  | none =>
    refine ⟨[], ?_⟩
    have hchars : i.header.toList = "export".toList ++ ' ' :: ("interface".toList ++ ' ' ::
        (i.name.toList ++ ' ' :: "\x7b".toList)) := by
      simp [Interface.header, hbase]
    rw [hchars, hwords]
    rfl
  | some base =>
    refine ⟨"extends" :: words base.text.toList, ?_⟩
    have hchars : i.header.toList = "export".toList ++ ' ' :: ("interface".toList ++ ' ' ::
        (i.name.toList ++ ' ' :: ("extends".toList ++ ' ' ::
          (base.text.toList ++ ' ' :: "\x7b".toList)))) := by
      simp [Interface.header, hbase]
    rw [hchars, hwords, words_name_append (by decide) (by decide), words_append]
    rfl

theorem opensBody_interface (name last : String) (extending : List String) :
    opensBody ("export" :: "interface" :: name :: (extending ++ [last])) = (last == "\x7b") := by
  show ((name :: extending ++ [last]).getLast? == _) = _
  rw [List.getLast?_concat]
  rfl

theorem oneLine_header {i : Interface} (hname : isIdentifier i.name = true)
    (hbase : ∀ base ∈ i.base, base.Legible) : OneLine i.header := by
  have hopening : OneLine ("export interface " ++ i.name) :=
    (oneLine_of_plain (by decide)).append (oneLine_of_isIdentifier hname)
  have hbrace : OneLine " \x7b" := oneLine_of_plain (by decide)
  unfold Interface.header
  split
  · rename_i base h
    exact ((hopening.append (oneLine_of_plain (by decide))).append (hbase base h).oneLine).append
      hbrace
  · exact hopening.append hbrace

theorem Property.Legible.oneLine {p : Property} (h : p.Legible) : OneLine p.statement := by
  obtain ⟨⟨name, hname⟩, htype⟩ := h
  have hmarker : OneLine (if p.redeclared then "new " else "") := by
    cases p.redeclared
    · exact oneLine_of_plain (by decide)
    · exact oneLine_of_plain (by decide)
  have hpname : OneLine p.name := hname ▸ oneLine_propertyName name
  exact (((hmarker.append hpname).append (oneLine_of_plain (by decide))).append
    htype.oneLine).append (oneLine_of_plain (by decide))

/-- The line of a property ends in a semicolon, so it is neither blank nor a comment nor a brace. -/
theorem words_property_ne (p : Property) {others : List String}
    (h : (others.flatMap String.toList).getLast? ≠ some ';') :
    words p.statement.toList ≠ others := by
  have hchars : p.statement.toList =
      ((if p.redeclared then "new " else "") ++ p.name ++ ": " ++ p.type.text).toList ++ [';'] := by
    simp [Property.statement]
  rw [hchars]
  exact words_ne_of_end (by decide) h

/-- The entries of an interface are passed over. -/
theorem outlineFrom_members {members : List Member}
    (h : ∀ p ∈ members.filterMap Member.property?, p.Legible) (depth : Nat) (rest : List Char) :
    outlineFrom true (codeWords
        ((writtenAt depth (fragmentLines (members.flatMap Member.fragments))).toList ++ rest)) =
      outlineFrom true (codeWords rest) := by
  induction members with
  | nil =>
    rw [List.flatMap_nil, fragmentLines, writtenAt]
    rfl
  | cons member members ih =>
    rw [List.flatMap_cons, fragmentLines_append, Code.writtenAt_append, String.toList_append,
      List.append_assoc]
    cases member with
    | comment lines =>
      rw [Member.fragments, codeWords_fragments_doc]
      exact ih h
    | property p =>
      have hp := h p List.mem_cons_self
      rw [Member.fragments, fragmentLines_append, Code.writtenAt_append, String.toList_append,
        List.append_assoc, codeWords_docFragments,
        codeWords_fragments_line hp.oneLine (words_property_ne p (by decide)), outlineFrom,
        if_neg (words_property_ne p (by decide)),
        decide_eq_true (words_property_ne p (by decide)), List.nil_append]
      have hrest : ∀ q ∈ members.filterMap Member.property?, q.Legible :=
        fun q hq => h q (List.mem_cons_of_mem p hq)
      exact ih hrest

theorem reads_interface {i : Interface} (h : (Item.interface i).Legible) :
    Reads i.fragments [.interface i.name] := by
  rw [Item.Legible] at h
  obtain ⟨hname, hbase, hproperties⟩ := h
  have hheader := oneLine_header hname hbase
  obtain ⟨extending, hwords⟩ := exists_words_header hname
  refine (reads_docFragments i.doc).append fun depth rest => ?_
  split
  · -- the interface ends with its header
    have hclosed : words (i.header ++ " \x7d").toList =
        "export" :: "interface" :: i.name :: (extending ++ ["\x7b"] ++ ["\x7d"]) := by
      rw [String.toList_append]
      show words (i.header.toList ++ ' ' :: "\x7d".toList) = _
      rw [words_append, hwords]
      rfl
    rw [codeWords_fragments_line (hheader.append (oneLine_of_plain (by decide)))
      (by rw [hclosed]; simp), hclosed, outlineFrom, opensBody_interface]
    rfl
  · rw [codeWords_fragments_block hheader (by rw [hwords]; simp), hwords, outlineFrom,
      opensBody_interface]
    show _ :: outlineFrom true _ = _
    rw [outlineFrom_members hproperties, codeWords_close]
    rfl

/-! ## Documents -/

theorem words_namespace {keyword name : String} {first : String}
    (hkeyword : keyword = first ++ " namespace") (hfirst : isIdentifier first = true)
    (hname : isIdentifier name = true) :
    words (keyword ++ " " ++ name ++ " \x7b").toList = [first, "namespace", name, "\x7b"] := by
  have hchars : (keyword ++ " " ++ name ++ " \x7b").toList = first.toList ++ ' ' ::
      ("namespace".toList ++ ' ' :: (name.toList ++ ' ' :: "\x7b".toList)) := by
    simp [hkeyword]
  rw [hchars,
    words_name_append (ne_empty_of_isIdentifier hfirst) (not_space_of_isIdentifier hfirst),
    words_name_append (by decide) (by decide),
    words_name_append (ne_empty_of_isIdentifier hname) (not_space_of_isIdentifier hname)]
  rfl

theorem reads_namespace {keyword name : String} {body : List Fragment} {marks : List Mark}
    (hkeyword : keyword ∈ ["declare namespace", "export namespace"])
    (hname : isIdentifier name = true) (hbody : Reads body marks) :
    Reads [.block (keyword ++ " " ++ name ++ " \x7b") body (some "\x7d")]
      (.opens keyword name :: marks ++ [.closes]) := by
  obtain ⟨first, hkeyword, hfirst⟩ :
      ∃ first, keyword = first ++ " namespace" ∧ isIdentifier first = true := by
    rcases List.mem_cons.mp hkeyword with rfl | hkeyword
    · exact ⟨"declare", by decide, by decide⟩
    · rw [List.mem_singleton.mp hkeyword]
      exact ⟨"export", by decide, by decide⟩
  have hwords := words_namespace hkeyword hfirst hname
  have hline : OneLine (keyword ++ " " ++ name ++ " \x7b") := by
    rw [hkeyword]
    exact ((((oneLine_of_isIdentifier hfirst).append (oneLine_of_plain (by decide))).append
      (oneLine_of_plain (by decide))).append (oneLine_of_isIdentifier hname)).append
      (oneLine_of_plain (by decide))
  intro depth rest
  have hopen : opensBody [first, "namespace", name, "\x7b"] = false := by
    unfold opensBody
    split
    · rename_i heq
      simp at heq
    · rfl
  rw [codeWords_fragments_block hline (by rw [hwords]; simp), hwords, outlineFrom, hopen, hbody,
    codeWords_close, outlineFrom, Mark.ofLine, hkeyword]
  simp [Mark.ofLine, opensBody]

mutual

theorem reads_item (item : Item) (h : item.Legible) : Reads item.fragments item.marks := by
  match item with
  | .blank =>
    rw [Item.fragments, Item.marks]
    exact fun depth rest => congrArg _ (codeWords_fragments_blank depth rest)
  | .comment lines =>
    rw [Item.fragments, Item.marks]
    exact fun depth rest => congrArg _ (codeWords_fragments_doc lines depth rest)
  | .alias a =>
    rw [Item.fragments, Item.marks]
    exact reads_alias h
  | .interface i =>
    rw [Item.fragments, Item.marks]
    exact reads_interface h
  | .namespace keyword name body =>
    rw [Item.Legible] at h
    rw [Item.fragments, Item.marks]
    exact reads_namespace h.1 h.2.1 (reads_document body h.2.2)

theorem reads_document (document : Document) (h : LegibleItems document) :
    Reads (documentFragments document) (marksOf document) := by
  match document with
  | [] =>
    rw [documentFragments, marksOf]
    exact reads_nil
  | item :: items =>
    rw [LegibleItems] at h
    rw [documentFragments, marksOf]
    exact (reads_item item h.1).append (reads_document items h.2)

end

/-- **What is written reads back.** -/
theorem outline_text {document : Document} (h : LegibleItems document) :
    outline document.text = marksOf document := by
  have hreads := reads_document document h 0 []
  have hnothing : outlineFrom false (codeWords []) = [] := rfl
  rw [List.append_nil, hnothing, List.append_nil] at hreads
  rw [← hreads, outline, Document.text, Document.writeTo, Code.Builder.applyAll_eq]
  show outlineFrom false (codeWords ("" ++ _).toList) = _
  rw [String.empty_append]

example : outline ("export namespace a \x7b\n  /** b */\n  export interface c \x7b\n" ++
      "    d: e;\n  \x7d\n\n\x7d\n") =
    [.opens "export namespace" "a", .interface "c", .blank, .closes] := by decide

end Ambient.TypeScript
