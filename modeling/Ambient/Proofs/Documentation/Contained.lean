import Ambient.Proofs.Document.Statements
import Ambient.Proofs.Scoping.Meant
import Ambient.Proofs.TypeScript.Names

/-!
# The code in a complete document

`codeLines_document` tells the code lines of a complete document from its groups and
declarations. What they are made of are fixed texts, identifiers, and names of
properties, which are quoted where they are no identifiers: no line begins a comment, and
none ends inside a literal. So the code of the text is the code of these lines.
-/

namespace Ambient

open TypeScript

/-! ## The code lines of groups -/

/-- The lines around and inside the three namespaces of a group. -/
def Group.codeLines (group : Group) (body : NamespaceKind → List String) : List String :=
  let inside := [NamespaceKind.records, .elements, .fields].flatMap fun kind =>
    (group.namespaceKeyword ++ " " ++ group.namespaceName kind ++ " \x7b") :: body kind ++ ["\x7d"]
  match group.enclosing? with
  | none => inside
  | some name => ("declare namespace " ++ name ++ " \x7b") :: inside ++ ["\x7d"]

namespace TypeScript

theorem gathers_codeLines : Gathers codeLines where
  append first second := by
    induction first with
    | nil => rfl
    | cons item first ih => rw [List.cons_append, codeLines, ih, codeLines, List.append_assoc]
  blank := rfl
  comment _ := rfl

end TypeScript

section Lines

variable {r : Repository} {mode : RenderMode} {tables : List Table} {site : Site}

theorem codeLines_kindNamespace (kind : NamespaceKind) :
    codeLines [r.kindNamespace site tables kind] =
      (site.group.namespaceKeyword ++ " " ++ site.group.namespaceName kind ++ " \x7b") ::
        (tables.flatMap fun table => (r.declaration site kind table).code) ++ ["\x7d"] := by
  have hitem : ∀ item, codeLines [item] = item.code := fun item => List.append_nil item.code
  rw [hitem, Repository.kindNamespace, Item.code, gathers_codeLines.intersperse, List.flatMap_map]
  simp only [hitem]

theorem codeLines_groupDocument :
    codeLines (r.groupDocument site tables) =
      site.group.codeLines fun kind =>
        tables.flatMap fun table => (r.declaration site kind table).code := by
  have hpasses : codeLines (r.passesDocument site tables) = _ :=
    Repository.gather_passesDocument gathers_codeLines
  simp only [codeLines_kindNamespace] at hpasses
  rw [Repository.gather_groupDocument gathers_codeLines]
  obtain ⟨_ | key, index⟩ := site
  · exact hpasses
  · show codeLines [Item.namespace _ key _] = _
    rw [codeLines, codeLines, List.append_nil, Item.code, hpasses]
    rfl

theorem codeLines_document (r : Repository) (mode : RenderMode) (tables : List Table) :
    codeLines (r.document mode tables) =
      (partition mode tables).flatMap fun entry =>
        entry.1.codeLines fun kind => entry.2.flatMap fun table =>
          (r.declaration ⟨entry.1, .ofTables mode tables⟩ kind table).code := by
  rw [Repository.gather_document gathers_codeLines]
  simp only [codeLines_groupDocument]

end Lines

/-! ## Plain text -/

namespace TypeScript

/-- Neither a comment nor a literal begins anywhere in the text. -/
def PlainText (text : String) : Prop := text.toList.all isPlain = true

instance (text : String) : Decidable (PlainText text) :=
  inferInstanceAs (Decidable (text.toList.all isPlain = true))

theorem PlainText.append {first second : String} (h : PlainText first) (h' : PlainText second) :
    PlainText (first ++ second) := by
  unfold PlainText at h h' ⊢
  rw [String.toList_append, List.all_append, h, h']
  rfl

theorem PlainText.selfContained {text : String} (h : PlainText text) :
    SelfContained text.toList :=
  selfContained_of_plain h

theorem isPlain_of_isIdentifierRest {c : Char} (h : isIdentifierRest c = true) :
    isPlain c = true :=
  isPlain_of_class (by decide) h

theorem plainText_of_isIdentifier {name : String} (h : isIdentifier name = true) :
    PlainText name := by
  refine List.all_eq_true.mpr fun c hc => isPlain_of_isIdentifierRest ?_
  exact List.all_eq_true.mp (all_of_isIdentifier h) c hc

theorem plainText_typeName {name : String} (h : PlainText name) : PlainText (typeName name) := by
  unfold typeName
  split
  · exact PlainText.append (by decide) h
  · exact h

theorem selfContained_propertyName (name : String) :
    SelfContained (propertyName name).toList := by
  unfold propertyName
  split
  · rename_i h
    exact (plainText_of_isIdentifier h).selfContained
  · exact selfContained_quoted name

theorem composes_plainText : Composes PlainText where
  append := PlainText.append
  punctuation := by decide

theorem selfContained_alias {a : Alias} (hname : PlainText a.name)
    (hvalue : ∀ reference ∈ a.value.references, PlainText reference.text) :
    SelfContained a.statement.toList := by
  have hopening : PlainText ("export type " ++ a.name ++ " = ") :=
    (PlainText.append (by decide) hname).append (by decide)
  exact ((hopening.append (composes_plainText.type hvalue)).append (by decide)).selfContained

theorem selfContained_header {i : Interface} (hname : PlainText i.name)
    (hbase : ∀ base ∈ i.base, PlainText base.text) : SelfContained i.header.toList := by
  have hopening : PlainText ("export interface " ++ i.name) := PlainText.append (by decide) hname
  unfold Interface.header
  split
  · rename_i base h
    exact (((hopening.append (by decide)).append (hbase base h)).append (by decide)).selfContained
  · exact (hopening.append (by decide)).selfContained

theorem selfContained_property {p : Property} (hname : SelfContained p.name.toList)
    (htype : PlainText p.type.text) : SelfContained p.statement.toList := by
  have hmarker : PlainText (if p.redeclared then "new " else "") := by
    cases p.redeclared <;> decide
  have htail : PlainText (": " ++ p.type.text ++ ";") :=
    (PlainText.append (by decide) htype).append (by decide)
  have hsplit : p.statement.toList = (if p.redeclared then "new " else "").toList ++
      p.name.toList ++ (": " ++ p.type.text ++ ";").toList := by
    simp [Property.statement]
  rw [hsplit]
  exact (hmarker.selfContained.append hname).append htail.selfContained

end TypeScript

/-! ## Every code line is self-contained -/

theorem plainText_namespaceName (group : Group) (kind : NamespaceKind) :
    PlainText (group.namespaceName kind) := by
  match group with
  | .global => cases kind <;> decide
  | .scoped key =>
    cases kind with
    | records => exact (by decide : PlainText "record")
    | elements => exact (by decide : PlainText "element")
    | fields => exact (by decide : PlainText "fields")

theorem plainText_platform {group : Group} {name : String}
    (h : name ∈ group.platformTypes.names) : PlainText name := by
  match group with
  | .global =>
    have hall : ∀ name ∈ globalTypes.names, PlainText name := by decide +kernel
    exact hall name h
  | .scoped key =>
    have hall : ∀ name ∈ scopedTypes.names, PlainText name := by decide +kernel
    exact hall name h

/-- Lines in braces, the closing one on its own. -/
theorem selfContained_braced {opening : String} {body : List String}
    (hopening : SelfContained opening.toList) (hbody : ∀ line ∈ body, SelfContained line.toList) :
    ∀ line ∈ opening :: body ++ ["\x7d"], SelfContained line.toList := by
  intro line hline
  rcases List.mem_append.mp hline with hline | hline
  · rcases List.mem_cons.mp hline with rfl | hline
    · exact hopening
    · exact hbody line hline
  · rw [List.mem_singleton.mp hline]
    exact selfContained_close

section Selected

variable {r : Repository} {mode : RenderMode} {tables : List Table} {table : Table}

theorem plainText_name (hs : r.Selects tables) (ht : table ∈ tables) :
    PlainText (typeName table.name) :=
  plainText_typeName (plainText_of_isIdentifier (hs.named.table (hs.known ht)))

/-- A scope is called by an identifier. -/
theorem plainText_enclosing (hs : r.Selects tables) (ht : table ∈ tables) :
    ∀ name ∈ (mode.groupOf table).enclosing?, PlainText name := by
  intro name hname
  have hkey := RenderMode.scopeKey?_of_groupOf (Group.eq_scoped_of_enclosing? hname)
  exact plainText_of_isIdentifier (hs.named.scope (hs.known ht) hkey)

theorem plainText_target (hs : r.Selects tables) {source : Group} {within : NamespaceKind}
    {target : Target} (h : target.Proper tables) :
    PlainText (target.reference mode source within).text := by
  refine composes_plainText.reference fun segment hsegment => ?_
  cases origin_of_mem_segments h hsegment with
  | table ht => exact plainText_name hs ht
  | @scope other _ ht hgroup =>
    have hname : segment ∈ (mode.groupOf other).enclosing? := by rw [hgroup]; rfl
    exact plainText_enclosing hs ht segment hname
  | kind group kind => exact plainText_namespaceName group kind
  | platform hname => exact plainText_platform hname

/-- The references of a declaration hold nothing but names and dots. -/
theorem plainText_of_written (hs : r.Selects tables) (ht : table ∈ tables) {kind : NamespaceKind}
    {reference : Reference}
    (h : ([], reference) ∈
      (r.declaration ⟨mode.groupOf table, .ofTables mode tables⟩ kind table).written []) :
    PlainText reference.text := by
  rw [written_declaration mode hs ht, List.mem_map] at h
  obtain ⟨target, htarget, heq⟩ := h
  rw [← (Prod.mk.inj heq).2]
  exact plainText_target hs (proper_of_mem_targets hs ht htarget)

theorem selfContained_declaration (hs : r.Selects tables) (ht : table ∈ tables)
    (kind : NamespaceKind) {line : String}
    (h : line ∈ (r.declaration ⟨mode.groupOf table, .ofTables mode tables⟩ kind table).code) :
    SelfContained line.toList := by
  -- every text of a type in the declaration is that of a reference written in it
  let site : Site := ⟨mode.groupOf table, .ofTables mode tables⟩
  have hname := plainText_name hs ht
  have hwritten : ∀ reference : Reference,
      ([], reference) ∈ (r.declaration site kind table).written [] → PlainText reference.text :=
    fun reference => plainText_of_written hs ht
  cases kind with
  | records =>
    rw [List.mem_singleton.mp h]
    exact selfContained_alias hname fun reference href =>
      hwritten reference (List.mem_map_of_mem href)
  | elements =>
    rw [List.mem_singleton.mp h]
    exact selfContained_alias hname fun reference href =>
      hwritten reference (List.mem_map_of_mem href)
  | fields =>
    let interface := r.fieldsInterface site table
    have hreference : ∀ reference ∈ interface.base.toList ++ interface.properties.map (·.type),
        PlainText reference.text :=
      fun reference href => hwritten reference (List.mem_map_of_mem href)
    refine selfContained_braced ?_ ?_ line h
    · refine selfContained_header hname fun base hbase => hreference base ?_
      exact List.mem_append_left _ (Option.mem_toList.mpr hbase)
    · intro line hline
      obtain ⟨p, hp, rfl⟩ := List.mem_map.mp hline
      -- the name of a property may be a literal, so it is contained but need not be plain
      obtain ⟨element, -, -, hpname, -⟩ := written_of_mem_properties hp
      have htype := hreference p.type (List.mem_append_right _ (List.mem_map_of_mem hp))
      exact selfContained_property (hpname ▸ selfContained_propertyName element.name) htype

theorem selfContained_group {group : Group} {body : NamespaceKind → List String}
    (hname : ∀ name ∈ group.enclosing?, PlainText name)
    (hbody : ∀ kind, ∀ line ∈ body kind, SelfContained line.toList) {line : String}
    (h : line ∈ group.codeLines body) : SelfContained line.toList := by
  have hkeyword : PlainText group.namespaceKeyword := by
    match group with
    | .global => exact (by decide : PlainText "declare namespace")
    | .scoped key => exact (by decide : PlainText "export namespace")
  have hinside : ∀ line ∈ [NamespaceKind.records, .elements, .fields].flatMap fun kind =>
      (group.namespaceKeyword ++ " " ++ group.namespaceName kind ++ " \x7b") ::
        body kind ++ ["\x7d"], SelfContained line.toList := by
    intro line hline
    obtain ⟨kind, -, hline⟩ := List.mem_flatMap.mp hline
    have hopening : PlainText
        (group.namespaceKeyword ++ " " ++ group.namespaceName kind ++ " \x7b") :=
      ((hkeyword.append (by decide)).append (plainText_namespaceName group kind)).append (by decide)
    exact selfContained_braced hopening.selfContained (hbody kind) line hline
  unfold Group.codeLines at h
  split at h
  · exact hinside line h
  · rename_i name hgroup
    have hopening : PlainText ("declare namespace " ++ name ++ " \x7b") :=
      (PlainText.append (by decide) (hname name hgroup)).append (by decide)
    exact selfContained_braced hopening.selfContained hinside line h

theorem selfContained_document (hs : r.Selects tables) {line : String}
    (h : line ∈ codeLines (r.document mode tables)) : SelfContained line.toList := by
  rw [codeLines_document] at h
  obtain ⟨⟨group, members⟩, hpart, h⟩ := List.mem_flatMap.mp h
  have hgroup : ∃ table ∈ tables, mode.groupOf table = group :=
    List.mem_map.mp (mem_partition.mp hpart).1
  refine selfContained_group ?_ ?_ h
  · obtain ⟨table, ht, rfl⟩ := hgroup
    exact plainText_enclosing hs ht
  · intro kind line hline
    obtain ⟨table, hmem, hline⟩ := List.mem_flatMap.mp hline
    obtain ⟨ht, rfl⟩ := mem_of_mem_members hpart hmem
    exact selfContained_declaration hs ht kind hline

/-- **The code of a complete document's text** is that of its code lines. -/
theorem codeOf_document (hs : r.Selects tables) (mode : RenderMode) :
    codeOf (r.document mode tables).text =
      (codeLines (r.document mode tables)).flatMap codeOf :=
  codeOf_text fun _ hline => selfContained_document hs hline

end Selected

end Ambient
