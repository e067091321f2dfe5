import Ambient.Proofs.Scoping.Meant
import Ambient.Proofs.TypeScript.Names

/-!
# Names that can be written down

Names stand in a document where something is declared, and in references. Tables lend
theirs escaped, the namespaces of groups and the types of the platform have fixed ones,
and a scope lends its key as it is: of all names only the key of a scope may be a word
that TypeScript does not take for a name.
-/

namespace Ambient

open TypeScript (Document Item isIdentifier isReserved typeName writtenIn)

namespace TypeScript

/-! ## The names in a document -/

mutual

/-- The names that an item declares, itself and inside it. -/
def Item.declaredNames : Item → List String
  | .blank | .comment _ => []
  | .alias a => [a.name]
  | .interface i => [i.name]
  | .namespace _ name body => name :: declaredNames body

/-- The names that a document declares, at any depth. -/
def declaredNames : Document → List String
  | [] => []
  | item :: items => item.declaredNames ++ declaredNames items

end

/-- The names written in a document: what is declared, and the segments of references. -/
def usedNames (document : Document) : List String :=
  declaredNames document ++ (writtenIn [] document).flatMap (·.2.segments)

theorem gathers_declaredNames : Gathers declaredNames where
  append first second := by
    induction first with
    | nil => rfl
    | cons item first ih =>
      rw [List.cons_append, declaredNames, ih, declaredNames, List.append_assoc]
  blank := rfl
  comment _ := rfl

/-! ## Documents that stop early -/

theorem Cut.declaredNames_subset {cut whole : Document} (h : Cut cut whole) :
    declaredNames cut ⊆ declaredNames whole := by
  induction h with
  | stop whole => exact List.nil_subset _
  | item item _ ih =>
    rw [declaredNames, declaredNames]
    exact List.append_subset.mpr
      ⟨List.subset_append_left _ _, List.Subset.trans ih (List.subset_append_right _ _)⟩
  | inside keyword name rest _ ih =>
    rw [declaredNames, declaredNames, declaredNames, List.append_nil]
    exact List.subset_append_of_subset_left _ (List.cons_subset_cons name ih)

theorem Cut.writtenIn_subset {cut whole : Document} (h : Cut cut whole) (place : List String) :
    writtenIn place cut ⊆ writtenIn place whole := by
  induction h generalizing place with
  | stop whole => exact List.nil_subset _
  | item item _ ih =>
    rw [writtenIn, writtenIn]
    exact List.append_subset.mpr
      ⟨List.subset_append_left _ _, List.Subset.trans (ih place) (List.subset_append_right _ _)⟩
  | inside keyword name rest _ ih =>
    rw [writtenIn, writtenIn, writtenIn, List.append_nil]
    exact List.subset_append_of_subset_left _ (ih (place ++ [name]))

/-- Nothing is named in a document that was stopped but what is named in the whole of it. -/
theorem Cut.usedNames_subset {cut whole : Document} (h : Cut cut whole) :
    usedNames cut ⊆ usedNames whole := by
  intro name hname
  rcases List.mem_append.mp hname with hname | hname
  · exact List.mem_append_left _ (h.declaredNames_subset hname)
  · obtain ⟨written, hwritten, hsegment⟩ := List.mem_flatMap.mp hname
    exact List.mem_append_right _
      (List.mem_flatMap.mpr ⟨written, h.writtenIn_subset [] hwritten, hsegment⟩)

end TypeScript

open TypeScript (declaredNames gathers_declaredNames usedNames)

/-! ## The names in a complete document -/

section Document

variable {r : Repository} {mode : RenderMode} {tables : List Table} {site : Site} {name : String}

theorem declaredNames_kindNamespace (kind : NamespaceKind) :
    declaredNames [r.kindNamespace site tables kind] =
      site.group.namespaceName kind :: tables.map fun table => typeName table.name := by
  have hitem : ∀ item, declaredNames [item] = item.declaredNames :=
    fun item => List.append_nil item.declaredNames
  have hdeclaration : ∀ table,
      (r.declaration site kind table).declaredNames = [typeName table.name] := by
    intro table
    cases kind <;> rfl
  rw [hitem, Repository.kindNamespace, Item.declaredNames, gathers_declaredNames.intersperse,
    List.flatMap_map]
  simp only [hitem, hdeclaration]
  rw [← List.map_eq_flatMap]

theorem declaredNames_groupDocument :
    declaredNames (r.groupDocument site tables) =
      site.group.enclosing?.toList ++
        [NamespaceKind.records, .elements, .fields].flatMap fun kind =>
          site.group.namespaceName kind :: tables.map fun table => typeName table.name := by
  have hpasses : declaredNames (r.passesDocument site tables) = _ :=
    Repository.gather_passesDocument gathers_declaredNames
  simp only [declaredNames_kindNamespace] at hpasses
  rw [Repository.gather_groupDocument gathers_declaredNames]
  obtain ⟨_ | key, index⟩ := site
  · exact hpasses
  · show declaredNames [Item.namespace _ key _] = _
    rw [declaredNames, declaredNames, List.append_nil, Item.declaredNames, hpasses]
    rfl

/-- The names that are declared because of a group. -/
theorem mem_declaredNames_groupDocument :
    name ∈ declaredNames (r.groupDocument site tables) ↔
      name ∈ site.group.enclosing? ∨
        ∃ kind, name = site.group.namespaceName kind ∨
          ∃ table ∈ tables, typeName table.name = name := by
  have hkinds : ∀ kind, kind ∈ [NamespaceKind.records, .elements, .fields] := by
    intro kind
    cases kind <;> decide
  rw [declaredNames_groupDocument, List.mem_append, Option.mem_toList, List.mem_flatMap]
  simp only [hkinds, true_and, List.mem_cons, List.mem_map]
  rfl

theorem origin_of_mem_declaredNames (h : name ∈ declaredNames (r.document mode tables)) :
    Origin mode tables name := by
  rw [Repository.gather_document gathers_declaredNames] at h
  obtain ⟨⟨group, members⟩, hpart, h⟩ := List.mem_flatMap.mp h
  rcases mem_declaredNames_groupDocument.mp h with h | ⟨kind, rfl | ⟨table, hmem, rfl⟩⟩
  · obtain ⟨table, ht, hgroup⟩ := rendered_iff.mpr ⟨members, hpart⟩
    exact .scope ht (hgroup.trans (Group.eq_scoped_of_enclosing? h))
  · exact .kind group kind
  · exact .table (mem_of_mem_members hpart hmem).1

theorem origin_of_mem_usedNames (hs : r.Selects tables)
    (h : name ∈ usedNames (r.document mode tables)) : Origin mode tables name := by
  rcases List.mem_append.mp h with h | h
  · exact origin_of_mem_declaredNames h
  · rw [writtenIn_document hs] at h
    obtain ⟨written, hwritten, hsegment⟩ := List.mem_flatMap.mp h
    obtain ⟨⟨group, kind, target⟩, hmeant, rfl⟩ := List.mem_map.mp hwritten
    exact origin_of_mem_segments (proper_of_mem_meant hs hmeant).2 hsegment

/-- The key of a scope is declared as it is. -/
theorem mem_declaredNames_of_rendered (h : Rendered mode tables (.scoped name)) :
    name ∈ declaredNames (r.document mode tables) := by
  obtain ⟨members, hpart⟩ := rendered_iff.mp h
  rw [Repository.gather_document gathers_declaredNames]
  exact List.mem_flatMap.mpr ⟨_, hpart, mem_declaredNames_groupDocument.mpr (.inl rfl)⟩

/-! ## Which names are usable -/

/-- The fixed names are usable ones. -/
theorem usable_namespaceName (group : Group) (kind : NamespaceKind) :
    isIdentifier (group.namespaceName kind) = true ∧
      isReserved (group.namespaceName kind) = false := by
  match group with
  | .global => cases kind <;> decide +kernel
  | .scoped key =>
    have hall : ∀ name ∈ ["record", "element", "fields"],
        isIdentifier name = true ∧ isReserved name = false := by decide +kernel
    cases kind with
    | records => exact hall "record" (by decide)
    | elements => exact hall "element" (by decide)
    | fields => exact hall "fields" (by decide)

theorem usable_platform {group : Group} (h : name ∈ group.platformTypes.names) :
    isIdentifier name = true ∧ isReserved name = false := by
  have hall : ∀ types ∈ [globalTypes, scopedTypes], ∀ name ∈ types.names,
      isIdentifier name = true ∧ isReserved name = false := by decide +kernel
  match group with
  | .global => exact hall globalTypes List.mem_cons_self name h
  | .scoped key => exact hall scopedTypes (List.mem_cons_of_mem _ List.mem_cons_self) name h

/-- Whatever gives rise to a name, it is an identifier, and only a scope lends a reserved word. -/
theorem Origin.usable (hs : r.Selects tables) (h : Origin mode tables name) :
    isIdentifier name = true ∧
      (isReserved name = true → Rendered mode tables (.scoped name)) := by
  have hfree : ∀ {name}, isIdentifier name = true ∧ isReserved name = false →
      isIdentifier name = true ∧ (isReserved name = true → Rendered mode tables (.scoped name)) :=
    fun h => ⟨h.1, fun hreserved => nomatch h.2.symm.trans hreserved⟩
  cases h with
  | @table table ht =>
    exact hfree ⟨TypeScript.isIdentifier_typeName (hs.named.table (hs.known ht)),
      TypeScript.isReserved_typeName table.name⟩
  | @scope table _ ht hgroup =>
    exact ⟨hs.named.scope (hs.known ht) (RenderMode.scopeKey?_of_groupOf hgroup),
      fun _ => ⟨table, ht, hgroup⟩⟩
  | kind group kind => exact hfree (usable_namespaceName group kind)
  | platform hname => exact hfree (usable_platform hname)

end Document

/-- **Every name that is written is an identifier, and no reserved word unless it is the key of a
scope**, however the rendering ends.

So the names of the complete output are all usable if and only if no reserved word is the key of a
scope that is rendered. -/
theorem usedNames_usable_iff {snapshot : Snapshot} (hvalid : snapshot.violation? = none)
    (mode : RenderMode) {tables : List Table}
    (htables : ∀ table ∈ tables, table ∈ snapshot.repository.allTables) :
    let r := snapshot.repository
    let complete := (render mode tables { repository := r } {}).document
    (∀ (cancels : Nat → Lookup → Bool) (failure? : Nat → Lookup → Option LookupFailure)
        (session : Session),
      ∀ name ∈
          usedNames (render mode tables { repository := r, cancels, failure? } session).document,
        isIdentifier name = true ∧
          (isReserved name = true → Rendered mode tables (.scoped name))) ∧
      ((∀ name ∈ usedNames complete, isIdentifier name = true ∧ isReserved name = false) ↔
        ∀ key, Rendered mode tables (.scoped key) → isReserved key = false) := by
  intro r complete
  have hs := Snapshot.selects hvalid htables
  have hcomplete : complete = r.document mode tables := document_render r mode tables
  have hwhole : ∀ name ∈ usedNames (r.document mode tables), isIdentifier name = true ∧
      (isReserved name = true → Rendered mode tables (.scoped name)) :=
    fun name hname => (origin_of_mem_usedNames hs hname).usable hs
  rw [hcomplete]
  refine ⟨fun cancels failure? session name hname => ?_, ?_, ?_⟩
  · exact hwhole name ((cut_render mode tables _ session).usedNames_subset hname)
  · intro h key hrendered
    exact (h key (List.mem_append_left _ (mem_declaredNames_of_rendered hrendered))).2
  · intro h name hname
    obtain ⟨hidentifier, hscope⟩ := hwhole name hname
    refine ⟨hidentifier, Bool.eq_false_iff.mpr fun hreserved => ?_⟩
    rw [h name (hscope hreserved)] at hreserved
    exact nomatch hreserved

/-- One table, of a scope that is called by a word of the language. -/
def Snapshot.wordScope : Snapshot where
  tables := .ofList [("x_item", { attributes := { scope := some "class" } })]

theorem usedNames_usable_iff_wordScope :
    let r := Snapshot.wordScope.repository
    let complete := (render .scoped r.allTables { repository := r } {}).document
    Snapshot.wordScope.violation? = none ∧
      (∀ (cancels : Nat → Lookup → Bool) (failure? : Nat → Lookup → Option LookupFailure)
          (session : Session),
        ∀ name ∈ usedNames
            (render .scoped r.allTables { repository := r, cancels, failure? } session).document,
          isIdentifier name = true ∧
            (isReserved name = true → Rendered .scoped r.allTables (.scoped name))) ∧
        ((∀ name ∈ usedNames complete, isIdentifier name = true ∧ isReserved name = false) ↔
          ∀ key, Rendered .scoped r.allTables (.scoped key) → isReserved key = false) := by
  intro r complete
  have hvalid : Snapshot.wordScope.violation? = none := by decide +kernel
  exact ⟨hvalid, usedNames_usable_iff hvalid .scoped fun _ ht => ht⟩

/-- The namespace of such a scope is called by the word. -/
theorem not_usable_wordScope :
    let r := Snapshot.wordScope.repository
    let complete := (render .scoped r.allTables { repository := r } {}).document
    Snapshot.wordScope.violation? = none ∧ "class" ∈ declaredNames complete ∧
      ¬ ∀ name ∈ usedNames complete, isIdentifier name = true ∧ isReserved name = false := by
  intro r complete
  have hrendered : Rendered .scoped r.allTables (.scoped "class") :=
    ⟨{ name := "x_item", scope := some "class" }, by decide +kernel, by decide +kernel⟩
  have hdeclared : "class" ∈ declaredNames complete := by
    rw [show complete = r.document .scoped r.allTables from document_render r .scoped _]
    exact mem_declaredNames_of_rendered hrendered
  refine ⟨by decide +kernel, hdeclared, fun h => ?_⟩
  obtain ⟨-, hreserved⟩ := h "class" (List.mem_append_left _ hdeclared)
  exact absurd hreserved (by decide)

end Ambient
