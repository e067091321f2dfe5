import Ambient.Proofs.Document.Gather

/-!
# What stands where in a document

A place in a document is the path of the namespaces around it, from the outside in.
Namespaces of one name at one place are one namespace, so what stands at a place is
gathered from all of them.

In the complete document the types at the place of a group's namespace are the
declarations of the group's tables, in table order, whatever the other groups are
called.
-/

namespace Ambient

namespace TypeScript

def Member.property? : Member → Option Property
  | .comment _ => none
  | .property p => some p

def Interface.properties (interface : Interface) : List Property :=
  interface.members.filterMap Member.property?

namespace Item

/-- A declaration of a type. -/
def isType : Item → Bool
  | .alias _ | .interface _ => true
  | _ => false

/-- What the item holds as a namespace called `name`. -/
def bodyOf (name : String) : Item → Document
  | .namespace _ called body => if called = name then body else []
  | _ => []

end Item

/-- The items that stand at a place. -/
def itemsAt : (place : List String) → Document → Document
  | [], document => document
  | name :: place, document => itemsAt place (document.flatMap (Item.bodyOf name))

/-- The types that are declared at a place. -/
def typesAt (place : List String) (document : Document) : List Item :=
  (itemsAt place document).filter Item.isType

theorem itemsAt_nil (place : List String) : itemsAt place [] = [] := by
  induction place with
  | nil => rfl
  | cons name place ih => exact ih

theorem itemsAt_append (place : List String) (first second : Document) :
    itemsAt place (first ++ second) = itemsAt place first ++ itemsAt place second := by
  induction place generalizing first second with
  | nil => rfl
  | cons name place ih => rw [itemsAt, List.flatMap_append, ih, itemsAt, itemsAt]

/-- Blanks and comments stand at places, but hold no further ones. -/
theorem gathers_itemsAt (name : String) (place : List String) :
    Gathers (itemsAt (name :: place)) where
  append := itemsAt_append (name :: place)
  blank := itemsAt_nil place
  comment _ := itemsAt_nil place

theorem gathers_typesAt (place : List String) : Gathers (typesAt place) where
  append first second := by
    rw [typesAt, itemsAt_append, List.filter_append, typesAt, typesAt]
  blank := by
    cases place with
    | nil => rfl
    | cons name place => rw [typesAt, (gathers_itemsAt name place).blank, List.filter_nil]
  comment lines := by
    cases place with
    | nil => rfl
    | cons name place => rw [typesAt, (gathers_itemsAt name place).comment, List.filter_nil]

theorem itemsAt_namespace (keyword name called : String) (place : List String) (body : Document) :
    itemsAt (name :: place) [.namespace keyword called body] =
      if called = name then itemsAt place body else [] := by
  rw [itemsAt, List.flatMap_singleton, Item.bodyOf]
  split
  · rfl
  · exact itemsAt_nil place

end TypeScript

open TypeScript (Document Item itemsAt typesAt)

/-- The place of one of a group's namespaces. -/
def Group.place (group : Group) (kind : NamespaceKind) : List String :=
  group.enclosing?.toList ++ [group.namespaceName kind]

theorem Group.namespaceName_injective (group : Group) {a b : NamespaceKind}
    (h : group.namespaceName a = group.namespaceName b) : a = b := by
  cases group <;> cases a <;> cases b <;> simp [namespaceName] at h ⊢

theorem Group.place_injective {kind : NamespaceKind} {a b : Group}
    (h : a.place kind = b.place kind) : a = b := by
  match a, b with
  | .global, .global => rfl
  | .global, .scoped _ =>
    have hlength : 1 = 2 := congrArg List.length h
    exact absurd hlength (by decide)
  | .scoped _, .global =>
    have hlength : 2 = 1 := congrArg List.length h
    exact absurd hlength (by decide)
  | .scoped _, .scoped _ => exact congrArg Group.scoped (List.cons.inj h).1

namespace Repository

variable {r : Repository} {site : Site} {tables : List Table} {kind : NamespaceKind}

theorem isType_declaration (table : Table) : (r.declaration site kind table).isType = true := by
  cases kind <;> rfl

theorem bodyOf_declaration (table : Table) (name : String) :
    (r.declaration site kind table).bodyOf name = [] := by
  cases kind <;> rfl

/-- The declarations of one of a group's namespaces. -/
def declarations (r : Repository) (site : Site) (kind : NamespaceKind) (tables : List Table) :
    List Item :=
  tables.map (r.declaration site kind)

theorem typesAt_declarations :
    typesAt [] ((r.declarations site kind tables).intersperse .blank) =
      r.declarations site kind tables := by
  have htype : ∀ table, typesAt [] [r.declaration site kind table] =
      [r.declaration site kind table] := by
    intro table
    rw [typesAt, itemsAt, List.filter_cons, if_pos (isType_declaration table), List.filter_nil]
  rw [(TypeScript.gathers_typesAt []).intersperse, declarations, List.flatMap_map, funext htype]
  exact List.map_eq_flatMap.symm

/-- Declarations hold no namespace. -/
theorem itemsAt_declarations (name : String) (place : List String) :
    itemsAt (name :: place) ((r.declarations site kind tables).intersperse .blank) = [] := by
  rw [(TypeScript.gathers_itemsAt name place).intersperse, declarations, List.flatMap_map]
  refine List.flatMap_eq_nil_iff.mpr fun table _ => ?_
  rw [itemsAt, List.flatMap_singleton, bodyOf_declaration, TypeScript.itemsAt_nil]

/-! ## A group's places -/

theorem itemsAt_kindNamespace (name : String) (place : List String) :
    itemsAt (name :: place) [r.kindNamespace site tables kind] =
      if site.group.namespaceName kind = name then
        itemsAt place ((r.declarations site kind tables).intersperse .blank)
      else [] :=
  TypeScript.itemsAt_namespace _ name _ place _

/-- Inside the three namespaces of a group: which one it is, its name tells. -/
theorem itemsAt_passes (name : String) (place : List String) :
    itemsAt (name :: place) (r.passesDocument site tables) =
      [NamespaceKind.records, .elements, .fields].flatMap fun kind =>
        if site.group.namespaceName kind = name then
          itemsAt place ((r.declarations site kind tables).intersperse .blank)
        else [] := by
  rw [gather_passesDocument (TypeScript.gathers_itemsAt name place)]
  simp only [itemsAt_kindNamespace]

/-- The namespaces of a group hold no further namespaces. -/
theorem itemsAt_passes_inside (name inner : String) (place : List String) :
    itemsAt (name :: inner :: place) (r.passesDocument site tables) = [] := by
  rw [itemsAt_passes]
  refine List.flatMap_eq_nil_iff.mpr fun kind _ => ?_
  rw [itemsAt_declarations, ite_self]

theorem typesAt_passes :
    typesAt [site.group.namespaceName kind] (r.passesDocument site tables) =
      r.declarations site kind tables := by
  have hkinds : ∀ other,
      typesAt [site.group.namespaceName kind] [r.kindNamespace site tables other] =
        if other = kind then r.declarations site kind tables else [] := by
    intro other
    rw [typesAt, itemsAt_kindNamespace]
    by_cases h : other = kind
    · rw [if_pos h, h, if_pos rfl]
      exact typesAt_declarations
    · rw [if_neg h, if_neg fun heq => h (site.group.namespaceName_injective heq)]
      rfl
  rw [gather_passesDocument (TypeScript.gathers_typesAt _)]
  simp only [hkinds]
  cases kind <;> simp

theorem typesAt_groupDocument (group : Group) :
    typesAt (group.place kind) (r.groupDocument site tables) =
      if site.group = group then r.declarations site kind tables else [] := by
  rw [gather_groupDocument (TypeScript.gathers_typesAt _)]
  obtain ⟨own, index⟩ := site
  match own, group with
  | .global, .global =>
    rw [if_pos rfl]
    exact typesAt_passes
  | .global, .scoped key =>
    rw [if_neg nofun, typesAt]
    show List.filter _ (itemsAt [key, _] (r.passesDocument _ tables)) = []
    rw [itemsAt_passes_inside]
    rfl
  | .scoped key, .global =>
    rw [if_neg nofun, typesAt]
    show List.filter _ (itemsAt [_] [Item.namespace _ key _]) = []
    rw [TypeScript.itemsAt_namespace]
    split <;> rfl
  | .scoped key, .scoped other =>
    rw [typesAt]
    show List.filter _ (itemsAt [other, _] [Item.namespace _ key _]) = _
    rw [TypeScript.itemsAt_namespace]
    by_cases h : key = other
    · subst h
      rw [if_pos rfl, if_pos rfl]
      exact typesAt_passes
    · rw [if_neg h, if_neg fun heq => h (Group.scoped.inj heq)]
      rfl

/-! ## All places -/

/-- What is made of one entry where all others are left out. -/
theorem flatMap_eq_of_mem {α β γ : Type} [DecidableEq α] {entries : List (α × β)}
    {f : α × β → List γ} {a : α} {b : β} (hnodup : (entries.map Prod.fst).Nodup)
    (h : (a, b) ∈ entries) :
    (entries.flatMap fun entry => if entry.1 = a then f entry else []) = f (a, b) := by
  induction entries with
  | nil => exact absurd h List.not_mem_nil
  | cons entry rest ih =>
    rw [List.map_cons, List.nodup_cons] at hnodup
    rw [List.flatMap_cons]
    rcases List.mem_cons.mp h with rfl | h
    · have hrest : (rest.flatMap fun entry => if entry.1 = a then f entry else []) = [] := by
        refine List.flatMap_eq_nil_iff.mpr fun entry hentry => if_neg fun heq => ?_
        exact hnodup.1 (List.mem_map.mpr ⟨entry, hentry, heq⟩)
      rw [if_pos rfl, hrest, List.append_nil]
    · have hne : entry.1 ≠ a := fun heq =>
        hnodup.1 (List.mem_map.mpr ⟨(a, b), h, heq.symm⟩)
      rw [if_neg hne, List.nil_append, ih hnodup.2 h]

theorem nodup_partition (mode : RenderMode) (tables : List Table) :
    ((partition mode tables).map Prod.fst).Nodup := by
  rw [map_fst_partition]
  exact nodup_sortGroups _

/-- **A group's namespaces hold the declarations of its tables and no others.** -/
theorem typesAt_document {mode : RenderMode} {group : Group} {members : List Table}
    (h : (group, members) ∈ partition mode tables) (kind : NamespaceKind) :
    typesAt (group.place kind) (r.document mode tables) =
      r.declarations ⟨group, .ofTables mode tables⟩ kind members := by
  rw [gather_document (TypeScript.gathers_typesAt _)]
  simp only [typesAt_groupDocument]
  exact flatMap_eq_of_mem (f := fun entry => r.declarations ⟨entry.1, _⟩ kind entry.2)
    (nodup_partition mode tables) h

end Repository

/-! ## The declaration of a table -/

/-- `item` is what `document` declares for `table` in one of the namespaces of its group: the two
have the same place, one among the types of the namespace, the other among the group's tables. -/
def Stands (mode : RenderMode) (tables : List Table) (document : Document) (kind : NamespaceKind)
    (table : Table) (item : Item) : Prop :=
  ∃ members, (mode.groupOf table, members) ∈ partition mode tables ∧
    (table, item) ∈ members.zip (typesAt ((mode.groupOf table).place kind) document)

theorem mem_zip_map_iff {α β : Type} {items : List α} {f : α → β} {a : α} {b : β} :
    (a, b) ∈ items.zip (items.map f) ↔ a ∈ items ∧ b = f a := by
  induction items with
  | nil => simp
  | cons item items ih =>
    rw [List.map_cons, List.zip_cons_cons, List.mem_cons, ih, List.mem_cons, Prod.mk.injEq]
    constructor
    · rintro (⟨rfl, rfl⟩ | ⟨hmem, hb⟩)
      · exact ⟨.inl rfl, rfl⟩
      · exact ⟨.inr hmem, hb⟩
    · rintro ⟨rfl | hmem, hb⟩
      · exact .inl ⟨rfl, hb⟩
      · exact .inr ⟨hmem, hb⟩

/-- What is declared for a table that its group holds. -/
theorem stands_iff_of_mem {r : Repository} {mode : RenderMode} {tables members : List Table}
    {table : Table} {kind : NamespaceKind} {item : Item}
    (hpart : (mode.groupOf table, members) ∈ partition mode tables) (hmem : table ∈ members) :
    Stands mode tables (r.document mode tables) kind table item ↔
      item = r.declaration ⟨mode.groupOf table, .ofTables mode tables⟩ kind table := by
  constructor
  · rintro ⟨members, hpart, hmem⟩
    rw [Repository.typesAt_document hpart, Repository.declarations, mem_zip_map_iff] at hmem
    exact hmem.2
  · rintro rfl
    refine ⟨members, hpart, ?_⟩
    rw [Repository.typesAt_document hpart, Repository.declarations, mem_zip_map_iff]
    exact ⟨hmem, rfl⟩

theorem stands_iff {r : Repository} {mode : RenderMode} {tables : List Table} {table : Table}
    {kind : NamespaceKind} {item : Item} (hrows : OneRowEach tables) (ht : table ∈ tables) :
    Stands mode tables (r.document mode tables) kind table item ↔
      item = r.declaration ⟨mode.groupOf table, .ofTables mode tables⟩ kind table := by
  obtain ⟨members, hpart, hmem⟩ := exists_members mode hrows ht
  exact stands_iff_of_mem hpart hmem

end Ambient
