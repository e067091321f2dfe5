import Ambient.Proofs.Scoping.Meant
import Mathlib.Data.List.Forall2

/-!
# What references bind to

A reference leaves out what the place where it is written and its target have in
common, and begins with the first name in which the two differ. It reaches the target
where no namespace nearer than the one meant has a member of that name. The names of
tables and scopes are not checked for this, so a reference may be shadowed, and
`Clear` says exactly when one is not.
-/

namespace Ambient

open TypeScript (Document Item Reference RefersTo home? namesAt resolve typeName typesAt)

section Tables

variable (mode : RenderMode) (tables : List Table)

/-- Written at `place`, the reference reaches its target: it resolves to the one declaration that
is meant, or, for a type of the platform, to no declaration at all. -/
def Reaches (document : Document) (place : List String) (reference : Reference) : Target → Prop
  | .declared kind table => ∃ item, Stands mode tables document kind table item ∧
      resolve document place reference = [item]
  | .platform name => reference = .named name ∧ home? document place name = none

/-- Something called `name` stands in a namespace around namespace `within` of the group `source`,
that one included: a type of the group, a namespace of the group's scope, or, where the scope is
called like one of the global namespaces, what stands in the other one of that name. -/
def Shadowed (source : Group) (within : NamespaceKind) (name : String) : Prop :=
  match source with
  | .global => DeclaresType mode tables .global name ∨
      Rendered mode tables (.scoped (Group.global.namespaceName within)) ∧
        (Group.scoped (Group.global.namespaceName within)).IsNamespace name
  | .scoped key => DeclaresType mode tables (.scoped key) name ∨
      (Group.scoped key).IsNamespace name ∨
      Group.global.IsNamespace key ∧ DeclaresType mode tables .global name

/-- No other table of its group is declared under the name of `table`. -/
def Distinct (table : Table) : Prop :=
  ∀ other ∈ tables, mode.groupOf other = mode.groupOf table →
    typeName other.name = typeName table.name → other = table

/-- The names of tables and scopes leave the way from the place to the target clear. -/
def Clear (source : Group) (within : NamespaceKind) : Target → Prop
  | .declared kind table => Distinct mode tables table ∧
      if mode.groupOf table = source then
        within = kind ∨ ¬ DeclaresType mode tables source (source.namespaceName kind)
      else
        ¬ Shadowed mode tables source within
          ((mode.groupOf table).enclosing?.getD ((mode.groupOf table).namespaceName kind))
  | .platform name =>
      ¬ Shadowed mode tables source within name ∧ ¬ Rendered mode tables (.scoped name)

instance (source : Group) (within : NamespaceKind) (name : String) :
    Decidable (Shadowed mode tables source within name) :=
  match source with
  | .global => inferInstanceAs (Decidable (_ ∨ _ ∧ _))
  | .scoped _ => inferInstanceAs (Decidable (_ ∨ _ ∨ _ ∧ _))

instance (table : Table) : Decidable (Distinct mode tables table) :=
  inferInstanceAs (Decidable (∀ other ∈ tables, _))

instance (source : Group) (within : NamespaceKind) (target : Target) :
    Decidable (Clear mode tables source within target) :=
  match target with
  | .declared _ table =>
    inferInstanceAs (Decidable (_ ∧ if mode.groupOf table = source then _ ∨ ¬ _ else ¬ _))
  | .platform _ => inferInstanceAs (Decidable (_ ∧ _))

end Tables

section Home

variable {r : Repository} {mode : RenderMode} {tables : List Table} {source : Group}
  {within kind : NamespaceKind} {table : Table} {name : String}

/-- What stands in a namespace of the global group is just what may be in the way there. -/
theorem mem_namesAt_global (hrows : OneRowEach tables) :
    name ∈ namesAt [Group.global.namespaceName within] (r.document mode tables) ↔
      Shadowed mode tables .global within name := by
  rw [mem_namesAt_outer hrows]
  simp only [Shadowed, Group.IsNamespace, exists_apply_eq_apply, true_and]

/-- In a namespace of a scope stand the types of the scope. -/
theorem mem_namesAt_scoped (hrows : OneRowEach tables) {key : String} :
    name ∈ namesAt [key, (Group.scoped key).namespaceName within] (r.document mode tables) ↔
      DeclaresType mode tables (.scoped key) name := by
  rw [mem_namesAt_inner hrows]
  exact ⟨fun h => h.2, fun h => ⟨⟨within, rfl⟩, h⟩⟩

/-- A name that is not shadowed is looked up at the top level, one that is is found on the way. -/
theorem home?_place (hrows : OneRowEach tables) (hsource : Rendered mode tables source)
    (within : NamespaceKind) (name : String) :
    (¬ Shadowed mode tables source within name ∧
      home? (r.document mode tables) (source.place within) name =
        if name ∈ namesAt [] (r.document mode tables) then some [] else none) ∨
    (Shadowed mode tables source within name ∧ ∃ outer inner,
      home? (r.document mode tables) (source.place within) name = some (outer :: inner)) := by
  match source with
  | .global =>
    have hhome := TypeScript.home?_outer (r.document mode tables)
      (Group.global.namespaceName within) name
    by_cases h : Shadowed mode tables .global within name
    · rw [if_pos ((mem_namesAt_global hrows).mpr h)] at hhome
      exact .inr ⟨h, _, _, hhome⟩
    · rw [if_neg fun hmem => h ((mem_namesAt_global hrows).mp hmem)] at hhome
      exact .inl ⟨h, hhome⟩
  | .scoped key =>
    have houter : name ∈ namesAt [key] (r.document mode tables) ↔
        (Group.global.IsNamespace key ∧ DeclaresType mode tables .global name) ∨
          (Group.scoped key).IsNamespace name := by
      rw [mem_namesAt_outer hrows]
      simp only [hsource, true_and]
    have hhome := TypeScript.home?_inner (r.document mode tables) key
      ((Group.scoped key).namespaceName within) name
    rw [TypeScript.home?_outer] at hhome
    -- the types of the scope are nearest, the namespaces of the scope come next
    by_cases htype : DeclaresType mode tables (.scoped key) name
    · rw [if_pos ((mem_namesAt_scoped hrows).mpr htype)] at hhome
      exact .inr ⟨.inl htype, _, _, hhome⟩
    · rw [if_neg fun hmem => htype ((mem_namesAt_scoped hrows).mp hmem)] at hhome
      by_cases hmem : name ∈ namesAt [key] (r.document mode tables)
      · rw [if_pos hmem] at hhome
        exact .inr ⟨.inr (houter.mp hmem).symm, _, _, hhome⟩
      · rw [if_neg hmem] at hhome
        refine .inl ⟨?_, hhome⟩
        intro h
        rcases h with h | h
        · exact htype h
        · exact hmem (houter.mpr h.symm)

/-! ## From a home to a declaration -/

theorem eq_singleton_of_nodup {α : Type} {items : List α} {a : α} (hnodup : items.Nodup)
    (ha : a ∈ items) (hall : ∀ b ∈ items, b = a) : items = [a] := by
  cases items with
  | nil => exact absurd ha List.not_mem_nil
  | cons first rest =>
    have hfirst := hall first List.mem_cons_self
    cases rest with
    | nil => rw [hfirst]
    | cons second rest =>
      have hsecond := hall second (List.mem_cons_of_mem _ List.mem_cons_self)
      rw [hfirst, hsecond] at hnodup
      exact absurd List.mem_cons_self (List.nodup_cons.mp hnodup).1

/-- Of the tables of a group that are declared under the name of `table` it is the only one just if
the name is its own. -/
theorem filter_members_eq_iff (hrows : OneRowEach tables) {members : List Table}
    (hpart : (mode.groupOf table, members) ∈ partition mode tables) (hmem : table ∈ members) :
    members.filter (fun other => typeName other.name == typeName table.name) = [table] ↔
      Distinct mode tables table := by
  have hown : table ∈ members.filter fun other => typeName other.name == typeName table.name :=
    List.mem_filter.mpr ⟨hmem, beq_self_eq_true _⟩
  refine ⟨?_, ?_⟩
  · intro h other ht hgroup hname
    have hother := (mem_members_iff hrows hpart).mpr ⟨ht, hgroup⟩
    have hnamed : other ∈ members.filter fun other => typeName other.name == typeName table.name :=
      List.mem_filter.mpr ⟨hother, beq_iff_eq.mpr hname⟩
    rw [h] at hnamed
    exact List.mem_singleton.mp hnamed
  · intro h
    refine eq_singleton_of_nodup ((nodup_members hpart).filter _) hown fun other hother => ?_
    obtain ⟨hother, hname⟩ := List.mem_filter.mp hother
    obtain ⟨ht, hgroup⟩ := mem_of_mem_members hpart hother
    exact h other ht hgroup (beq_iff_eq.mp hname)

theorem resolve_of_home {document : Document} {place path home : List String} {last : String}
    (h : (path ++ [last]).head?.bind (home? document place) = some home) :
    resolve document place ⟨path ++ [last]⟩ =
      (typesAt (home ++ path) document).filter (·.name? == some last) := by
  unfold resolve
  rw [h, List.dropLast_concat, List.getLast?_concat]

/-- Once the way down from a home leads to the namespace that is meant, only a name given twice can
be in the way. -/
theorem resolve_eq_singleton_iff (hs : r.Selects tables) (ht : table ∈ tables)
    {place path home : List String} {item : Item}
    (hhome : (path ++ [typeName table.name]).head?.bind (home? (r.document mode tables) place) =
      some home)
    (hpath : home ++ path = (mode.groupOf table).place kind) :
    resolve (r.document mode tables) place ⟨path ++ [typeName table.name]⟩ = [item] ↔
      Distinct mode tables table ∧
        item = r.declaration ⟨mode.groupOf table, .ofTables mode tables⟩ kind table := by
  obtain ⟨members, hpart, hmem⟩ := exists_members mode hs.rows ht
  let declare : Table → Item := r.declaration ⟨mode.groupOf table, .ofTables mode tables⟩ kind
  have hresolve : resolve (r.document mode tables) place ⟨path ++ [typeName table.name]⟩ =
      (members.filter fun other => typeName other.name == typeName table.name).map declare := by
    rw [resolve_of_home hhome, hpath, Repository.typesAt_document hpart, Repository.declarations,
      List.filter_map]
    congr 1
    refine List.filter_congr fun other _ => ?_
    rw [Function.comp_apply, Repository.name?_declaration]
    rfl
  rw [hresolve, ← filter_members_eq_iff hs.rows hpart hmem]
  constructor
  · intro h
    -- one declaration is one table, and `table` is one
    obtain ⟨only, honly, hitem⟩ := List.map_eq_singleton_iff.mp h
    have hown : table ∈ members.filter fun other => typeName other.name == typeName table.name :=
      List.mem_filter.mpr ⟨hmem, beq_self_eq_true _⟩
    rw [honly] at hown
    obtain rfl := List.mem_singleton.mp hown
    exact ⟨honly, hitem.symm⟩
  · rintro ⟨h, rfl⟩
    rw [h]
    rfl

/-! ## Clear ways -/

theorem rendered_groupOf (ht : table ∈ tables) : Rendered mode tables (mode.groupOf table) :=
  ⟨table, ht, rfl⟩

theorem declaresType_typeName (mode : RenderMode) (ht : table ∈ tables) :
    DeclaresType mode tables (mode.groupOf table) (typeName table.name) :=
  ⟨table, ht, rfl, rfl⟩

/-- In its own namespace a type is found at once. -/
theorem home?_own (kind : NamespaceKind) (hrows : OneRowEach tables) (ht : table ∈ tables) :
    home? (r.document mode tables) ((mode.groupOf table).place kind) (typeName table.name) =
      some ((mode.groupOf table).place kind) := by
  have htype := declaresType_typeName mode ht
  match hgroup : mode.groupOf table with
  | .global =>
    rw [hgroup] at htype
    have hhome := TypeScript.home?_outer (r.document mode tables)
      (Group.global.namespaceName kind) (typeName table.name)
    rw [if_pos ((mem_namesAt_outer hrows).mpr (.inl ⟨⟨kind, rfl⟩, htype⟩))] at hhome
    exact hhome
  | .scoped key =>
    rw [hgroup] at htype
    have hhome := TypeScript.home?_inner (r.document mode tables) key
      ((Group.scoped key).namespaceName kind) (typeName table.name)
    rw [if_pos ((mem_namesAt_scoped hrows).mpr htype)] at hhome
    exact hhome

/-- Another namespace of the own group is found beside the own one, unless a type of that name is
nearer. -/
theorem home?_beside (hrows : OneRowEach tables) (hsource : Rendered mode tables source)
    (within kind : NamespaceKind) :
    (DeclaresType mode tables source (source.namespaceName kind) ∧
      home? (r.document mode tables) (source.place within) (source.namespaceName kind) =
        some (source.place within)) ∨
    (¬ DeclaresType mode tables source (source.namespaceName kind) ∧
      home? (r.document mode tables) (source.place within) (source.namespaceName kind) =
        some source.enclosing?.toList) := by
  match source with
  | .global =>
    have hhome := TypeScript.home?_outer (r.document mode tables)
      (Group.global.namespaceName within) (Group.global.namespaceName kind)
    have hnames : Group.global.namespaceName kind ∈
        namesAt [Group.global.namespaceName within] (r.document mode tables) ↔
          DeclaresType mode tables .global (Group.global.namespaceName kind) := by
      rw [mem_namesAt_global hrows]
      -- no scope has a namespace that is called like one of the global group
      exact ⟨fun h => h.resolve_right fun h' => Group.not_isNamespace_global _ kind h'.2, .inl⟩
    by_cases h : DeclaresType mode tables .global (Group.global.namespaceName kind)
    · rw [if_pos (hnames.mpr h)] at hhome
      exact .inl ⟨h, hhome⟩
    · rw [if_neg fun hmem => h (hnames.mp hmem),
        if_pos (mem_namesAt_top.mpr (.inl ⟨hsource, kind, rfl⟩))] at hhome
      exact .inr ⟨h, hhome⟩
  | .scoped key =>
    have hhome := TypeScript.home?_inner (r.document mode tables) key
      ((Group.scoped key).namespaceName within) ((Group.scoped key).namespaceName kind)
    have houter : (Group.scoped key).namespaceName kind ∈ namesAt [key] (r.document mode tables) :=
      (mem_namesAt_outer hrows).mpr (.inr ⟨hsource, kind, rfl⟩)
    rw [TypeScript.home?_outer, if_pos houter] at hhome
    by_cases h : DeclaresType mode tables (.scoped key) ((Group.scoped key).namespaceName kind)
    · rw [if_pos ((mem_namesAt_scoped hrows).mpr h)] at hhome
      exact .inl ⟨h, hhome⟩
    · rw [if_neg fun hmem => h ((mem_namesAt_scoped hrows).mp hmem)] at hhome
      exact .inr ⟨h, hhome⟩

/-- The name of a namespace leads nowhere from inside another one. -/
theorem typesAt_beside (source : Group) (within kind : NamespaceKind) :
    typesAt (source.place within ++ [source.namespaceName kind]) (r.document mode tables) = [] := by
  match source with
  | .global => exact typesAt_below (Group.global.namespaceName within) [] .global kind
  | .scoped key => exact typesAt_deep key _ _ []

/-- The first name of a path from the top level. -/
theorem mem_namesAt_top_of_rendered {group : Group} (h : Rendered mode tables group)
    (kind : NamespaceKind) :
    group.enclosing?.getD (group.namespaceName kind) ∈ namesAt [] (r.document mode tables) := by
  match group with
  | .global => exact mem_namesAt_top.mpr (.inl ⟨h, kind, rfl⟩)
  | .scoped key => exact mem_namesAt_top.mpr (.inr h)

theorem head?_place (group : Group) (kind : NamespaceKind) (last : String) :
    (group.place kind ++ [last]).head? =
      some (group.enclosing?.getD (group.namespaceName kind)) := by
  cases group <;> rfl

/-! ## From a reference to its target -/

/-- **Where a reference leads.** Its first name is found in a namespace from which the way down goes
to the declaration that is meant, or else, where the way is not clear, to no type at all. -/
theorem exists_home (hrows : OneRowEach tables) (hsource : Rendered mode tables source)
    (ht : table ∈ tables) (within kind : NamespaceKind) :
    ∃ path home,
      (Target.declared kind table).reference mode source within =
        ⟨path ++ [typeName table.name]⟩ ∧
      (path ++ [typeName table.name]).head?.bind
        (home? (r.document mode tables) (source.place within)) = some home ∧
      ((home ++ path = (mode.groupOf table).place kind ∧
          (Clear mode tables source within (.declared kind table) ↔ Distinct mode tables table)) ∨
        (typesAt (home ++ path) (r.document mode tables) = [] ∧
          ¬ Clear mode tables source within (.declared kind table))) := by
  by_cases hgroup : mode.groupOf table = source
  · subst hgroup
    by_cases hkind : within = kind
    · subst hkind
      refine ⟨[], _, ?_, home?_own within hrows ht, .inl ⟨List.append_nil _, ?_⟩⟩
      · rw [Target.reference, if_pos rfl, if_pos rfl]
      · rw [Clear, if_pos rfl]
        exact and_iff_left (.inl rfl)
    · -- in another namespace of the group, a type there may be called like the one that is meant
      have hreference : (Target.declared kind table).reference mode (mode.groupOf table) within =
          ⟨[(mode.groupOf table).namespaceName kind] ++ [typeName table.name]⟩ := by
        rw [Target.reference, if_pos rfl, if_neg hkind]
      rcases home?_beside hrows hsource within kind with ⟨htype, hhome⟩ | ⟨htype, hhome⟩
      · refine ⟨_, _, hreference, hhome, .inr ⟨typesAt_beside _ within kind, fun h => ?_⟩⟩
        rw [Clear, if_pos rfl] at h
        exact h.2.elim hkind fun hnot => hnot htype
      · refine ⟨_, _, hreference, hhome, .inl ⟨rfl, ?_⟩⟩
        rw [Clear, if_pos rfl]
        exact and_iff_left (.inr htype)
  · have hreference : (Target.declared kind table).reference mode source within =
        ⟨(mode.groupOf table).place kind ++ [typeName table.name]⟩ := by
      rw [Target.reference, if_neg hgroup]
    have hhead : ((mode.groupOf table).place kind ++ [typeName table.name]).head?.bind
        (home? (r.document mode tables) (source.place within)) =
          home? (r.document mode tables) (source.place within)
            ((mode.groupOf table).enclosing?.getD ((mode.groupOf table).namespaceName kind)) := by
      rw [head?_place, Option.bind_some]
    rcases home?_place hrows hsource within
        ((mode.groupOf table).enclosing?.getD ((mode.groupOf table).namespaceName kind))
      with ⟨hclear, hhome⟩ | ⟨hshadowed, outer, inner, hhome⟩
    · -- at the top level there is a namespace of that name
      rw [if_pos (mem_namesAt_top_of_rendered (rendered_groupOf ht) kind)] at hhome
      refine ⟨_, _, hreference, hhead.trans hhome, .inl ⟨List.nil_append _, ?_⟩⟩
      rw [Clear, if_neg hgroup]
      exact and_iff_left hclear
    · refine ⟨_, _, hreference, hhead.trans hhome,
        .inr ⟨typesAt_below outer inner _ kind, fun h => ?_⟩⟩
      rw [Clear, if_neg hgroup] at h
      exact h.2 hshadowed

/-- **What a reference to a declaration means**: that declaration, where the way is clear, and
otherwise no one declaration. -/
theorem refersTo_declared_iff (hs : r.Selects tables) (hsource : Rendered mode tables source)
    (ht : table ∈ tables) {target : List String} {item : Item} :
    RefersTo (r.document mode tables) (source.place within)
        ((Target.declared kind table).reference mode source within) target item ↔
      Clear mode tables source within (.declared kind table) ∧
        target = (mode.groupOf table).place kind ∧
        item = r.declaration ⟨mode.groupOf table, .ofTables mode tables⟩ kind table := by
  obtain ⟨path, home, hreference, hhome, ⟨hpath, hclear⟩ | ⟨hbelow, hnot⟩⟩ :=
    exists_home hs.rows hsource ht within kind
  · rw [hreference, RefersTo, resolve_eq_singleton_iff hs ht hhome hpath, hclear, hhome,
      List.dropLast_concat, ← hpath]
    constructor
    · rintro ⟨⟨home', hhome', rfl⟩, hdistinct, hitem⟩
      exact ⟨hdistinct, by rw [Option.some.inj hhome'], hitem⟩
    · rintro ⟨hdistinct, htarget, hitem⟩
      exact ⟨⟨home, rfl, htarget⟩, hdistinct, hitem⟩
  · rw [hreference]
    constructor
    · rintro ⟨-, hresolve⟩
      rw [resolve_of_home hhome, hbelow] at hresolve
      exact nomatch hresolve
    · intro h
      exact absurd h.1 hnot

theorem refersTo_of_clear (hs : r.Selects tables) (hsource : Rendered mode tables source)
    (ht : table ∈ tables) (h : Clear mode tables source within (.declared kind table)) :
    RefersTo (r.document mode tables) (source.place within)
      ((Target.declared kind table).reference mode source within) ((mode.groupOf table).place kind)
      (r.declaration ⟨mode.groupOf table, .ofTables mode tables⟩ kind table) :=
  (refersTo_declared_iff hs hsource ht).mpr ⟨h, rfl, rfl⟩

/-- A reference to a declaration reaches it just if the way is clear. -/
theorem reaches_declared_iff (hs : r.Selects tables) (hsource : Rendered mode tables source)
    (ht : table ∈ tables) (within kind : NamespaceKind) :
    Reaches mode tables (r.document mode tables) (source.place within)
        ((Target.declared kind table).reference mode source within) (.declared kind table) ↔
      Clear mode tables source within (.declared kind table) := by
  constructor
  · rintro ⟨item, -, hresolve⟩
    obtain ⟨path, home, hreference, hhome, -⟩ :=
      exists_home (r := r) hs.rows hsource ht within kind
    exact ((refersTo_declared_iff hs hsource ht).mp
      ⟨⟨home, by rw [hreference]; exact hhome, rfl⟩, hresolve⟩).1
  · intro h
    exact ⟨_, (stands_iff hs.rows ht).mpr rfl, (refersTo_of_clear hs hsource ht h).2⟩

/-! ## Types of the platform -/

theorem not_isNamespace_platform {group : Group} (h : name ∈ group.platformTypes.names) :
    ¬ Group.global.IsNamespace name := by
  intro hnamespace
  obtain ⟨kind, rfl⟩ := hnamespace
  match group with
  | .global =>
    change _ ∈ globalTypes.names at h
    cases kind <;> exact absurd h (by decide)
  | .scoped key =>
    change _ ∈ scopedTypes.names at h
    cases kind <;> exact absurd h (by decide)

/-- A type of the platform is not captured just if the way to the top level is clear. -/
theorem reaches_platform_iff (hrows : OneRowEach tables) (hsource : Rendered mode tables source)
    (within : NamespaceKind) (hname : ¬ Group.global.IsNamespace name) :
    Reaches mode tables (r.document mode tables) (source.place within)
        ((Target.platform name).reference mode source within) (.platform name) ↔
      Clear mode tables source within (.platform name) := by
  have htop : name ∈ namesAt [] (r.document mode tables) ↔ Rendered mode tables (.scoped name) := by
    rw [mem_namesAt_top]
    exact ⟨fun h => h.resolve_left fun h => hname h.2, .inr⟩
  simp only [Reaches, Clear, Target.reference, true_and]
  rcases home?_place hrows hsource within name
    with ⟨hclear, hhome⟩ | ⟨hshadowed, outer, inner, hhome⟩
  · rw [hhome]
    by_cases h : Rendered mode tables (.scoped name)
    · rw [if_pos (htop.mpr h)]
      exact ⟨nofun, fun hnot => absurd h hnot.2⟩
    · rw [if_neg fun hmem => h (htop.mp hmem)]
      exact ⟨fun _ => ⟨hclear, h⟩, fun _ => rfl⟩
  · rw [hhome]
    exact ⟨nofun, fun hnot => absurd hshadowed hnot.1⟩

/-- Where the way is clear, the name of a type of the platform means no declaration. -/
theorem not_refersTo_of_clear (hrows : OneRowEach tables) (hsource : Rendered mode tables source)
    (hname : ¬ Group.global.IsNamespace name) (h : Clear mode tables source within (.platform name))
    (target : List String) (item : Item) :
    ¬ RefersTo (r.document mode tables) (source.place within) (.named name) target item := by
  obtain ⟨-, hnone⟩ := (reaches_platform_iff (r := r) hrows hsource within hname).mpr h
  rintro ⟨⟨home, hhome, -⟩, -⟩
  exact nomatch hnone.symm.trans hhome

/-! ## Targets -/

theorem mem_meant (hrows : OneRowEach tables) (ht : table ∈ tables) {target : Target}
    (h : target ∈ r.targets mode tables kind table) :
    (mode.groupOf table, kind, target) ∈ r.meant mode tables := by
  obtain ⟨members, hpart, hmem⟩ := exists_members mode hrows ht
  have hkind : kind ∈ [NamespaceKind.records, .elements, .fields] := by
    cases kind <;> decide
  exact List.mem_flatMap.mpr ⟨_, hpart, List.mem_flatMap.mpr ⟨kind, hkind,
    List.mem_flatMap.mpr ⟨table, hmem, List.mem_map_of_mem h⟩⟩⟩

theorem reaches_iff_clear (hs : r.Selects tables) {group : Group} {target : Target}
    (h : (group, kind, target) ∈ r.meant mode tables) :
    Reaches mode tables (r.document mode tables) (group.place kind)
        (target.reference mode group kind) target ↔ Clear mode tables group kind target := by
  obtain ⟨hgroup, hproper⟩ := proper_of_mem_meant hs h
  cases hproper with
  | declared ht => exact reaches_declared_iff hs hgroup ht kind _
  | platform hname =>
    exact reaches_platform_iff hs.rows hgroup kind (not_isNamespace_platform hname)

end Home

/-! ## All references -/

/-- Every reference of a document reaches what it is meant for. -/
def AllReach (r : Repository) (mode : RenderMode) (tables : List Table) (document : Document) :
    Prop :=
  List.Forall₂ (fun written meant => Reaches mode tables document written.1 written.2 meant.2.2)
    (TypeScript.writtenIn [] document) (r.meant mode tables)

section All

variable {r : Repository} {tables : List Table}

theorem forall₂_reaches_iff (hs : r.Selects tables) (mode : RenderMode) :
    List.Forall₂ (fun written meant =>
        Reaches mode tables (r.document mode tables) written.1 written.2 meant.2.2 ↔
          Clear mode tables meant.1 meant.2.1 meant.2.2)
      (TypeScript.writtenIn [] (r.document mode tables)) (r.meant mode tables) := by
  rw [writtenIn_document hs, List.forall₂_map_left_iff, List.forall₂_same]
  intro meant hmeant
  exact reaches_iff_clear hs hmeant

theorem allReach_iff (hs : r.Selects tables) (mode : RenderMode) :
    AllReach r mode tables (r.document mode tables) ↔
      ∀ meant ∈ r.meant mode tables, Clear mode tables meant.1 meant.2.1 meant.2.2 := by
  rw [AllReach, writtenIn_document hs, List.forall₂_map_left_iff, List.forall₂_same]
  refine ⟨?_, ?_⟩
  · intro h meant hmeant
    exact (reaches_iff_clear hs hmeant).mp (h meant hmeant)
  · intro h meant hmeant
    exact (reaches_iff_clear hs hmeant).mpr (h meant hmeant)

end All

/-- **References bind to what is meant exactly where the names leave the way clear**, each of them
and all of them. -/
theorem references_reach_iff_clear {snapshot : Snapshot} (hvalid : snapshot.violation? = none)
    (mode : RenderMode) {tables : List Table}
    (htables : ∀ table ∈ tables, table ∈ snapshot.repository.allTables) :
    let r := snapshot.repository
    let complete := (render mode tables { repository := r } {}).document
    List.Forall₂ (fun written meant =>
        Reaches mode tables complete written.1 written.2 meant.2.2 ↔
          Clear mode tables meant.1 meant.2.1 meant.2.2)
        (TypeScript.writtenIn [] complete) (r.meant mode tables) ∧
      (AllReach r mode tables complete ↔
        ∀ meant ∈ r.meant mode tables, Clear mode tables meant.1 meant.2.1 meant.2.2) := by
  intro r complete
  have hs := Snapshot.selects hvalid htables
  have hcomplete : complete = r.document mode tables := document_render r mode tables
  rw [hcomplete]
  exact ⟨forall₂_reaches_iff hs mode, allReach_iff hs mode⟩

/-- A table of one scope that extends one of another scope and refers to one of none. -/
def Snapshot.crossing : Snapshot where
  tables := .ofList
    [("base", {}),
     ("ticket", { attributes := { scope := some "record" } }),
     ("x_task",
      { attributes := { superName := some "ticket", scope := some "x_app" }
        elements := .ofList
          [("parent", { typeName := "reference", reference := some " base " })] })]

theorem references_reach_iff_clear_crossing :
    let r := Snapshot.crossing.repository
    let complete := (render .scoped r.allTables { repository := r } {}).document
    Snapshot.crossing.violation? = none ∧
      List.Forall₂ (fun written meant =>
          Reaches .scoped r.allTables complete written.1 written.2 meant.2.2 ↔
            Clear .scoped r.allTables meant.1 meant.2.1 meant.2.2)
        (TypeScript.writtenIn [] complete) (r.meant .scoped r.allTables) ∧
      (AllReach r .scoped r.allTables complete ↔
        ∀ meant ∈ r.meant .scoped r.allTables,
          Clear .scoped r.allTables meant.1 meant.2.1 meant.2.2) := by
  intro r complete
  have hvalid : Snapshot.crossing.violation? = none := by decide +kernel
  exact ⟨hvalid, references_reach_iff_clear hvalid .scoped fun _ ht => ht⟩

/-- One table that is called like a type of the platform. -/
def Snapshot.platformNamed : Snapshot where
  tables := .ofList [("GlideRecord", {})]

/-- The record type of such a table is built on itself, not on the type of the platform. -/
theorem not_allReach_platformNamed :
    let r := Snapshot.platformNamed.repository
    let complete := (render .scoped r.allTables { repository := r } {}).document
    Snapshot.platformNamed.violation? = none ∧
      TypeScript.home? complete ["$$GlideRecord"] "GlideRecord" = some ["$$GlideRecord"] ∧
      ¬ AllReach r .scoped r.allTables complete := by
  intro r complete
  have hvalid : Snapshot.platformNamed.violation? = none := by decide +kernel
  have hs : r.Selects r.allTables := Snapshot.selects hvalid fun _ ht => ht
  have htable : ({ name := "GlideRecord" } : Table) ∈ r.allTables := by decide +kernel
  have hname : TypeScript.typeName "GlideRecord" = "GlideRecord" := by decide
  have hhome : home? (r.document .scoped r.allTables) ["$$GlideRecord"]
      (TypeScript.typeName "GlideRecord") = some ["$$GlideRecord"] :=
    home?_own .records hs.rows htable
  have htarget : (Group.global, NamespaceKind.records, Target.platform "GlideRecord") ∈
      r.meant .scoped r.allTables :=
    mem_meant hs.rows htable (List.mem_cons_of_mem _ List.mem_cons_self)
  have hcomplete : complete = r.document .scoped r.allTables := document_render r .scoped _
  rw [hcomplete]
  rw [hname] at hhome
  refine ⟨hvalid, hhome, fun h => ?_⟩
  -- the table itself is what stands in the way
  obtain ⟨hshadowed, -⟩ := (allReach_iff hs .scoped).mp h _ htarget
  exact hshadowed (.inl ⟨_, htable, rfl, hname⟩)

end Ambient
