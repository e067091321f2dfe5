import Ambient.Files.Tree

/-!
# Files that are put into a tree

Making a file, emptying it and writing into it change one entry of the tree, which is no
directory before and none after. `PutFile` says so. From it follows what the paths find:
every path leads where it led before, except for those that lead to the file.
-/

namespace Ambient.FileTree

/-! ## Steps -/

/-- One piece of a path followed. -/
def step? (tree : FileTree) (location : Location) (piece : String) : Option Location :=
  if ! tree.isDirectoryAt location then none
  else if piece.isEmpty || piece == "." then some location
  else if piece == ".." then some location.up
  else if (tree.node? (location ++ [piece])).isSome then some (location ++ [piece])
  else none

/-- What a step can do: stay, go up, or go to an entry. -/
theorem step?_eq_some_iff {tree : FileTree} {location next : Location} {piece : String} :
    tree.step? location piece = some next ↔
      tree.isDirectoryAt location = true ∧
        (Path.isIdle piece = true ∧ location = next ∨
          Path.isIdle piece = false ∧ piece = ".." ∧ location.up = next ∨
          Path.isIdle piece = false ∧ piece ≠ ".." ∧
            (tree.node? (location ++ [piece])).isSome = true ∧ location ++ [piece] = next) := by
  unfold step? Path.isIdle
  by_cases hdirectory : tree.isDirectoryAt location = true
  · by_cases hidle : (piece.isEmpty || piece == ".") = true
    · simp [hdirectory, hidle]
    · by_cases hup : piece = ".."
      · simp [hdirectory, hup]
      · simp [hdirectory, hidle, hup]
  · simp [hdirectory]

theorem follow_cons (tree : FileTree) (location : Location) (piece : String)
    (rest : List String) :
    tree.follow location (piece :: rest) =
      (tree.step? location piece).bind (tree.follow · rest) := by
  rw [follow, step?]
  by_cases hdirectory : (! tree.isDirectoryAt location) = true
  · rw [if_pos hdirectory, if_pos hdirectory]
    rfl
  · rw [if_neg hdirectory, if_neg hdirectory]
    by_cases hidle : (piece.isEmpty || piece == ".") = true
    · rw [if_pos hidle, if_pos hidle]
      rfl
    · rw [if_neg hidle, if_neg hidle]
      by_cases hup : (piece == "..") = true
      · rw [if_pos hup, if_pos hup]
        rfl
      · rw [if_neg hup, if_neg hup]
        show (if (tree.node? (location ++ [piece])).isSome = true then _ else none) = _
        by_cases hnext : (tree.node? (location ++ [piece])).isSome = true
        · rw [if_pos hnext, if_pos hnext]
          rfl
        · rw [if_neg hnext, if_neg hnext]
          rfl

theorem follow_append (tree : FileTree) (location : Location) (first second : List String) :
    tree.follow location (first ++ second) =
      (tree.follow location first).bind (tree.follow · second) := by
  induction first generalizing location with
  | nil => rfl
  | cons piece rest ih =>
    rw [List.cons_append, follow_cons, follow_cons, Option.bind_assoc]
    exact Option.bind_congr fun next _ => ih next

/-- No path goes on from what is no directory. -/
theorem eq_of_follow {tree : FileTree} {location found : Location} {pieces : List String}
    (h : tree.isDirectoryAt location = false) (hfollow : tree.follow location pieces = some found) :
    found = location := by
  cases pieces with
  | nil => exact (Option.some.inj hfollow).symm
  | cons piece rest =>
    rw [follow_cons, step?, h] at hfollow
    exact nomatch hfollow

/-! ## One file put into a tree -/

/-- `after` is `before` with a file at the location, where there was a file or nothing. -/
structure PutFile (before : FileTree) (location : Location) (content : ByteArray)
    (after : FileTree) : Prop where
  notDirectory : before.isDirectoryAt location = false
  entry : after.entries.get? (key location) = some (.file content)
  others : ∀ name, name ≠ key location → after.entries.get? name = before.entries.get? name

theorem isDirectoryAt_of_isAbove {tree : FileTree} {location : Location}
    (h : location.isAbove = true) : tree.isDirectoryAt location = true := by
  rw [isDirectoryAt, node?, if_pos h]

theorem putFile_put {tree : FileTree} {location : Location}
    (h : tree.isDirectoryAt location = false) (content : ByteArray) :
    PutFile tree location content (tree.put location (.file content)) where
  notDirectory := h
  entry := by rw [put, NameMap.get?_insert, if_pos rfl]
  others name hname := by rw [put, NameMap.get?_insert, if_neg hname.symm]

namespace PutFile

variable {before after : FileTree} {location found : Location} {content : ByteArray}

theorem trans {content' : ByteArray} {last : FileTree} (h : PutFile before location content after)
    (h' : PutFile after location content' last) : PutFile before location content' last where
  notDirectory := h.notDirectory
  entry := h'.entry
  others name hname := (h'.others name hname).trans (h.others name hname)

variable (h : PutFile before location content after)

include h

theorem isAbove_eq_false : location.isAbove = false :=
  Bool.eq_false_iff.mpr fun habove => by
    have hdirectory : before.isDirectoryAt location = true := isDirectoryAt_of_isAbove habove
    rw [h.notDirectory] at hdirectory
    exact nomatch hdirectory

theorem node?_self : after.node? location = some (.file content) := by
  rw [node?, h.isAbove_eq_false, if_neg Bool.false_ne_true, h.entry]

theorem node?_of_ne {other : Location} (hne : key other ≠ key location) :
    after.node? other = before.node? other := by
  rw [node?, node?, h.others _ hne]

/-- What is found under the key of the file is the file, or above all entries. -/
theorem node?_of_eq {other : Location} (heq : key other = key location)
    (habove : other.isAbove = false) :
    after.node? other = some (.file content) ∧ before.isDirectoryAt other = false := by
  have hbefore : before.node? other = before.node? location := by
    rw [node?, node?, habove, h.isAbove_eq_false, heq]
  refine ⟨?_, ?_⟩
  · rw [node?, habove, if_neg Bool.false_ne_true, heq, h.entry]
  · rw [isDirectoryAt, hbefore]
    exact h.notDirectory

/-- There are the same directories as before. -/
theorem isDirectoryAt_eq (other : Location) :
    after.isDirectoryAt other = before.isDirectoryAt other := by
  by_cases heq : key other = key location
  · by_cases habove : other.isAbove = true
    · rw [isDirectoryAt_of_isAbove habove, isDirectoryAt_of_isAbove habove]
    · obtain ⟨hafter, hbefore⟩ := h.node?_of_eq heq (Bool.eq_false_iff.mpr habove)
      rw [hbefore, isDirectoryAt, hafter]
  · rw [isDirectoryAt, h.node?_of_ne heq]
    rfl

theorem isSome_node? {other : Location} (hsome : (before.node? other).isSome = true) :
    (after.node? other).isSome = true := by
  by_cases heq : key other = key location
  · by_cases habove : other.isAbove = true
    · rw [node?, if_pos habove]
      rfl
    · rw [(h.node?_of_eq heq (Bool.eq_false_iff.mpr habove)).1]
      rfl
  · rw [h.node?_of_ne heq]
    exact hsome

/-! ## Following paths -/

theorem step?_of_before {source next : Location} {piece : String}
    (hstep : before.step? source piece = some next) : after.step? source piece = some next := by
  obtain ⟨hdirectory, hstep⟩ := step?_eq_some_iff.mp hstep
  refine step?_eq_some_iff.mpr ⟨h.isDirectoryAt_eq source ▸ hdirectory, ?_⟩
  rcases hstep with hstay | hup | ⟨hidle, hup, hsome, hnext⟩
  · exact .inl hstay
  · exact .inr (.inl hup)
  · exact .inr (.inr ⟨hidle, hup, h.isSome_node? hsome, hnext⟩)

/-- A step afterwards could be made before, or it goes to the file. -/
theorem step?_before_or {source next : Location} {piece : String}
    (hstep : after.step? source piece = some next) :
    before.step? source piece = some next ∨
      key next = key location ∧ after.isDirectoryAt next = false := by
  obtain ⟨hdirectory, hstep⟩ := step?_eq_some_iff.mp hstep
  rw [h.isDirectoryAt_eq] at hdirectory
  rcases hstep with hstay | hup | ⟨hidle, hup, hsome, hnext⟩
  · exact .inl (step?_eq_some_iff.mpr ⟨hdirectory, .inl hstay⟩)
  · exact .inl (step?_eq_some_iff.mpr ⟨hdirectory, .inr (.inl hup)⟩)
  · by_cases hbefore : (before.node? (source ++ [piece])).isSome = true
    · exact .inl (step?_eq_some_iff.mpr ⟨hdirectory, .inr (.inr ⟨hidle, hup, hbefore, hnext⟩)⟩)
    · -- an entry that was not there before
      have heq : key next = key location := by
        rw [← hnext]
        refine Decidable.byContradiction fun hne => hbefore ?_
        rw [← h.node?_of_ne hne]
        exact hsome
      refine .inr ⟨heq, ?_⟩
      rw [h.isDirectoryAt_eq, isDirectoryAt, ← hnext, Option.not_isSome_iff_eq_none.mp hbefore]

/-- What was found before is found again. -/
theorem follow_of_before {source : Location} {pieces : List String}
    (hfollow : before.follow source pieces = some found) :
    after.follow source pieces = some found := by
  induction pieces generalizing source with
  | nil => exact hfollow
  | cons piece rest ih =>
    rw [follow_cons] at hfollow
    obtain ⟨next, hstep, hrest⟩ := Option.bind_eq_some_iff.mp hfollow
    rw [follow_cons, h.step?_of_before hstep]
    exact ih hrest

/-- What is found afterwards was found before, or it is the file. -/
theorem follow_before_or {source : Location} {pieces : List String}
    (hfollow : after.follow source pieces = some found) :
    before.follow source pieces = some found ∨ key found = key location := by
  induction pieces generalizing source with
  | nil => exact .inl hfollow
  | cons piece rest ih =>
    rw [follow_cons] at hfollow ⊢
    obtain ⟨next, hstep, hrest⟩ := Option.bind_eq_some_iff.mp hfollow
    rcases h.step?_before_or hstep with hbefore | ⟨heq, hfile⟩
    · rw [hbefore]
      exact ih hrest
    · exact .inr (eq_of_follow hfile hrest ▸ heq)

/-! ## Paths -/

theorem locate?_of_before {path : String} (hlocate : before.locate? path = some found) :
    after.locate? path = some found := by
  unfold locate? at hlocate ⊢
  split at hlocate
  · rename_i husable
    rw [if_pos husable]
    exact h.follow_of_before hlocate
  · exact nomatch hlocate

/-- A path that does not lead to the file leads where it led before. -/
theorem locate?_eq {path : String} (hne : (after.locate? path).map key ≠ some (key location)) :
    after.locate? path = before.locate? path := by
  cases hbefore : before.locate? path with
  | some found => exact h.locate?_of_before hbefore
  | none =>
    unfold locate? at hbefore hne ⊢
    split at hbefore
    · rename_i husable
      rw [if_pos husable] at hne ⊢
      cases hafter : after.follow (start path) (Path.pieces path) with
      | none => rfl
      | some found =>
        rcases h.follow_before_or hafter with hfollow | heq
        · rw [hbefore] at hfollow
          exact nomatch hfollow
        · rw [hafter, Option.map_some, heq] at hne
          exact absurd rfl hne
    · rename_i husable
      rw [if_neg husable]

/-- And it reads what it read before. -/
theorem read?_eq {path : String} (hne : (after.locate? path).map key ≠ some (key location)) :
    after.read? path = before.read? path := by
  have hlocate := h.locate?_eq hne
  unfold read?
  rw [← hlocate]
  cases hafter : after.locate? path with
  | none => rfl
  | some found =>
    rw [hafter, Option.map_some] at hne
    rw [Option.bind_some, Option.bind_some, h.node?_of_ne fun heq => hne (congrArg some heq)]

/-- A path that leads to the file reads its content. -/
theorem read?_self {path : String} (hlocate : after.locate? path = some location) :
    after.read? path = some content := by
  rw [read?, hlocate, Option.bind_some, h.node?_self]

end PutFile

/-! ## Making and writing files -/

/-- A new file is made under a plain name in a directory. -/
theorem newLocation?_eq_some {tree : FileTree} {path : String} {location : Location}
    (h : tree.newLocation? path = some location) :
    ∃ above way name, isUsable path = true ∧ Path.pieces path = way ++ [name] ∧
      tree.follow (start path) way = some above ∧ tree.isDirectoryAt above = true ∧
      Path.isIdle name = false ∧ name ≠ ".." ∧ above ++ [name] = location := by
  unfold newLocation? at h
  cases hlast : (Path.pieces path).getLast? with
  | none =>
    simp only [hlast] at h
    exact nomatch h
  | some name =>
    simp only [hlast] at h
    split at h
    · exact nomatch h
    · rename_i hplain
      obtain ⟨way, hpieces⟩ := List.getLast?_eq_some_iff.mp hlast
      obtain ⟨above, hfilter, hlocation⟩ := Option.map_eq_some_iff.mp h
      obtain ⟨hfollow, hdirectory⟩ := Option.filter_eq_some_iff.mp hfilter
      rw [hpieces, List.dropLast_concat] at hfollow
      simp only [Bool.or_eq_true, Bool.not_eq_true', beq_iff_eq, not_or,
        Bool.not_eq_false] at hplain
      obtain ⟨⟨⟨husable, hempty⟩, hdot⟩, hup⟩ := hplain
      refine ⟨above, way, name, husable, hpieces, hfollow, hdirectory, ?_, hup, hlocation⟩
      simp [Path.isIdle, hempty, hdot]

/-- The last piece of a path is one more step. -/
theorem locate?_concat {tree : FileTree} {path name : String} {above : Location}
    {way : List String} (husable : isUsable path = true)
    (hpieces : Path.pieces path = way ++ [name])
    (hfollow : tree.follow (start path) way = some above) :
    tree.locate? path = tree.step? above name := by
  rw [locate?, if_pos husable, hpieces, follow_append, hfollow, Option.bind_some, follow_cons]
  exact Option.bind_fun_some _

/-- A path that leads to no entry leads to the file that is made for it. -/
theorem putFile_of_newLocation? {tree : FileTree} {path : String} {location : Location}
    (hnone : tree.locate? path = none) (h : tree.newLocation? path = some location) :
    PutFile tree location ByteArray.empty (tree.put location (.file ByteArray.empty)) ∧
      (tree.put location (.file ByteArray.empty)).locate? path = some location := by
  obtain ⟨above, way, name, husable, hpieces, hfollow, hdirectory, hidle, hup, rfl⟩ :=
    newLocation?_eq_some h
  have hmissing : tree.node? (above ++ [name]) = none := by
    rw [locate?_concat husable hpieces hfollow] at hnone
    refine Option.not_isSome_iff_eq_none.mp fun hsome => ?_
    rw [step?_eq_some_iff.mpr ⟨hdirectory, .inr (.inr ⟨hidle, hup, hsome, rfl⟩)⟩] at hnone
    exact nomatch hnone
  have hfile : tree.isDirectoryAt (above ++ [name]) = false := by rw [isDirectoryAt, hmissing]
  have hput := putFile_put hfile ByteArray.empty
  refine ⟨hput, ?_⟩
  rw [locate?_concat husable hpieces (hput.follow_of_before hfollow)]
  refine step?_eq_some_iff.mpr
    ⟨hput.isDirectoryAt_eq above ▸ hdirectory, .inr (.inr ⟨hidle, hup, ?_, rfl⟩)⟩
  rw [hput.node?_self]
  rfl

theorem create?_eq_some {tree after : FileTree} {path : String} {location : Location}
    (h : tree.create? path = some (location, after)) :
    PutFile tree location ByteArray.empty after ∧ after.locate? path = some location := by
  unfold create? at h
  cases hlocate : tree.locate? path with
  | none =>
    simp only [hlocate] at h
    obtain ⟨found, hfound, heq⟩ := Option.map_eq_some_iff.mp h
    obtain ⟨rfl, rfl⟩ := Prod.mk.inj heq
    exact putFile_of_newLocation? hlocate hfound
  | some found =>
    simp only [hlocate] at h
    split at h
    · exact nomatch h
    · rename_i hfile
      obtain ⟨rfl, rfl⟩ := Prod.mk.inj (Option.some.inj h)
      have hput := putFile_put (Bool.eq_false_iff.mpr hfile) ByteArray.empty
      exact ⟨hput, hput.locate?_of_before hlocate⟩

theorem putFile_writeAt {tree : FileTree} {location : Location} {content : ByteArray}
    (h : tree.node? location = some (.file content)) (offset : Nat) (bytes : ByteArray) :
    PutFile tree location (overwriteBytes content offset bytes)
      (tree.writeAt location offset bytes) := by
  have hfile : tree.isDirectoryAt location = false := by rw [isDirectoryAt, h]
  rw [writeAt, h]
  exact putFile_put hfile _

/-- What is written into an empty file is all that it holds. -/
theorem overwriteBytes_empty (bytes : ByteArray) :
    overwriteBytes ByteArray.empty 0 bytes = bytes := by
  have hextract : ∀ n m, ByteArray.empty.extract n m = ByteArray.empty := fun n m =>
    ByteArray.extract_eq_empty_iff.mpr (Nat.le_trans (Nat.min_le_right _ _) (Nat.zero_le n))
  have hgap : ByteArray.mk (Array.replicate (0 - ByteArray.empty.size) 0) = ByteArray.empty := rfl
  unfold overwriteBytes
  split
  · rename_i hempty
    exact (ByteArray.size_eq_zero_iff.mp (beq_iff_eq.mp hempty)).symm
  · rw [hextract, hextract, hgap]
    show ByteArray.empty ++ ByteArray.empty ++ bytes ++ ByteArray.empty = bytes
    rw [ByteArray.append_empty, ByteArray.append_empty, ByteArray.empty_append]

end Ambient.FileTree
