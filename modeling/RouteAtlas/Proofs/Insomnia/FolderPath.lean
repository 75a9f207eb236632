/-
  The paths of folders in any export.

  ==== Problem ====

  A merge looks for folders by their paths, in what users have edited: parents may be missing or go
  round in a circle, folders may share an identifier or have the workspace's, and an identifier may
  be written in two ways (`1` and `1.0`).  `Identified` holds of none of that.

  ==== Spec ====

  The path to an identifier, `pathTo`, goes up from it through the folders that are there.  The table
  that a merge makes says just that: whatever is asked for is answered by the path to it
  (`get?_folderPaths`), and what it lists under a path has that path (`pathTo_of_mem_folderPaths`).
  Turned round, the table finds an identifier for a path exactly when a folder has it
  (`pathTo_of_get?_foldersByPath`, `isSome_get?_foldersByPath`).

  ==== The crux ====

  The walk does not tell one spelling of an identifier from another (`namesAbove_congr`), so the
  table may be asked with either.
-/
import RouteAtlas.Proofs.Insomnia.First
import RouteAtlas.Proofs.Json.Table

namespace RouteAtlas.Insomnia

open Json (KeyPath comparable_keys comparable_paths)
open Persisted (Fault lookupKey lookupKey_of_key lookupKey_eq_ok_iff bind_eq_ok_iff ok_bind
  bind_pure_eq_ok_iff_of_step mapM_eq_ok_iff_of_step)
open Resource (ofKind fieldOrNull byId)

/-- One of the resources has the identifier. -/
def HasId (rs : List Resource) (id : Json) : Prop := ∃ r ∈ rs, Dict.get? r "_id" = some id

/-! ## Resources by their identifiers

A table of resources by identifier, where a later resource replaces an earlier one with the same
identifier. -/

section

variable {rs : List Resource} {table : List (Json × Resource)}

/-- Resources are paired with their identifiers if these can be looked up by. -/
theorem idEntries_eq_ok_iff {entries : List (Json × Resource)} :
    (rs.mapM fun r => do return (← lookupKey (fieldOrNull r "_id"), r)) = .ok entries ↔
      (∀ r ∈ rs, (fieldOrNull r "_id").kind.isKey = true) ∧
        entries = rs.map fun r => (fieldOrNull r "_id", r) := by
  have hstep : ∀ (r : Resource) (e : Json × Resource),
      (do return (← lookupKey (fieldOrNull r "_id"), r) : Except Fault (Json × Resource)) = .ok e ↔
        (fieldOrNull r "_id").kind.isKey = true ∧ e = (fieldOrNull r "_id", r) :=
    fun r _ => bind_pure_eq_ok_iff_of_step (fun _ => lookupKey_eq_ok_iff) (·, r)
  exact mapM_eq_ok_iff_of_step hstep

/-- A table is made if all identifiers can be looked up by; it holds the resources that have one. -/
theorem byId_eq_ok_iff : byId rs = .ok table ↔
    (∀ r ∈ rs.filter (Dict.has · "_id"), (fieldOrNull r "_id").kind.isKey = true) ∧
      table = Dict.ofList ((rs.filter (Dict.has · "_id")).map fun r => (fieldOrNull r "_id", r)) := by
  rw [byId]
  exact bind_pure_eq_ok_iff_of_step (fun _ => idEntries_eq_ok_iff) Dict.ofList

/-- What has an identifier has it as the value of that field. -/
theorem mem_withId {r : Resource} : r ∈ rs.filter (Dict.has · "_id") ↔
    r ∈ rs ∧ Dict.get? r "_id" = some (fieldOrNull r "_id") := by
  rw [List.mem_filter]
  refine and_congr_right fun _ => ?_
  rw [fieldOrNull]
  show (Dict.get? r "_id").isSome = true ↔ _
  cases Dict.get? r "_id" with
  | none => exact ⟨fun h => absurd h (by decide), fun h => absurd h (by simp)⟩
  | some id => exact ⟨fun _ => rfl, fun _ => rfl⟩

variable (htable : byId rs = .ok table)
include htable

/-- The keys are identifiers as they are written. -/
theorem hasId_of_byId {id : Json} (hid : id ∈ Dict.keys table) :
    HasId rs id ∧ id.kind.isKey = true := by
  obtain ⟨hkeys, rfl⟩ := byId_eq_ok_iff.mp htable
  rcases Dict.mem_keys_of_mem_putAll hid with hno | hid
  · exact absurd hno (List.not_mem_nil)
  · rw [Dict.keys, List.map_map] at hid
    obtain ⟨r, hr, rfl⟩ := List.mem_map.mp hid
    obtain ⟨hmem, hget⟩ := mem_withId.mp hr
    exact ⟨⟨r, hmem, hget⟩, hkeys r hr⟩

/-- Every identifier is found, however it is asked for. -/
theorem isSome_get?_byId {i id : Json} (hi : i.kind.isKey = true) (hid : HasId rs id)
    (heq : (i == id) = true) : (Dict.get? table i).isSome = true := by
  obtain ⟨hkeys, rfl⟩ := byId_eq_ok_iff.mp htable
  obtain ⟨r, hr, hget⟩ := hid
  have hfield := fieldOrNull_of_get? hget
  have hmem : r ∈ rs.filter (Dict.has · "_id") := mem_withId.mpr ⟨hr, hfield ▸ hget⟩
  have hall : ∀ k ∈ Dict.keys ((rs.filter (Dict.has · "_id")).map fun r => (fieldOrNull r "_id", r)),
      k.kind.isKey = true := by
    intro k hk
    rw [Dict.keys, List.map_map] at hk
    obtain ⟨s, hs, rfl⟩ := List.mem_map.mp hk
    exact hkeys s hs
  rw [comparable_keys.get?_ofList hall hi]
  refine Dict.isSome_get?_iff.mpr ⟨id, ?_, heq⟩
  rw [Dict.keys, List.map_reverse, List.mem_reverse, List.map_map]
  exact List.mem_map.mpr ⟨r, hmem, hfield⟩

end

/-! ## Going up from an identifier

The path to a folder is found by going up from parent to parent.  The walk is over a table, but the
table is determined by the resources: `pathTo` says it of these. -/

/-- The names above an identifier: those above the folder it names, and that folder's own. -/
theorem namesAbove_eq (folders : List (Json × Resource)) (id : Json) :
    namesAbove folders id = match Dict.get? folders id with
      | none => .ok []
      | some r => do
        let above ← namesAbove (without folders id) (← lookupKey (fieldOrNull r "parentId"))
        return above ++ [(Dict.get? r "name").getD (.str "")] := by
  rw [namesAbove]
  split
  · rename_i hnone
    rw [hnone]
  · rename_i r hr
    simp only [hr]

/-- Identifiers that count as one have the same folders above. -/
theorem namesAbove_congr {folders : List (Json × Resource)}
    (hfolders : ∀ k ∈ Dict.keys folders, k.kind.isKey = true) {a b : Json}
    (ha : a.kind.isKey = true) (hb : b.kind.isKey = true) (hab : (a == b) = true) :
    namesAbove folders a = namesAbove folders b := by
  have hrest : without folders a = without folders b := by
    refine List.filter_congr fun f hf => ?_
    rw [comparable_keys.beq_congr ha hb (hfolders _ (List.mem_map_of_mem hf)) hab]
  rw [namesAbove_eq, namesAbove_eq, comparable_keys.get?_congr hfolders ha hb hab, hrest]

/-- The names of the folders on the way to an identifier, outermost first: none when it is no
    folder's. -/
def pathTo (rs : List Resource) (id : Json) : Except Fault FolderPath := do
  let folders ← byId (ofKind "request_group" rs)
  namesAbove folders (← lookupKey id)

/-- The path of the folder that a resource is in. -/
def pathOf (rs : List Resource) (r : Resource) : Except Fault FolderPath :=
  pathTo rs (fieldOrNull r "parentId")

/-- The path to an identifier is what the walk over the table of folders finds. -/
theorem pathTo_eq_ok_iff {rs : List Resource} {folders : List (Json × Resource)}
    (hfolders : byId (ofKind "request_group" rs) = .ok folders) {id : Json} {path : FolderPath} :
    pathTo rs id = .ok path ↔ id.kind.isKey = true ∧ namesAbove folders id = .ok path := by
  rw [pathTo, hfolders, ok_bind, bind_eq_ok_iff]
  constructor
  · rintro ⟨k, hk, hnames⟩
    obtain ⟨hkey, rfl⟩ := lookupKey_eq_ok_iff.mp hk
    exact ⟨hkey, hnames⟩
  · rintro ⟨hkey, hnames⟩
    exact ⟨id, lookupKey_of_key hkey, hnames⟩

/-- Identifiers that count as one have one path. -/
theorem pathTo_congr {rs : List Resource} {folders : List (Json × Resource)}
    (hfolders : byId (ofKind "request_group" rs) = .ok folders) {a b : Json}
    (ha : a.kind.isKey = true) (hb : b.kind.isKey = true) (hab : (a == b) = true) :
    pathTo rs a = pathTo rs b := by
  rw [pathTo, pathTo, hfolders, ok_bind, ok_bind, lookupKey_of_key ha, lookupKey_of_key hb, ok_bind,
    ok_bind]
  exact namesAbove_congr (fun k hk => (hasId_of_byId hfolders hk).2) ha hb hab

/-- What has a path is a folder. -/
theorem exists_folder_of_pathTo {rs : List Resource} {id : Json} {path : FolderPath}
    (h : pathTo rs id = .ok path) (hne : path ≠ []) :
    ∃ j, HasId (ofKind "request_group" rs) j ∧ (id == j) = true := by
  obtain ⟨folders, hfolders, -⟩ := bind_eq_ok_iff.mp h
  obtain ⟨-, hnames⟩ := (pathTo_eq_ok_iff hfolders).mp h
  rw [namesAbove_eq] at hnames
  have hfound : (Dict.get? folders id).isSome = true := by
    cases hget : Dict.get? folders id with
    | some r => rfl
    | none =>
      rw [hget] at hnames
      exact absurd (Except.ok.inj hnames).symm hne
  obtain ⟨j, hj, heq⟩ := Dict.isSome_get?_iff.mp hfound
  exact ⟨j, (hasId_of_byId hfolders hj).1, heq⟩

/-! ## The table of paths

The merge asks for the path of every workspace and folder at once.  The table answers as the walk
from each single identifier does. -/

section

variable {rs : List Resource} {paths : List (Json × FolderPath)}

/-- The path to an identifier among folders, if there is one. -/
def above (folders : List (Json × Resource)) (id : Json) : FolderPath :=
  ((namesAbove folders id).toOption).getD []

/-- A walk that succeeds gives the path. -/
theorem above_of_namesAbove {folders : List (Json × Resource)} {id : Json} {path : FolderPath}
    (h : namesAbove folders id = .ok path) : above folders id = path := by
  rw [above, h]
  rfl

/-- The folders and workspaces among resources, by their identifiers; what is above folders is
    known. -/
structure PathParts (rs : List Resource) (folders workspaces : List (Json × Resource)) : Prop where
  folders_eq : byId (ofKind "request_group" rs) = .ok folders
  workspaces_eq : byId (ofKind "workspace" rs) = .ok workspaces
  namesAbove : ∀ f ∈ folders, namesAbove folders f.1 = .ok (above folders f.1)

/-- The entries of workspaces. -/
def workspaceEntries (workspaces : List (Json × Resource)) : List (Json × FolderPath) :=
  workspaces.map fun w => (w.1, [])

/-- The entries of folders. -/
def folderEntries (folders : List (Json × Resource)) : List (Json × FolderPath) :=
  folders.map fun f => (f.1, above folders f.1)

/-- The table is put together from workspaces, which have the empty path, and folders. -/
theorem parts_of_folderPaths (h : folderPaths rs = .ok paths) : ∃ folders workspaces,
    PathParts rs folders workspaces ∧
    paths = Dict.putAll (workspaceEntries workspaces) (folderEntries folders) := by
  obtain ⟨folders, hfolders, h⟩ := bind_eq_ok_iff.mp h
  obtain ⟨workspaces, hworkspaces, h⟩ := bind_eq_ok_iff.mp h
  obtain ⟨entries, hentries, h⟩ := bind_eq_ok_iff.mp h
  have hstep : ∀ (f : Json × Resource) (e : Json × FolderPath),
      (do return (f.1, ← namesAbove folders f.1) : Except Fault (Json × FolderPath)) = .ok e ↔
        namesAbove folders f.1 = .ok (above folders f.1) ∧ e = (f.1, above folders f.1) := by
    intro f e
    refine bind_pure_eq_ok_iff_of_step (fun path => ⟨fun hpath => ?_, ?_⟩) (f.1, ·)
    · rw [above_of_namesAbove hpath]
      exact ⟨hpath, rfl⟩
    · rintro ⟨hpath, rfl⟩
      exact hpath
  obtain ⟨hnames, rfl⟩ := (mapM_eq_ok_iff_of_step hstep).mp hentries
  exact ⟨folders, workspaces, ⟨hfolders, hworkspaces, hnames⟩, (Except.ok.inj h).symm⟩

namespace PathParts

variable {folders workspaces : List (Json × Resource)} (h : PathParts rs folders workspaces)
include h

/-- What is listed among the folders is the identifier of one. -/
theorem hasId_folder {k : Json} (hk : k ∈ Dict.keys (folderEntries folders)) :
    HasId (ofKind "request_group" rs) k ∧ k.kind.isKey = true := by
  rw [folderEntries, Dict.keys, List.map_map] at hk
  exact hasId_of_byId h.folders_eq hk

/-- What is listed among the workspaces is the identifier of one. -/
theorem hasId_workspace {k : Json} (hk : k ∈ Dict.keys (workspaceEntries workspaces)) :
    HasId (ofKind "workspace" rs) k ∧ k.kind.isKey = true := by
  rw [workspaceEntries, Dict.keys, List.map_map] at hk
  exact hasId_of_byId h.workspaces_eq hk

/-- The path of a folder that is listed, however it is asked for. -/
theorem pathTo_folder {k i : Json} {path : FolderPath} (hk : (k, path) ∈ folderEntries folders)
    (hi : i.kind.isKey = true) (heq : (i == k) = true) : pathTo rs i = .ok path := by
  obtain ⟨f, hf, hfk⟩ := List.mem_map.mp hk
  obtain ⟨rfl, rfl⟩ := Prod.mk.inj hfk
  have hfkey : f.1.kind.isKey = true := (hasId_of_byId h.folders_eq (List.mem_map_of_mem hf)).2
  rw [pathTo_congr h.folders_eq hi hfkey heq]
  exact (pathTo_eq_ok_iff h.folders_eq).mpr ⟨hfkey, h.namesAbove f hf⟩

/-- What is asked for is looked for among folders first. -/
theorem get?_paths {i : Json} (hi : i.kind.isKey = true) :
    Dict.get? (Dict.putAll (workspaceEntries workspaces) (folderEntries folders)) i
      = (Dict.get? (folderEntries folders).reverse i).or (Dict.get? (workspaceEntries workspaces) i) :=
  comparable_keys.get?_putAll (fun _ hk => (h.hasId_workspace hk).2)
    (fun _ hk => (h.hasId_folder hk).2) hi

end PathParts

/-- Workspaces are listed with the empty path. -/
theorem path_of_workspaceEntries {workspaces : List (Json × Resource)} {k : Json} {path : FolderPath}
    (h : (k, path) ∈ workspaceEntries workspaces) : path = [] := by
  obtain ⟨w, -, heq⟩ := List.mem_map.mp h
  exact (congrArg Prod.snd heq).symm

variable (h : folderPaths rs = .ok paths)
include h

/-- It lists workspaces and folders, under their identifiers. -/
theorem hasId_of_mem_folderPaths {e : Json × FolderPath} (he : e ∈ paths) :
    (HasId (ofKind "workspace" rs) e.1 ∨ HasId (ofKind "request_group" rs) e.1) ∧
      e.1.kind.isKey = true := by
  obtain ⟨folders, workspaces, hparts, rfl⟩ := parts_of_folderPaths h
  rcases Dict.mem_keys_of_mem_putAll (Dict.mem_keys_of_mem he) with hid | hid
  · obtain ⟨hid, hkey⟩ := hparts.hasId_workspace hid
    exact ⟨.inl hid, hkey⟩
  · obtain ⟨hid, hkey⟩ := hparts.hasId_folder hid
    exact ⟨.inr hid, hkey⟩

/-- **What is listed under a path has that path.** -/
theorem pathTo_of_mem_folderPaths {e : Json × FolderPath} (he : e ∈ paths) (hne : e.2 ≠ []) :
    pathTo rs e.1 = .ok e.2 := by
  have hkey := (hasId_of_mem_folderPaths h he).2
  obtain ⟨folders, workspaces, hparts, rfl⟩ := parts_of_folderPaths h
  rcases Dict.mem_putAll he with hroot | ⟨k, hk, hsame⟩
  · exact absurd (path_of_workspaceEntries hroot) hne
  · rcases hsame with rfl | ⟨-, heq⟩
    · obtain ⟨f, hf, hfk⟩ := List.mem_map.mp hk
      obtain ⟨hid, hpath⟩ := Prod.mk.inj hfk
      rw [← hpath, ← hid]
      rw [← hid] at hkey
      exact (pathTo_eq_ok_iff hparts.folders_eq).mpr ⟨hkey, hparts.namesAbove f hf⟩
    · exact hparts.pathTo_folder hk hkey heq

/-- **Whatever is asked for is answered by the path to it.** The table is entered by the identifiers
    that were met on the walk, which may be spelled otherwise than the one that is asked for. -/
theorem get?_folderPaths {i : Json} (hi : i.kind.isKey = true) : ∃ path, pathTo rs i = .ok path ∧
    (Dict.get? paths i).getD [] = path ∧ (path ≠ [] → Dict.get? paths i = some path) := by
  obtain ⟨folders, workspaces, hparts, rfl⟩ := parts_of_folderPaths h
  rw [hparts.get?_paths hi]
  cases hfound : Dict.get? (folderEntries folders).reverse i with
  | some path =>
    -- a folder has it, in this spelling or another
    obtain ⟨k, hk, heq⟩ := Dict.exists_mem_of_get? hfound
    exact ⟨path, hparts.pathTo_folder (List.mem_reverse.mp hk) hi heq, rfl, fun _ => rfl⟩
  | none =>
    -- no folder has it, so the path is empty, and a workspace that has it is listed with that
    have hnone : Dict.get? folders i = none := by
      rw [← Option.not_isSome_iff_eq_none]
      intro hsome
      obtain ⟨k, hk, heq⟩ := Dict.isSome_get?_iff.mp hsome
      have hlisted : k ∈ Dict.keys (folderEntries folders).reverse := by
        rw [folderEntries, Dict.keys, List.map_reverse, List.mem_reverse, List.map_map]
        exact hk
      have hany := Dict.isSome_get?_iff.mpr ⟨k, hlisted, heq⟩
      rw [hfound] at hany
      exact absurd hany Bool.false_ne_true
    have hpath : namesAbove folders i = .ok [] := by
      rw [namesAbove_eq, hnone]
    refine ⟨[], (pathTo_eq_ok_iff hparts.folders_eq).mpr ⟨hi, hpath⟩, ?_, fun hne => absurd rfl hne⟩
    rw [Option.none_or]
    cases hroot : Dict.get? (workspaceEntries workspaces) i with
    | none => rfl
    | some path =>
      obtain ⟨k, hk, -⟩ := Dict.exists_mem_of_get? hroot
      exact path_of_workspaceEntries hk

/-- A workspace is listed with the empty path, unless a folder has its identifier.  Folders are
    entered last, so a folder with its identifier would go before it. -/
theorem get?_folderPaths_root {i w : Json} (hi : i.kind.isKey = true)
    (hw : HasId (ofKind "workspace" rs) w) (heq : (i == w) = true)
    (hno : ∀ j, HasId (ofKind "request_group" rs) j → (i == j) = false) :
    Dict.get? paths i = some [] := by
  obtain ⟨folders, workspaces, hparts, rfl⟩ := parts_of_folderPaths h
  have hnone : Dict.get? (folderEntries folders).reverse i = none := by
    rw [← Option.not_isSome_iff_eq_none, Dict.isSome_get?_iff]
    rintro ⟨k, hk, hik⟩
    rw [Dict.keys, List.map_reverse, List.mem_reverse] at hk
    exact absurd (hik.symm.trans (hno k (hparts.hasId_folder hk).1)) (by decide)
  have hlisted : (Dict.get? (workspaceEntries workspaces) i).isSome = true := by
    obtain ⟨k, hk, hik⟩ := Dict.isSome_get?_iff.mp (isSome_get?_byId hparts.workspaces_eq hi hw heq)
    refine Dict.isSome_get?_iff.mpr ⟨k, ?_, hik⟩
    rw [workspaceEntries, Dict.keys, List.map_map]
    exact hk
  obtain ⟨path, hpath⟩ := Option.isSome_iff_exists.mp hlisted
  obtain ⟨k, hk, -⟩ := Dict.exists_mem_of_get? hpath
  obtain rfl := path_of_workspaceEntries hk
  rw [hparts.get?_paths hi, hnone, hpath]
  rfl

end

/-! ## Folders by their paths

The inverse table.  Of several folders with one path it holds the last. -/

/-- A path can be looked up by if all its names can. -/
theorem lookupPath_eq_ok_iff {path key : FolderPath} :
    lookupPath path = .ok key ↔ KeyPath path ∧ key = path :=
  Persisted.mapM_lookupKey_eq_ok_iff

/-- The inverse of a table of paths, if all of these can be looked up by.  A path with a name that
    is no key, a list or an object, makes the look-up fault. -/
theorem foldersByPath_eq_ok_iff {paths : List (Json × FolderPath)} {table : List (FolderPath × Json)} :
    foldersByPath paths = .ok table ↔ (∀ e ∈ paths, KeyPath e.2) ∧
      table = Dict.ofList (paths.map fun e => (e.2, e.1)) := by
  have hstep : ∀ (e : Json × FolderPath) (f : FolderPath × Json),
      (do return (← lookupPath e.2, e.1) : Except Fault (FolderPath × Json)) = .ok f ↔
        KeyPath e.2 ∧ f = (e.2, e.1) :=
    fun e _ => bind_pure_eq_ok_iff_of_step (fun _ => lookupPath_eq_ok_iff) (·, e.1)
  rw [foldersByPath]
  exact bind_pure_eq_ok_iff_of_step (fun _ => mapM_eq_ok_iff_of_step hstep) Dict.ofList

section

variable {entries : List (Json × FolderPath)} {table : List (FolderPath × Json)}
  (htable : foldersByPath entries = .ok table)
include htable

/-- What is found by a path is listed under one. -/
theorem exists_mem_of_foldersByPath {path : FolderPath} {i : Json}
    (hget : Dict.get? table path = some i) : ∃ path', (i, path') ∈ entries := by
  obtain ⟨-, rfl⟩ := foldersByPath_eq_ok_iff.mp htable
  obtain ⟨k, hk, -⟩ := Dict.exists_mem_of_get? hget
  obtain ⟨path', hmem, -⟩ := Dict.mem_ofList hk
  obtain ⟨e, he, heq⟩ := List.mem_map.mp hmem
  obtain ⟨rfl, rfl⟩ := Prod.mk.inj heq
  exact ⟨e.2, he⟩

/-- Every path that is listed finds something. -/
theorem isSome_foldersByPath {k : Json} {path : FolderPath} (hmem : (k, path) ∈ entries)
    (hself : (path == path) = true) : (Dict.get? table path).isSome = true := by
  obtain ⟨hkeys, rfl⟩ := foldersByPath_eq_ok_iff.mp htable
  have hall : ∀ path ∈ Dict.keys (entries.map fun e => (e.2, e.1)), KeyPath path := by
    intro path hpath
    rw [Dict.keys, List.map_map] at hpath
    obtain ⟨e, he, rfl⟩ := List.mem_map.mp hpath
    exact hkeys e he
  rw [comparable_paths.get?_ofList hall (hkeys _ hmem)]
  refine Dict.isSome_get?_iff.mpr ⟨path, ?_, hself⟩
  rw [Dict.keys, List.map_reverse, List.mem_reverse, List.map_map]
  exact List.mem_map.mpr ⟨_, hmem, rfl⟩

end

section

variable {rs : List Resource} {paths : List (Json × FolderPath)} {table : List (FolderPath × Json)}
  (htable : foldersByPath (paths.filter fun p => !p.2.isEmpty) = .ok table)
include htable

/-- Where the empty path is left out, it is not the one that is listed. -/
theorem mem_of_get?_foldersByPath {path : FolderPath} {i : Json}
    (hget : Dict.get? table path = some i) : ∃ path', (i, path') ∈ paths ∧ path' ≠ [] := by
  obtain ⟨path', hmem⟩ := exists_mem_of_foldersByPath htable hget
  obtain ⟨hin, hne⟩ := List.mem_filter.mp hmem
  exact ⟨path', hin, by simpa using hne⟩

variable (hpaths : folderPaths rs = .ok paths)
include hpaths

/-- **What is found by a path is a folder with that path.** -/
theorem pathTo_of_get?_foldersByPath {p : List String} {i : Json}
    (hget : Dict.get? table (p.map .str) = some i) :
    p ≠ [] ∧ pathTo rs i = .ok (p.map .str) := by
  obtain ⟨-, rfl⟩ := foldersByPath_eq_ok_iff.mp htable
  have hentry := Dict.mem_of_get?_ofList (fun _ => eq_of_texts_beq) hget
  obtain ⟨e, he, heq⟩ := List.mem_map.mp hentry
  obtain ⟨hin, hne⟩ := List.mem_filter.mp he
  obtain ⟨hpath, rfl⟩ := Prod.mk.inj heq
  have hne : e.2 ≠ [] := by simpa using hne
  refine ⟨?_, hpath ▸ pathTo_of_mem_folderPaths hpaths hin hne⟩
  rintro rfl
  exact hne hpath

/-- **A path that a folder has finds one.** -/
theorem isSome_get?_foldersByPath {p : List String} {i : Json}
    (hpath : pathTo rs i = .ok (p.map .str)) (hne : p ≠ []) :
    (Dict.get? table (p.map .str)).isSome = true := by
  have hne : p.map Json.str ≠ [] := fun hnil => hne (List.map_eq_nil_iff.mp hnil)
  obtain ⟨folders, hfolders, -⟩ := bind_eq_ok_iff.mp hpath
  obtain ⟨hkey, -⟩ := (pathTo_eq_ok_iff hfolders).mp hpath
  obtain ⟨path, hpath', -, hget⟩ := get?_folderPaths hpaths hkey
  obtain rfl := Except.ok.inj (hpath'.symm.trans hpath)
  obtain ⟨k, hk, -⟩ := Dict.exists_mem_of_get? (hget hne)
  have hin : (k, p.map Json.str) ∈ paths.filter fun p => !p.2.isEmpty := by
    refine List.mem_filter.mpr ⟨hk, ?_⟩
    rw [Bool.not_eq_true', ← Bool.not_eq_true, List.isEmpty_iff]
    exact hne
  exact isSome_foldersByPath htable hin (texts_beq_iff.mpr rfl)

end

end RouteAtlas.Insomnia
