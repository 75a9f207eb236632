/-
  Where the folders of an export are.

  ==== Program ====

  Folders name their parents by identifier.  The merge computes the path of each folder by going up
  from parent to parent, and takes every folder it passes out of the table, so that it comes to an
  end even where parents go round in circles.

  ==== Spec ====

  In an export whose identifiers are told by the places they stand for (`Identified`), going up from
  a folder gives its path: the names on the way are its parts (`namesAbove_folderAt`).  So
  `folderPaths` is the table from identifiers to places (`folderPaths_eq`), and turned round, the
  table from places to identifiers (`foldersByPath_eq`).

  ==== The crux ====

  The induction is on the path, and what it needs is that the folders above are still there once
  some have been taken out: a folder that was passed is longer than they are (`above_still_left`).
-/
import RouteAtlas.Insomnia.Merge
import RouteAtlas.Proofs.Insomnia.Listing
import RouteAtlas.Proofs.Json.Index
import RouteAtlas.Proofs.Json.Sameness
import RouteAtlas.Proofs.Persisted.Success

namespace RouteAtlas.Insomnia

open Persisted (lookupKey lookupKey_of_key bind_eq_ok_iff mapM_eq_ok_of_forall)
open Resource (ofKind fieldOrNull byId)

/-- The folder with a path, as a resource; `id` gives the identifiers of folders, and of the
    workspace for the empty path. -/
def folderAt (id : List String → Json) (path : List String) : Resource :=
  [("_id", id path), ("_type", .str "request_group"), ("parentId", id path.dropLast),
    ("name", .str (path.getLastD ""))]

/-- Identifiers of the workspace and of folders that can be looked up by and are told apart. -/
structure Identified (id : List String → Json) (paths : List (List String)) : Prop where
  tells : Dict.Tells id ([] :: paths)
  key : ∀ p ∈ [] :: paths, (id p).kind.isKey = true

/-! ## Looking up

Places are looked up by their paths, which are lists of texts, and by their identifiers. -/

/-- A path of texts can be looked up by. -/
theorem lookupPath_texts (path : List String) :
    lookupPath (path.map .str) = .ok (path.map .str) := by
  refine Persisted.mapM_lookupKey_eq_ok_iff.mpr ⟨fun j hj => ?_, rfl⟩
  obtain ⟨s, -, rfl⟩ := List.mem_map.mp hj
  rfl

/-- A path of texts equals itself only. -/
theorem eq_of_texts_beq {p : List String} {path : FolderPath}
    (h : (p.map Json.str == path) = true) : path = p.map Json.str := by
  induction p generalizing path with
  | nil =>
    cases path with
    | nil => rfl
    | cons b path => exact absurd h (by simp)
  | cons a p ih =>
    cases path with
    | nil => exact absurd h (by simp)
    | cons b path =>
      rw [List.map_cons, List.cons_beq_cons, Bool.and_eq_true, Json.str_beq_iff] at h
      rw [h.1, ih h.2, List.map_cons]

/-- Paths of texts count as one exactly if they are the same. -/
theorem texts_beq_iff {p q : List String} : (p.map Json.str == q.map Json.str) = true ↔ p = q := by
  constructor
  · intro h
    have hstr : Function.Injective Json.str := fun _ _ h => Json.str.inj h
    exact (List.map_injective_iff.mpr hstr (eq_of_texts_beq h)).symm
  · rintro rfl
    induction p with
    | nil => rfl
    | cons a p ih =>
      rw [List.map_cons, List.cons_beq_cons, ih, Bool.and_true]
      exact Json.str_beq_iff.mpr rfl

/-- Paths of texts are told apart. -/
theorem tells_texts (paths : List (List String)) :
    Dict.Tells (fun p : List String => p.map Json.str) paths := fun _ _ _ _ => texts_beq_iff

/-! ## Going up

The folders that were passed are taken out on the way.  What is still needed for the rest of the way
is shorter than what was passed, so it is left. -/

section

variable {id : List String → Json} {paths : List (List String)}

/-- Once a folder is passed, the folders above it are still there: they are shorter. -/
theorem above_still_left {left : List (List String)} {p : List String} {name : String}
    (h : ∀ q, q <+: p ++ [name] → q ≠ [] → q ∈ left) :
    ∀ q, q <+: p → q ≠ [] → q ∈ left.filter (· ≠ p ++ [name]) := by
  intro q hq hne
  refine List.mem_filter.mpr ⟨h q (hq.trans (List.prefix_append _ _)) hne, ?_⟩
  have hlen := hq.length_le
  have hother : q ≠ p ++ [name] := by
    rintro rfl
    rw [List.length_append, List.length_singleton] at hlen
    omega
  exact decide_eq_true hother

/-- **Going up from a folder gives its path**, as long as the folders on the way are there.  The
    induction takes the last name off the place, and the folders that are left still hold those
    further up. -/
theorem namesAbove_folderAt (hid : Identified id paths) {left : List (List String)}
    (hleft : ∀ p ∈ left, p ∈ paths) (hroot : [] ∉ paths) {p : List String}
    (hp : ∀ q, q <+: p → q ≠ [] → q ∈ left) (hmem : p ∈ [] :: paths) :
    namesAbove (left.map fun q => (id q, folderAt id q)) (id p) = .ok (p.map .str) := by
  have hplaces : ∀ q ∈ left, q ∈ [] :: paths := fun q hq => List.mem_cons_of_mem _ (hleft q hq)
  induction p using List.reverseRecOn generalizing left with
  -- the workspace is no folder, so the way ends here
  | nil =>
    have hno : ([] : List String) ∉ left := fun h => hroot (hleft [] h)
    have hnone := Dict.get?_index_of_not_mem hid.tells (folderAt id) hplaces hmem hno
    rw [namesAbove]
    split
    · rfl
    · rename_i r hr
      exact absurd (hnone.symm.trans hr) (by simp)
  -- the folder itself is found and taken out, and the way goes on above it
  | append_singleton p name ih =>
    have hin : p ++ [name] ∈ left := hp _ (List.prefix_refl _) (by simp)
    have hsome := Dict.get?_index hid.tells (folderAt id) hplaces hin
    have habove : p ∈ [] :: paths := by
      by_cases hnil : p = []
      · exact hnil ▸ List.mem_cons_self ..
      · exact hplaces p (hp p (List.prefix_append _ _) hnil)
    rw [namesAbove]
    split
    · rename_i hr
      exact absurd (hsome.symm.trans hr) (by simp)
    · rename_i r hr
      obtain rfl := Option.some.inj (hsome.symm.trans hr)
      have hparent : fieldOrNull (folderAt id (p ++ [name])) "parentId" = id p := by
        show id (p ++ [name]).dropLast = id p
        rw [List.dropLast_concat]
      have hrest := ih (fun q hq => hleft q (List.mem_filter.mp hq).1) (above_still_left hp) habove
        fun q hq => hplaces q (List.mem_filter.mp hq).1
      rw [hparent, lookupKey_of_key (hid.key p habove)]
      refine bind_eq_ok_iff.mpr ⟨_, rfl, ?_⟩
      rw [without, Dict.filter_index hid.tells (folderAt id) hplaces hmem]
      refine bind_eq_ok_iff.mpr ⟨_, hrest, ?_⟩
      show Except.ok (p.map Json.str ++ [.str ((p ++ [name]).getLastD "")]) = _
      rw [List.getLastD_concat, List.map_append]
      rfl

/-! ## All folders

The tables that a merge makes of all folders at once: by identifier, from identifier to path, and
from path to identifier. -/

/-- Resources that all have an identifier are listed under it. -/
theorem byId_of_index {rs : List Resource} (hkey : ∀ r ∈ rs, ∃ j, Dict.get? r "_id" = some j ∧
    j.kind.isKey = true) : byId rs = .ok (Dict.ofList (rs.map fun r => (fieldOrNull r "_id", r))) := by
  have hall : rs.filter (Dict.has · "_id") = rs := by
    refine List.filter_eq_self.mpr fun r hr => ?_
    obtain ⟨j, hj, -⟩ := hkey r hr
    show (Dict.get? r "_id").isSome = true
    rw [hj]
    rfl
  have hmap := mapM_eq_ok_of_forall (f := fun r => do
      return (← lookupKey (fieldOrNull r "_id"), r)) (g := fun r => (fieldOrNull r "_id", r)) (l := rs)
    fun r hr => by
      obtain ⟨j, hj, hk⟩ := hkey r hr
      rw [fieldOrNull, hj, Option.getD_some, lookupKey_of_key hk]
      rfl
  rw [byId, hall]
  exact bind_eq_ok_iff.mpr ⟨_, hmap, rfl⟩

/-- The folders of an export are listed under their identifiers, each once. -/
theorem byId_folderAt (hid : Identified id paths) (hrooted : Rooted paths) :
    byId (paths.map (folderAt id)) = .ok (paths.map fun p => (id p, folderAt id p)) := by
  have hsub : ∀ p ∈ paths, p ∈ [] :: paths := fun p hp => List.mem_cons_of_mem _ hp
  rw [byId_of_index, List.map_map]
  · exact congrArg _ (Dict.ofList_index hid.tells (folderAt id) hsub hrooted.nodup)
  · intro r hr
    obtain ⟨p, hp, rfl⟩ := List.mem_map.mp hr
    exact ⟨id p, rfl, hid.key p (hsub p hp)⟩

/-- **The paths of the folders of an export are the places they stand for.** The table lists the
    workspace first and then the folders in their order, since no identifier is entered twice. -/
theorem folderPaths_eq (hid : Identified id paths) (hrooted : Rooted paths) {rs : List Resource}
    {workspace : Resource} (hfolders : ofKind "request_group" rs = paths.map (folderAt id))
    (hworkspace : ofKind "workspace" rs = [workspace])
    (hwid : Dict.get? workspace "_id" = some (id [])) :
    folderPaths rs = .ok (([] :: paths).map fun p => (id p, p.map .str)) := by
  have hsub : ∀ p ∈ paths, p ∈ [] :: paths := fun p hp => List.mem_cons_of_mem _ hp
  have hgroups : byId (ofKind "request_group" rs)
      = .ok (paths.map fun p => (id p, folderAt id p)) := by
    rw [hfolders]
    exact byId_folderAt hid hrooted
  have hroots : byId (ofKind "workspace" rs) = .ok [(id [], workspace)] := by
    rw [hworkspace, byId_of_index]
    · rw [List.map_singleton, fieldOrNull, hwid]
      rfl
    · intro r hr
      obtain rfl := List.mem_singleton.mp hr
      exact ⟨id [], hwid, hid.key [] (List.mem_cons_self ..)⟩
  -- the walk from each folder, in the order of the list
  have hnames := mapM_eq_ok_of_forall
    (f := fun e : Json × Resource => do
      return (e.1, ← namesAbove (paths.map fun p => (id p, folderAt id p)) e.1))
    (g := fun e => (e.1, ((Dict.get? (paths.map fun p => (id p, p.map Json.str)) e.1).getD [])))
    (l := paths.map fun p => (id p, folderAt id p)) fun e he => by
      obtain ⟨p, hp, rfl⟩ := List.mem_map.mp he
      refine bind_eq_ok_iff.mpr ⟨_, namesAbove_folderAt hid (fun _ h => h) hrooted.not_root
        (fun q hq hne => hrooted.mem_of_prefix hp hq hne) (hsub p hp), ?_⟩
      rw [Dict.get?_index hid.tells _ hsub hp]
      rfl
  rw [folderPaths]
  refine bind_eq_ok_iff.mpr ⟨_, hgroups, bind_eq_ok_iff.mpr ⟨_, hroots, ?_⟩⟩
  refine bind_eq_ok_iff.mpr ⟨_, hnames, ?_⟩
  have hpaths : (paths.map fun p => (id p, folderAt id p)).map (fun e =>
      (e.1, ((Dict.get? (paths.map fun p => (id p, p.map Json.str)) e.1).getD [])))
      = paths.map fun p => (id p, p.map Json.str) := by
    rw [List.map_map]
    refine List.map_congr_left fun p hp => ?_
    show (id p, (Dict.get? _ (id p)).getD []) = _
    rw [Dict.get?_index hid.tells _ hsub hp]
    rfl
  have hput := @Dict.putAll_index _ _ _ _ id ([] :: paths) hid.tells (fun p => p.map Json.str)
    [[]] paths (fun _ h => h) hrooted.nodup_places
  rw [hpaths]
  exact congrArg Except.ok hput

/-- The other way round, every path gives its folder. -/
theorem foldersByPath_eq (id : List String → Json) {places : List (List String)}
    (h : places.Nodup) : foldersByPath (places.map fun p => (id p, p.map .str))
      = .ok (places.map fun p => (p.map .str, id p)) := by
  have hmap := mapM_eq_ok_of_forall
    (f := fun e : Json × FolderPath => do return (← lookupPath e.2, e.1))
    (g := fun e => (e.2, e.1)) (l := places.map fun p => (id p, p.map Json.str)) fun e he => by
      obtain ⟨p, -, rfl⟩ := List.mem_map.mp he
      rw [lookupPath_texts]
      rfl
  rw [List.map_map] at hmap
  refine bind_eq_ok_iff.mpr ⟨_, hmap, ?_⟩
  exact congrArg Except.ok (Dict.ofList_index (tells_texts places) id (fun _ h => h) h)

end

end RouteAtlas.Insomnia
