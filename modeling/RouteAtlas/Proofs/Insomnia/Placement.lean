/-
  Where folders and requests are after a merge.

  ==== Problem ====

  A merge reads paths off parents in three exports: in the persisted one, to find folders by their
  paths; in the fresh one, to look them up; and in what is merged, to put aside what is gone.
  Identifiers are exchanged in between.  Users have moved, renamed and broken what was persisted.

  ==== Spec ====

  `Placement` says what has to be the same afterwards, and `placement_of_merge` that it is, as long
  as the merged identifiers are told apart:

  * a request whose key is fresh is in the folders that it is in in the fresh export;
  * one that is put aside is in the folder with its old path, if the fresh export has one, and else
    in the workspace;
  * a folder whose path was persisted, the workspace and the base environment have identifiers that
    were persisted for such.

  ==== The crux ====

  Both the fresh folders and the merged ones stand for places, under identifiers of their own, and
  going up from a place gives its path whatever the identifiers are (`pathTo_place`).  So nothing
  has to be known about how identifiers are exchanged.  It is the persisted export alone that is
  read as it is (`pathTo`).
-/
import RouteAtlas.Proofs.Insomnia.Merged

namespace RouteAtlas.Insomnia

open Json (comparable_paths)
open Persisted (lookupKey_eq_ok_iff bind_eq_ok_iff ok_bind)
open Resource (isA ofKind byId)

/-! ## What is placed where

Where requests and folders of a merged export are, said of the two exports and of nothing that the
merge computes on the way. -/

/-- The identifier is that of a folder, and the folder has the path. -/
def UsedFor (rs : List Resource) (i : Json) (path : FolderPath) : Prop :=
  (∃ j, HasId (ofKind "request_group" rs) j ∧ (i == j) = true) ∧ pathTo rs i = .ok path

/-- A request of `merged` has the key of a fresh one and is in the folders that that one is in. -/
def StandsWhere (fresh merged : List Resource) (f r : Resource) : Prop :=
  ∃ key path, key? f = .ok (some key) ∧ key? r = .ok (some key) ∧
    pathOf fresh f = .ok path ∧ pathOf merged r = .ok path

/-- A request of `merged` is a persisted one that no fresh one has the key of.  It is in the folder
    with the path that it had, if the fresh export has such a folder, and else in the workspace. -/
def AsideWhere (fresh existing merged : List Resource) (l : Resource) : Prop :=
  ∃ key old path, persistedRequest? existing key = some old ∧ key ∉ requestKeys fresh ∧
    PutAside old l ∧ pathOf existing old = .ok path ∧
    ((∃ i, UsedFor fresh i path) → pathOf merged l = .ok path) ∧
    ((¬∃ i, UsedFor fresh i path) → ∃ w ∈ ofKind "workspace" merged,
      Dict.get? l "parentId" = Dict.get? w "_id")

/-- A folder of `merged` has the path of a fresh one, and an identifier that was persisted for that
    path, if any was. -/
def FolderWhere (fresh existing merged : List Resource) (f g : Resource) : Prop :=
  ∃ i j path, Dict.get? f "_id" = some i ∧ Dict.get? g "_id" = some j ∧
    UsedFor fresh i path ∧ UsedFor merged j path ∧
    ((∃ k, UsedFor existing k path) → UsedFor existing j path)

/-- Placement survives: what `fresh` and `existing` say about it holds of `merged`. -/
structure Placement (fresh existing merged : List Resource) : Prop where
  requests : ∃ stand aside, ofKind "request" merged = stand ++ aside ∧
    List.Forall₂ (StandsWhere fresh merged) (ofKind "request" fresh) stand ∧
    ∀ l ∈ aside, AsideWhere fresh existing merged l
  folders : List.Forall₂ (FolderWhere fresh existing merged) (ofKind "request_group" fresh)
    (ofKind "request_group" merged)
  workspace : ∃ w i, ofKind "workspace" merged = [w] ∧ Dict.get? w "_id" = some i ∧
    (ofKind "workspace" existing ≠ [] → HasId (ofKind "workspace" existing) i)
  environment : ∃ b i, baseEnvironment? merged = some b ∧ Dict.get? b "_id" = some i ∧
    (ofKind "environment" existing ≠ [] → HasId (ofKind "environment" existing) i)

/-! ## Folders that stand for places

The identifiers of a merged export may be fresh or persisted.  Either way, a folder is found by
going up from it. -/

section

variable {id : List String → Json} {places : List (List String)} {rs : List Resource}
  (hid : Identified id places) (hrooted : Rooted places)
  (hfolders : ofKind "request_group" rs = places.map (folderAt id))
include hid hrooted hfolders

/-- **Going up from a place gives its path**, whatever the identifiers are. -/
theorem pathTo_place {p : List String} (hp : p ∈ [] :: places) :
    pathTo rs (id p) = .ok (p.map .str) := by
  have htable : byId (ofKind "request_group" rs) = .ok (places.map fun p => (id p, folderAt id p)) := by
    rw [hfolders, byId_folderAt hid hrooted]
  refine (pathTo_eq_ok_iff htable).mpr ⟨hid.key p hp, ?_⟩
  refine namesAbove_folderAt hid (fun _ h => h) hrooted.not_root (fun q hq hne => ?_) hp
  rcases List.mem_cons.mp hp with rfl | hp
  · exact absurd (List.prefix_nil.mp hq) hne
  · exact hrooted.mem_of_prefix hp hq hne

/-- The folder of a place is used for that place. -/
theorem usedFor_place {p : List String} (hp : p ∈ places) : UsedFor rs (id p) (p.map .str) := by
  have hplace := List.mem_cons_of_mem [] hp
  refine ⟨⟨id p, ⟨folderAt id p, ?_, rfl⟩, (hid.tells p hplace p hplace).mpr rfl⟩,
    pathTo_place hid hrooted hfolders hplace⟩
  rw [hfolders]
  exact List.mem_map_of_mem hp

/-- The paths that are used are those of the places. -/
theorem exists_usedFor_iff {path : FolderPath} :
    (∃ i, UsedFor rs i path) ↔ ∃ p ∈ places, path = p.map .str := by
  constructor
  · rintro ⟨i, ⟨j, ⟨f, hf, hj⟩, heq⟩, hpath⟩
    rw [hfolders] at hf
    obtain ⟨p, hp, rfl⟩ := List.mem_map.mp hf
    obtain rfl := Option.some.inj hj
    have hplace := List.mem_cons_of_mem [] hp
    obtain ⟨folders, htable, -⟩ := bind_eq_ok_iff.mp hpath
    have hkey := ((pathTo_eq_ok_iff htable).mp hpath).1
    -- the identifier may be spelled in another way
    have hsame := pathTo_congr htable hkey (hid.key p hplace) heq
    have hplaced := pathTo_place hid hrooted hfolders hplace
    exact ⟨p, hp, Except.ok.inj (hpath.symm.trans (hsame.trans hplaced))⟩
  · rintro ⟨p, hp, rfl⟩
    exact ⟨id p, usedFor_place hid hrooted hfolders hp⟩

end

/-! ## What is put aside

A request that no endpoint has goes where its old path leads now, and otherwise to the workspace. -/

/-- **What is put aside goes to the place with its old path**, or to the workspace.  The path is
    looked up in a table that knows the root too, and a path that is not in it goes to the root as
    well. -/
theorem parent_of_leftover {id : List String → Json} {places : List (List String)}
    {existing : List Resource} {oldPaths : List (Json × FolderPath)}
    (holdPaths : folderPaths existing = .ok oldPaths) {old l : Resource}
    (h : leftover oldPaths (([] :: places).map fun p => (p.map .str, id p)) old = .ok l) :
    ∃ path, pathOf existing old = .ok path ∧
      (∀ p ∈ places, path = p.map .str → Dict.get? l "parentId" = some (id p)) ∧
      ((∀ p ∈ places, path ≠ p.map .str) → Dict.get? l "parentId" = some (id [])) := by
  obtain ⟨name, -, h⟩ := bind_eq_ok_iff.mp h
  obtain ⟨parent, hparent, h⟩ := bind_eq_ok_iff.mp h
  obtain ⟨path, hlookup, h⟩ := bind_eq_ok_iff.mp h
  obtain ⟨hkey, rfl⟩ := lookupKey_eq_ok_iff.mp hparent
  obtain ⟨hpathKey, rfl⟩ := lookupPath_eq_ok_iff.mp hlookup
  obtain ⟨path, hpath, hget, -⟩ := get?_folderPaths holdPaths hkey
  rw [hget] at h hpathKey
  obtain rfl := Except.ok.inj h
  have hfound : ∀ {p : List String}, p ∈ [] :: places →
      Dict.get? (([] :: places).map fun p => (p.map Json.str, id p)) (p.map .str) = some (id p) :=
    fun hp => Dict.get?_index (tells_texts ([] :: places)) id (fun _ h => h) hp
  have hroot := hfound (List.mem_cons_self (a := []) (l := places))
  rw [List.map_nil] at hroot
  refine ⟨path, hpath, fun p hp hplace => ?_, fun hno => ?_⟩
  · rw [Dict.putAll_cons, Dict.putAll_cons, Dict.putAll_nil, Dict.get?_put_self, hplace,
      hfound (List.mem_cons_of_mem _ hp)]
    rfl
  · rw [Dict.putAll_cons, Dict.putAll_cons, Dict.putAll_nil, Dict.get?_put_self, hroot]
    cases hother : Dict.get? (([] :: places).map fun p => (p.map Json.str, id p)) path with
    | none => rfl
    | some i =>
      -- what is found is the workspace: no place has the path
      obtain ⟨k, hk, heq⟩ := Dict.exists_mem_of_get? hother
      obtain ⟨q, hq, hqk⟩ := List.mem_map.mp hk
      obtain ⟨rfl, rfl⟩ := Prod.mk.inj hqk
      have hqkey : Json.KeyPath (q.map Json.str) := by
        intro j hj
        obtain ⟨s, -, rfl⟩ := List.mem_map.mp hj
        rfl
      have hback := comparable_paths.symm hpathKey hqkey heq
      have hpathq := eq_of_texts_beq hback
      rcases List.mem_cons.mp hq with rfl | hq
      · rfl
      · exact absurd hpathq (hno q hq)

/-! ## Merged exports

The parts of `Placement`, one lemma each, and `placement` from them. -/

section

variable {settings : Settings} {endpoints : List Endpoint} {existing merged : List Resource}

/-- Fresh identifiers tell the places if their new names do. -/
theorem identified_of_placeId {names : List (Json × Json)}
    (h : Identified (placeId names settings) (placesOf settings endpoints)) :
    Identified (freshId settings) (placesOf settings endpoints) := by
  refine identified_fresh fun p hp q hq heq => (h.tells p hp q hq).mp ?_
  have hsame : placeId names settings p = placeId names settings q := congrArg (newName names) heq
  rw [← hsame]
  exact (h.tells p hp p hp).mpr rfl

/-- The requests are those of the entries, one by one.  Folder entries are left out on both sides,
    which keeps the two lists in step. -/
theorem requests_of_fromEntry {id : List String → Json} {es : List Entry} {rs : List Resource}
    (h : List.Forall₂ (FromEntry settings existing id) es rs) :
    List.Forall₂ (fun f r => ∃ path e, .request path e ∈ es ∧
        f = requestOf settings.serviceNames (parentIn (workspaceOf settings) path) e ∧
        FromEntry settings existing id (.request path e) r)
      (ofKind "request" (es.map (Entry.fresh settings.serviceNames (workspaceOf settings))))
      (ofKind "request" rs) := by
  induction h with
  | nil => exact .nil
  | @cons entry r es rs hr _ ih =>
    have hlater : ∀ path e, .request path e ∈ es → .request path e ∈ entry :: es :=
      fun _ _ hentry => List.mem_cons_of_mem _ hentry
    have hrest := ih.imp fun f r hfrom => hfrom.imp fun path => Exists.imp fun e hfrom' =>
      And.imp_left (hlater path e) hfrom'
    cases entry with
    | folder path =>
      cases hr
      exact hrest
    | request path e =>
      have hkind : isA "request" r = true := by
        cases hr with
        | request stands _ _ => exact stands.kind
      rw [List.map_cons, ofKind_cons_of_isA rfl, ofKind_cons_of_isA hkind]
      exact .cons ⟨path, e, List.mem_cons_self .., rfl, hr⟩ hrest

/-- The fresh requests are those of the entries, in their order. -/
theorem requests_fresh (settings : Settings) (endpoints : List Endpoint) :
    ofKind "request" (resources settings endpoints) = ofKind "request"
      ((allEntries settings endpoints).map (Entry.fresh settings.serviceNames (workspaceOf settings))) := by
  rw [resources_eq, ofKind_cons_of_not rfl, ofKind_cons_of_not rfl]

namespace Parts

variable {mark : Bool} (parts : Parts settings endpoints existing mark merged)

/-- Where the merged identifiers are told apart, they tell the places. -/
theorem identified (hids : DistinctIds merged) :
    Identified parts.id (placesOf settings endpoints) := by
  have hskip : (workspaceAt settings (parts.id []) :: parts.rest).Sublist parts.refreshed :=
    (List.sublist_cons_self parts.environment parts.rest).cons_cons _
  have hfront : parts.refreshed.Sublist parts.front := List.sublist_append_left _ _
  have hall : DistinctIds (parts.front ++ parts.passed) := parts.eq_front ▸ hids
  exact identified_of_distinctIds (folders_of_fromEntry parts.rest_from)
    (hall.sublist ((hskip.trans hfront).trans (List.sublist_append_left _ _)))
    fun r hr => parts.keys r ((hskip.trans hfront).subset hr)

variable (hids : DistinctIds merged)
include parts hids

/-- What stands for an endpoint is where the fresh request is. -/
theorem standsWhere : List.Forall₂ (StandsWhere (resources settings endpoints) merged)
    (ofKind "request" (resources settings endpoints)) (ofKind "request" parts.rest) := by
  have hid := parts.identified hids
  have hrooted := rooted_allEntries settings endpoints
  rw [requests_fresh]
  refine (requests_of_fromEntry parts.rest_from).imp ?_
  rintro _ r ⟨path, e, hentry, rfl, hfrom⟩
  have hplaced := entries_placed hentry
  cases hfrom with
  | request stands parent _ =>
    refine ⟨requestKey settings.serviceNames e, path.map .str, key?_requestOf .., stands.key, ?_, ?_⟩
    · exact pathTo_place (identified_of_placeId hid) hrooted (folders_fresh settings endpoints) hplaced
    · rw [pathOf, fieldOrNull_of_get? parent]
      exact pathTo_place hid hrooted parts.folders hplaced

/-- What is put aside is in the folder with its old path or in the workspace.  The fresh folders and
    the places of the merged export are the same paths, and the persisted path is compared with
    them. -/
theorem asideWhere {l : Resource} (hl : l ∈ parts.left) :
    AsideWhere (resources settings endpoints) existing merged l := by
  have hid := parts.identified hids
  have hrooted := rooted_allEntries settings endpoints
  obtain ⟨oldPaths, paths, table, holdPaths, hpaths, htable, ⟨key, old⟩, hgone, hstep⟩ :=
    parts.leftover_of_left hl
  have hplaced := folderPaths_eq hid hrooted parts.folders_refreshed parts.workspaces_refreshed rfl
  obtain rfl := Except.ok.inj (hplaced.symm.trans hpaths)
  rw [foldersByPath_eq parts.id hrooted.nodup_places] at htable
  obtain rfl := Except.ok.inj htable
  obtain ⟨hold, hno⟩ := mem_gone.mp hgone
  obtain ⟨path, hpath, hplace, hroot⟩ := parent_of_leftover holdPaths hstep
  have hused : (∃ i, UsedFor (resources settings endpoints) i path) ↔ _ :=
    exists_usedFor_iff (identified_of_placeId hid) hrooted (folders_fresh settings endpoints)
  refine ⟨key, old, path, hold, ?_, putAside_of_leftover hstep, hpath, fun hthere => ?_,
    fun hnone => ?_⟩
  · rwa [requestKeys_fresh]
  · -- the fresh folder with the old path is a place, and places keep their paths
    obtain ⟨p, hp, rfl⟩ := hused.mp hthere
    rw [pathOf, fieldOrNull_of_get? (hplace p hp rfl)]
    exact pathTo_place hid hrooted parts.folders (List.mem_cons_of_mem _ hp)
  · refine ⟨workspaceAt settings (parts.id []), ?_, hroot fun p hp heq => ?_⟩
    · rw [parts.workspaces]
      exact List.mem_singleton_self _
    · exact hnone (hused.mpr ⟨p, hp, heq⟩)

/-- Folders keep their paths, under identifiers that were persisted for them. -/
theorem foldersWhere : List.Forall₂ (FolderWhere (resources settings endpoints) existing merged)
    (ofKind "request_group" (resources settings endpoints)) (ofKind "request_group" merged) := by
  have hid := parts.identified hids
  have hfresh := identified_of_placeId hid
  have hrooted := rooted_allEntries settings endpoints
  have hfolders := folders_fresh settings endpoints
  have hmerged := parts.folders
  have hplaces : ∀ p ∈ placesOf settings endpoints, FolderWhere (resources settings endpoints)
      existing merged (folderAt (freshId settings) p) (folderAt parts.id p) := by
    intro p hp
    refine ⟨freshId settings p, parts.id p, p.map .str, rfl, rfl,
      usedFor_place hfresh hrooted hfolders hp, usedFor_place hid hrooted hmerged hp, ?_⟩
    rintro ⟨k, -, hk⟩
    have hpath := pathTo_placeId parts.names hfresh hp ⟨k, hk⟩
    have hne : p.map Json.str ≠ [] := fun hnil =>
      hrooted.not_root (List.map_eq_nil_iff.mp hnil ▸ hp)
    exact ⟨exists_folder_of_pathTo hpath hne, hpath⟩
  rw [hfolders, hmerged, List.forall₂_map_left_iff, List.forall₂_map_right_iff, List.forall₂_same]
  exact hplaces

/-- **Placement survives.** -/
theorem placement : Placement (resources settings endpoints) existing merged := by
  have hid := parts.identified hids
  have hself : (parts.id [] == parts.id []) = true :=
    (hid.tells [] (List.mem_cons_self ..) [] (List.mem_cons_self ..)).mpr rfl
  constructor
  case requests => exact ⟨_, _, parts.requests, parts.standsWhere hids, fun _ => parts.asideWhere hids⟩
  case folders => exact parts.foldersWhere hids
  case workspace =>
    refine ⟨_, parts.id [], parts.workspaces, rfl, fun hsome => ?_⟩
    obtain ⟨w, hw⟩ := Option.isSome_iff_exists.mp (List.isSome_head?.mpr hsome)
    exact ⟨w, List.mem_of_head? hw, placeId_root parts.names hw⟩
  case environment =>
    have hmem : parts.environment ∈ ofKind "environment" merged := by
      rw [parts.environments]
      exact List.mem_cons_self ..
    obtain ⟨i, hi, -⟩ := hids.has _ (List.mem_filter.mp hmem).1
    exact ⟨_, i, parts.baseEnvironment hself, hi, fun hsome => parts.hasId_environment hsome hi⟩

end Parts

/-! ## Documents

Without a persisted document nothing is renamed; with one the resources are merged.  Both cases come
down to the merge of resources. -/

/-- Where nothing was persisted, nothing is renamed.  None of the three tables has an entry. -/
theorem newNames_nil (hids : DistinctIds (resources settings endpoints)) :
    newNames (resources settings endpoints) [] = .ok [] := by
  have hframe : ∀ fresh : List Resource, standIn fresh [] = .ok [] := by
    intro fresh
    cases fresh <;> rfl
  have hpaths := folderPaths_fresh (identified_of_distinctIds_fresh hids)
  have hfolders := Persisted.filterMapM_eq_ok_of_forall
    (f := fun e : Json × FolderPath => do
      return (Dict.get? ([] : List (FolderPath × Json)) (← lookupPath e.2)).map (e.1, ·))
    (g := fun _ => none) (l := ([] :: placesOf settings endpoints).map fun p =>
      (freshId settings p, p.map Json.str)) fun e he => by
        obtain ⟨p, -, rfl⟩ := List.mem_map.mp he
        rw [lookupPath_texts]
        rfl
  rw [List.filterMap_none] at hfolders
  rw [newNames]
  refine bind_eq_ok_iff.mpr ⟨[], hframe _, bind_eq_ok_iff.mpr ⟨[], rfl, ?_⟩⟩
  refine bind_eq_ok_iff.mpr ⟨[], hframe _, bind_eq_ok_iff.mpr ⟨[], rfl, ?_⟩⟩
  refine bind_eq_ok_iff.mpr ⟨[], rfl, bind_eq_ok_iff.mpr ⟨_, hpaths, ?_⟩⟩
  exact bind_eq_ok_iff.mpr ⟨[], hfolders, rfl⟩

/-- Where nothing was persisted, a merge gives the fresh resources.  Each part of the merge is empty
    or the fresh resources as they are, with and without marks. -/
theorem mergeResources_nil (hids : DistinctIds (resources settings endpoints)) (mark : Bool) :
    mergeResources ((resources settings endpoints).map .obj) [] mark
      = .ok (resources settings endpoints) := by
  have hknown : Known.of (resources settings endpoints) [] = .ok Known.nothing :=
    bind_eq_ok_iff.mpr ⟨[], newNames_nil hids, rfl⟩
  have hpassing : passing [] (resources settings endpoints) = .ok [] :=
    passing_eq_ok_iff.mpr ⟨fun _ hr => isKey_fresh hr, fun _ hr => absurd hr (List.not_mem_nil), rfl⟩
  have hrooted := rooted_allEntries settings endpoints
  have hleft : leftovers Known.nothing (resources settings endpoints) []
      (resources settings endpoints) = .ok [] := by
    have hpaths := folderPaths_fresh (identified_of_distinctIds_fresh hids)
    refine bind_eq_ok_iff.mpr ⟨_, keys_fresh settings endpoints, bind_eq_ok_iff.mpr ⟨[], rfl, ?_⟩⟩
    have htable := foldersByPath_eq (freshId settings) hrooted.nodup_places
    exact bind_eq_ok_iff.mpr ⟨_, hpaths, bind_eq_ok_iff.mpr ⟨_, htable, rfl⟩⟩
  rw [mergeResources, ofValues_map_obj, hknown, ok_bind, refresh_nothing, ok_bind]
  cases mark with
  | true =>
    rw [if_pos rfl, hleft, ok_bind, List.append_nil]
    exact bind_eq_ok_iff.mpr ⟨_, rfl, bind_eq_ok_iff.mpr ⟨[], hpassing, by rw [List.append_nil]; rfl⟩⟩
  | false =>
    exact bind_eq_ok_iff.mpr ⟨_, rfl, bind_eq_ok_iff.mpr ⟨[], hpassing, by rw [List.append_nil]; rfl⟩⟩

/-- **Placement survives a merge** whose identifiers are told apart, whatever was persisted. -/
theorem placement_of_merge {date : String} {before : Option (Dict Json)} {document' : Dict Json}
    {mark : Bool} (h : merge (document date settings endpoints) before mark = .ok document')
    (hids : DistinctIds (resourcesOf document')) :
    Placement (resources settings endpoints) (resourcesBefore before) (resourcesOf document') := by
  have hmerge : mergeResources ((resources settings endpoints).map .obj) (resourcesBefore before) mark
      = .ok (resourcesOf document') := by
    rcases merge_cases h with ⟨hnone, hall⟩ | hmerge
    · rw [hall] at hids ⊢
      rw [hnone, mergeResources_nil hids]
    · exact hmerge
  obtain ⟨parts⟩ := parts_of_merge hmerge
  exact parts.placement hids

end

/-- The request that is gone stays in the folder of users, which keeps its identifier. -/
theorem placement_of_merge_users : ∃ merged,
    merge (document "" {} [sampleEndpoint]) (some sampleExport) true = .ok merged ∧
    DistinctIds (resourcesOf merged) ∧
    Placement (resources {} [sampleEndpoint]) (resourcesBefore (some sampleExport))
      (resourcesOf merged) := by
  have hruns : (merge (document "" {} [sampleEndpoint]) (some sampleExport) true).toOption.any
      (fun merged => decide (DistinctIds (resourcesOf merged))) = true := by
    decide +kernel
  obtain ⟨merged, hmerged, hids⟩ := Persisted.exists_ok_of_any hruns
  have hids := of_decide_eq_true hids
  exact ⟨merged, hmerged, hids, placement_of_merge hmerged hids⟩

end RouteAtlas.Insomnia
