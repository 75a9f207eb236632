/-
  What fresh identifiers become, whatever was persisted.

  ==== Problem ====

  `newNames` makes one table of three sources: the workspace, the base environment, and the folders
  with paths that are there already.  Users may have edited all of them, and two persisted resources
  may have one identifier.

  ==== Spec ====

  `Inherits` says where a new name comes from: the first persisted workspace, the base environment
  (`baseEnvironment?`), or a persisted folder.  So

  * the workspace and the environment become the persisted ones, if there are any (`placeId_root`,
    `newName_environment`);
  * requests keep their names (`newName_request`);
  * a folder becomes one with its path as soon as there is one (`pathTo_placeId`).

  ==== The crux ====

  The sources do not get in each other's way: fresh identifiers begin with letters that tell what
  they are of, and what has the path of the workspace is no folder.
-/
import RouteAtlas.Proofs.Insomnia.FolderPath

namespace RouteAtlas.Insomnia

open Json (comparable_keys)
open Persisted (Fault lookupKey lookupKey_eq_ok_iff required bind_eq_ok_iff
  bind_pure_eq_ok_iff_of_step mapM_eq_ok_iff_of_step filterM_eq_ok_iff_of_step
  filterMapM_eq_ok_iff_of_step)
open Resource (ofKind fieldOrNull)

/-! ## The base environment

The environment that a merge keeps up to date.  It is the first of those below the first workspace;
where there is none below it, the first of all. -/

/-- Is the environment below the first workspace? -/
def isBelowWorkspace (rs : List Resource) (e : Resource) : Bool :=
  ((ofKind "workspace" rs).take 1).any fun w => fieldOrNull e "parentId" == fieldOrNull w "_id"

/-- The environment that is kept up to date: the first below the first workspace, or the first of
    all when none is below it. -/
def baseEnvironment? (rs : List Resource) : Option Resource :=
  ((ofKind "environment" rs).find? (isBelowWorkspace rs)).or (ofKind "environment" rs).head?

/-- The base environment is one of the environments. -/
theorem mem_of_baseEnvironment? {rs : List Resource} {e : Resource}
    (h : baseEnvironment? rs = some e) : e ∈ ofKind "environment" rs := by
  rw [baseEnvironment?] at h
  rcases Option.or_eq_some_iff.mp h with h | ⟨-, h⟩
  · exact List.mem_of_find?_eq_some h
  · exact List.mem_of_head? h

/-- Where there are environments, one of them is the base environment. -/
theorem exists_baseEnvironment? {rs : List Resource} (h : ofKind "environment" rs ≠ []) :
    ∃ base, baseEnvironment? rs = some base := by
  refine Option.isSome_iff_exists.mp ?_
  rw [baseEnvironment?, Option.isSome_or, List.isSome_head?.mpr h, Bool.or_true]

/-- The environments that may be the base environment, if all parents can be looked up by: those
    below the first workspace, or all when there is none below it. -/
theorem baseEnvironments_eq_ok_iff {rs base : List Resource} : baseEnvironments rs = .ok base ↔
    ((∀ w ∈ (ofKind "workspace" rs).take 1, (fieldOrNull w "_id").kind.isKey = true) ∧
      ∀ e ∈ ofKind "environment" rs, (fieldOrNull e "parentId").kind.isKey = true) ∧
    base = if ((ofKind "environment" rs).filter (isBelowWorkspace rs)).isEmpty
      then ofKind "environment" rs else (ofKind "environment" rs).filter (isBelowWorkspace rs) := by
  have hroot : ∀ (w : Resource) (i : Json), lookupKey (fieldOrNull w "_id") = .ok i ↔
      (fieldOrNull w "_id").kind.isKey = true ∧ i = fieldOrNull w "_id" :=
    fun _ _ => lookupKey_eq_ok_iff
  -- one test for an environment, as the loop over them makes it
  have hcontains : ∀ e : Resource, (((ofKind "workspace" rs).take 1).map (fieldOrNull · "_id")).contains
      (fieldOrNull e "parentId") = isBelowWorkspace rs e := by
    intro e
    rw [List.contains_eq_any_beq, List.any_map]
    rfl
  have hbelow : ∀ (e : Resource) (b : Bool), (do
        return (((ofKind "workspace" rs).take 1).map (fieldOrNull · "_id")).contains
          (← lookupKey (fieldOrNull e "parentId")) : Except Fault Bool) = .ok b ↔
      (fieldOrNull e "parentId").kind.isKey = true ∧ b = isBelowWorkspace rs e := by
    intro e b
    rw [← hcontains]
    exact bind_pure_eq_ok_iff_of_step (fun _ => lookupKey_eq_ok_iff)
      ((((ofKind "workspace" rs).take 1).map (fieldOrNull · "_id")).contains ·)
  rw [baseEnvironments, bind_eq_ok_iff]
  constructor
  · rintro ⟨ids, hids, h⟩
    obtain ⟨hkeys, rfl⟩ := (mapM_eq_ok_iff_of_step hroot).mp hids
    obtain ⟨below, hfilter, h⟩ := bind_eq_ok_iff.mp h
    obtain ⟨hparents, rfl⟩ := (filterM_eq_ok_iff_of_step hbelow).mp hfilter
    exact ⟨⟨hkeys, hparents⟩, (Except.ok.inj h).symm⟩
  · rintro ⟨⟨hkeys, hparents⟩, rfl⟩
    refine ⟨_, (mapM_eq_ok_iff_of_step hroot).mpr ⟨hkeys, rfl⟩, ?_⟩
    exact bind_eq_ok_iff.mpr ⟨_, (filterM_eq_ok_iff_of_step hbelow).mpr ⟨hparents, rfl⟩, rfl⟩

/-- The first of the environments that may be the base environment is. -/
theorem head?_baseEnvironments {rs base : List Resource} (h : baseEnvironments rs = .ok base) :
    base.head? = baseEnvironment? rs := by
  obtain ⟨-, rfl⟩ := baseEnvironments_eq_ok_iff.mp h
  rw [baseEnvironment?, ← List.head?_filter]
  cases (ofKind "environment" rs).filter (isBelowWorkspace rs) <;> rfl

/-! ## The three sources

New names come from three places: the first persisted workspace, the base environment, and the
folders by their paths.  What a fresh identifier inherits depends on which of them has it. -/

section

variable {settings : Settings}

/-- A folder has another identifier than the workspace. -/
theorem freshId_root_ne {p : List String} (hp : p ≠ []) : freshId settings [] ≠ freshId settings p := by
  intro heq
  have htext : parentIn (workspaceOf settings) [] = parentIn (workspaceOf settings) p :=
    Json.str.inj heq
  have hempty : ¬p.isEmpty = true := fun h => hp (List.isEmpty_iff.mp h)
  rw [parentIn, parentIn, if_pos List.isEmpty_nil, if_neg hempty] at htext
  have hwrk : "wrk".toList = 'w' :: ['r', 'k'] := rfl
  have hfld : "fld".toList = 'f' :: ['l', 'd'] := rfl
  exact stableId_ne hwrk hfld (by decide) _ _ htext

/-- Requests have other identifiers than places. -/
theorem requestId_ne_freshId (parts path : List String) :
    Json.str (stableId "req" parts) ≠ freshId settings path := by
  have hreq : "req".toList = 'r' :: ['e', 'q'] := rfl
  exact stableId_ne_freshId hreq (by decide) (by decide) settings parts path

/-- A request has another identifier than the environment: they start differently. -/
theorem requestId_ne_environmentId (parts : List String) :
    Json.str (stableId "req" parts) ≠ environmentId settings := by
  have hreq : "req".toList = 'r' :: ['e', 'q'] := rfl
  have henv : "env".toList = 'e' :: ['n', 'v'] := rfl
  exact fun heq => stableId_ne hreq henv (by decide) _ _ (Json.str.inj heq)

/-- The folders of a fresh export. -/
theorem hasId_folders_fresh {endpoints : List Endpoint} {i : Json} :
    HasId (ofKind "request_group" (resources settings endpoints)) i ↔
      ∃ p ∈ placesOf settings endpoints, i = freshId settings p := by
  rw [folders_fresh]
  constructor
  · rintro ⟨r, hr, hid⟩
    obtain ⟨p, hp, rfl⟩ := List.mem_map.mp hr
    exact ⟨p, hp, (Option.some.inj hid).symm⟩
  · rintro ⟨p, hp, rfl⟩
    exact ⟨folderAt (freshId settings) p, List.mem_map_of_mem hp, rfl⟩

end

/-- Whom a fresh identifier takes its new name from. -/
inductive Inherits (settings : Settings) (endpoints : List Endpoint) (existing : List Resource) :
    Json → Json → Prop where
  | workspace {w : Resource} {i : Json} (first : (ofKind "workspace" existing).head? = some w)
      (id : Dict.get? w "_id" = some i) : Inherits settings endpoints existing (freshId settings []) i
  | environment {b : Resource} {i : Json} (base : baseEnvironment? existing = some b)
      (id : Dict.get? b "_id" = some i) :
      Inherits settings endpoints existing (environmentId settings) i
  | folder {p : List String} {i : Json} {path : FolderPath} (place : p ∈ placesOf settings endpoints)
      (owner : HasId (ofKind "workspace" existing) i ∨ HasId (ofKind "request_group" existing) i)
      (above : pathTo existing i = .ok path) (ne : path ≠ [])
      (same : Identified (freshId settings) (placesOf settings endpoints) → path = p.map .str) :
      Inherits settings endpoints existing (freshId settings p) i

section

variable {settings : Settings} {endpoints : List Endpoint} {existing : List Resource} {k i : Json}
  (h : Inherits settings endpoints existing k i)
include h

/-- The name of the workspace is the first persisted one's. -/
theorem Inherits.of_root (hk : k = freshId settings []) :
    ∃ w, (ofKind "workspace" existing).head? = some w ∧ Dict.get? w "_id" = some i := by
  cases h with
  | workspace first id => exact ⟨_, first, id⟩
  | environment _ _ => exact absurd hk (environmentId_ne settings [])
  | folder place _ _ _ _ =>
    have hroot := (rooted_allEntries settings endpoints).not_root
    exact absurd hk.symm (freshId_root_ne fun hnil => hroot (hnil ▸ place))

/-- The name of the environment is the base environment's. -/
theorem Inherits.of_environment (hk : k = environmentId settings) :
    ∃ b, baseEnvironment? existing = some b ∧ Dict.get? b "_id" = some i := by
  cases h with
  | workspace _ _ => exact absurd hk.symm (environmentId_ne settings [])
  | environment base id => exact ⟨_, base, id⟩
  | folder _ _ _ _ _ => exact absurd hk.symm (environmentId_ne settings _)

/-- The name of a folder is that of something with a path, and with its own path where fresh
    identifiers tell the places. -/
theorem Inherits.of_place {p : List String} (hp : p ∈ placesOf settings endpoints)
    (hk : k = freshId settings p) :
    (HasId (ofKind "workspace" existing) i ∨ HasId (ofKind "request_group" existing) i) ∧
      ∃ path, pathTo existing i = .ok path ∧ path ≠ [] ∧
        (Identified (freshId settings) (placesOf settings endpoints) → path = p.map .str) := by
  have hne : p ≠ [] := fun hnil => (rooted_allEntries settings endpoints).not_root (hnil ▸ hp)
  cases h with
  | workspace _ _ => exact absurd hk (freshId_root_ne hne)
  | environment _ _ => exact absurd hk (environmentId_ne settings p)
  | @folder q _ path place owner above ne same =>
    refine ⟨owner, path, above, ne, fun hid => ?_⟩
    obtain rfl := (hid.tells q (List.mem_cons_of_mem _ place) p (List.mem_cons_of_mem _ hp)).mp
      (Json.str_beq_iff.mpr hk.symm)
    exact same hid

/-- A request has no new name. -/
theorem Inherits.not_request {parts : List String} : k ≠ .str (stableId "req" parts) := by
  rintro hk
  cases h with
  | workspace _ _ => exact requestId_ne_freshId parts [] hk.symm
  | environment _ _ => exact requestId_ne_environmentId parts hk.symm
  | folder _ _ _ _ _ => exact requestId_ne_freshId parts _ hk.symm

end

/-- One name for the first of the persisted resources, if there is any.  The fresh resource is there
    and has a text for an identifier; only the persisted one may be without. -/
theorem standIn_eq_ok_iff {f : Resource} {s : String} (hf : Dict.get? f "_id" = some (.str s))
    {old : List Resource} {names : List (Json × Json)} : standIn [f] old = .ok names ↔
      (∀ r ∈ old.head?, Dict.get? r "_id" = some (fieldOrNull r "_id")) ∧
      names = old.head?.toList.map fun r => (.str s, fieldOrNull r "_id") := by
  have hid : idOf f = .ok (.str s) := by
    rw [idOf, required, hf]
    rfl
  cases old with
  -- nothing persisted, so nothing stands in
  | nil => exact ⟨fun h => ⟨fun _ hr => absurd hr (by simp), (Except.ok.inj h).symm⟩, fun h => h.2 ▸ rfl⟩
  | cons r old =>
    have hstand : standIn [f] (r :: old) = (do
        let target ← required r "_id"
        return [(← idOf f, target)]) := rfl
    rw [hstand, hid, List.head?_cons, required]
    cases hr : Dict.get? r "_id" with
    | none =>
      refine ⟨fun h => absurd h (by simp [bind, Except.bind]), fun h => ?_⟩
      have hno := h.1 r rfl
      rw [hr] at hno
      exact absurd hno (by simp)
    | some target =>
      have hfield : fieldOrNull r "_id" = target := fieldOrNull_of_get? hr
      refine ⟨fun h => ⟨fun r' hr' => ?_, ?_⟩, fun h => ?_⟩
      · obtain rfl := Option.some.inj hr'
        rw [hr, hfield]
      · rw [← Except.ok.inj h, ← hfield]
        rfl
      · rw [h.2, ← hfield]
        rfl

section

variable {settings : Settings} {endpoints : List Endpoint} {existing : List Resource}
  {names : List (Json × Json)}

/-- The entries of the table of new names: one for the workspace, one for the base environment, and
    those of the folders with paths that are there. -/
def nameEntries (settings : Settings) (existing : List Resource) (old : List (FolderPath × Json))
    (fresh : List (Json × FolderPath)) : List (Json × Json) :=
  ((ofKind "workspace" existing).head?.toList.map fun w => (freshId settings [], fieldOrNull w "_id"))
    ++ ((baseEnvironment? existing).toList.map fun b => (environmentId settings, fieldOrNull b "_id"))
    ++ fresh.filterMap fun e => (Dict.get? old e.2).map (e.1, ·)

/-- Where the entries come from: the paths in either export, and resources with identifiers. -/
structure NameSources (settings : Settings) (endpoints : List Endpoint) (existing : List Resource)
    (paths : List (Json × FolderPath)) (old : List (FolderPath × Json))
    (fresh : List (Json × FolderPath)) : Prop where
  existing_paths : folderPaths existing = .ok paths
  by_path : foldersByPath (paths.filter fun p => !p.2.isEmpty) = .ok old
  fresh_paths : folderPaths (resources settings endpoints) = .ok fresh
  ids : ∀ r, r ∈ (ofKind "workspace" existing).head? ∨ r ∈ baseEnvironment? existing →
    Dict.get? r "_id" = some (fieldOrNull r "_id")

/-- The table of new names, taken apart: what is asked of the persisted export, and the entries that
    the three sources give. -/
theorem parts_of_newNames (h : newNames (resources settings endpoints) existing = .ok names) :
    ∃ paths old fresh, NameSources settings endpoints existing paths old fresh ∧
      names = Dict.ofList (nameEntries settings existing old fresh) := by
  -- each step of the program has succeeded
  obtain ⟨workspaces, hworkspaces, h⟩ := bind_eq_ok_iff.mp h
  obtain ⟨base, hbase, h⟩ := bind_eq_ok_iff.mp h
  obtain ⟨environments, henvironments, h⟩ := bind_eq_ok_iff.mp h
  obtain ⟨paths, hpaths, h⟩ := bind_eq_ok_iff.mp h
  obtain ⟨old, hold, h⟩ := bind_eq_ok_iff.mp h
  obtain ⟨fresh, hfresh, h⟩ := bind_eq_ok_iff.mp h
  obtain ⟨folders, hfolders, h⟩ := bind_eq_ok_iff.mp h
  rw [frame_fresh (by decide) (by decide)] at hworkspaces henvironments
  obtain ⟨hroot, rfl⟩ := (standIn_eq_ok_iff (f := workspaceAt settings (freshId settings [])) rfl).mp
    hworkspaces
  obtain ⟨henvironment, rfl⟩ := (standIn_eq_ok_iff
    (f := environmentAt settings (environmentId settings) (freshId settings [])) rfl).mp henvironments
  rw [head?_baseEnvironments hbase] at henvironment h
  -- the last step, folder by folder
  have hstep : ∀ (e : Json × FolderPath) (n : Option (Json × Json)),
      (do return (Dict.get? old (← lookupPath e.2)).map (e.1, ·) :
        Except Fault (Option (Json × Json))) = .ok n ↔
        Json.KeyPath e.2 ∧ n = (Dict.get? old e.2).map (e.1, ·) :=
    fun e _ => bind_pure_eq_ok_iff_of_step (fun _ => lookupPath_eq_ok_iff)
      fun path => (Dict.get? old path).map (e.1, ·)
  obtain ⟨-, rfl⟩ := (filterMapM_eq_ok_iff_of_step hstep).mp hfolders
  exact ⟨paths, old, fresh, ⟨hpaths, hold, hfresh, fun r hr => hr.elim (hroot r) (henvironment r)⟩,
    (Except.ok.inj h).symm⟩

section

variable {paths : List (Json × FolderPath)} {old : List (FolderPath × Json)}
  {fresh : List (Json × FolderPath)}
  (h : NameSources settings endpoints existing paths old fresh)
include h

/-- What the folders' entries say.  A folder is entered under its path, and what is found for the
    path is the persisted folder there. -/
theorem inherits_of_folder {e : Json × FolderPath} (he : e ∈ fresh) {i : Json}
    (hget : Dict.get? old e.2 = some i) : Inherits settings endpoints existing e.1 i := by
  obtain ⟨path', hin, hne'⟩ := mem_of_get?_foldersByPath h.by_path hget
  have howner := (hasId_of_mem_folderPaths h.existing_paths hin).1
  have habove := pathTo_of_mem_folderPaths h.existing_paths hin hne'
  by_cases hroot : e.2 = []
  · -- no folder has the path of the workspace
    rw [hroot] at hget
    exact absurd rfl (pathTo_of_get?_foldersByPath h.by_path h.existing_paths (p := []) hget).1
  · obtain ⟨j, hj, heq⟩ := exists_folder_of_pathTo (pathTo_of_mem_folderPaths h.fresh_paths he hroot) hroot
    obtain ⟨p, hp, rfl⟩ := hasId_folders_fresh.mp hj
    have hname : e.1 = freshId settings p := Json.beq_str_iff.mp heq
    rw [hname]
    refine .folder hp howner habove hne' fun hid => ?_
    -- the fresh identifiers tell the places, so this is the place with the path that was looked up
    have hfresh := h.fresh_paths
    rw [folderPaths_fresh hid] at hfresh
    obtain rfl := Except.ok.inj hfresh
    obtain ⟨q, hq, rfl⟩ := List.mem_map.mp he
    obtain rfl := (hid.tells q hq p (List.mem_cons_of_mem _ hp)).mp heq
    exact Except.ok.inj (habove.symm.trans (pathTo_of_get?_foldersByPath h.by_path h.existing_paths hget).2)

/-- Every entry of the table says whom the fresh identifier inherits from. -/
theorem inherits_of_mem {e : Json × Json} (he : e ∈ nameEntries settings existing old fresh) :
    Inherits settings endpoints existing e.1 e.2 ∧ e.1.kind.isKey = true := by
  rcases List.mem_append.mp he with he | he
  · rcases List.mem_append.mp he with he | he
    · obtain ⟨w, hw, rfl⟩ := List.mem_map.mp he
      have hw : (ofKind "workspace" existing).head? = some w := Option.mem_toList.mp hw
      exact ⟨.workspace hw (h.ids w (.inl hw)), rfl⟩
    · obtain ⟨b, hb, rfl⟩ := List.mem_map.mp he
      have hb : baseEnvironment? existing = some b := Option.mem_toList.mp hb
      exact ⟨.environment hb (h.ids b (.inr hb)), rfl⟩
  · obtain ⟨f, hf, hsome⟩ := List.mem_filterMap.mp he
    obtain ⟨i, hi, rfl⟩ := Option.map_eq_some_iff.mp hsome
    exact ⟨inherits_of_folder h hf hi, (hasId_of_mem_folderPaths h.fresh_paths hf).2⟩

/-- What has an entry is found. -/
theorem isSome_of_mem_nameEntries {k v : Json} (hmem : (k, v) ∈ nameEntries settings existing old fresh)
    {s : String} (hs : k = .str s) :
    (Dict.get? (Dict.ofList (nameEntries settings existing old fresh)) k).isSome = true := by
  subst hs
  have hkeys : ∀ k ∈ Dict.keys (nameEntries settings existing old fresh), k.kind.isKey = true := by
    intro k hk
    obtain ⟨e, he, rfl⟩ := List.mem_map.mp hk
    exact (inherits_of_mem h he).2
  rw [comparable_keys.get?_ofList hkeys rfl]
  exact Dict.isSome_get?_iff.mpr
    ⟨.str s, Dict.mem_keys_of_mem (List.mem_reverse.mpr hmem), Json.str_beq_iff.mpr rfl⟩

end

/-- **What is renamed inherits its name.** -/
theorem inherits_of_newNames (h : newNames (resources settings endpoints) existing = .ok names)
    {s : String} {i : Json} (hget : Dict.get? names (.str s) = some i) :
    Inherits settings endpoints existing (.str s) i := by
  obtain ⟨paths, old, fresh, hsources, rfl⟩ := parts_of_newNames h
  have hmem := Dict.mem_of_get?_ofList (fun k hk => Json.str_beq_iff.mp hk) hget
  exact (inherits_of_mem hsources hmem).1

/-! ## What becomes of each

Read off the table: the workspace, the environment, the requests and the folders in turn. -/

variable (h : newNames (resources settings endpoints) existing = .ok names)
include h

/-- **The workspace becomes the first persisted one.** -/
theorem placeId_root {w : Resource} (hw : (ofKind "workspace" existing).head? = some w) :
    Dict.get? w "_id" = some (placeId names settings []) := by
  have hsome : (Dict.get? names (freshId settings [])).isSome = true := by
    obtain ⟨paths, old, fresh, hsources, rfl⟩ := parts_of_newNames h
    refine isSome_of_mem_nameEntries hsources (v := fieldOrNull w "_id") ?_ rfl
    refine List.mem_append_left _ (List.mem_append_left _ ?_)
    rw [hw]
    exact List.mem_singleton_self _
  obtain ⟨i, hi⟩ := Option.isSome_iff_exists.mp hsome
  obtain ⟨w', hw', hid⟩ := (inherits_of_newNames h hi).of_root rfl
  obtain rfl := Option.some.inj (hw'.symm.trans hw)
  rw [placeId, newName, hi, Option.getD_some, hid]

/-- The workspace keeps its name when there is no other. -/
theorem placeId_root_of_none (hnone : (ofKind "workspace" existing).head? = none) :
    placeId names settings [] = freshId settings [] := by
  rw [placeId, newName]
  cases hget : Dict.get? names (freshId settings []) with
  | none => rfl
  | some i =>
    obtain ⟨w, hw, -⟩ := (inherits_of_newNames h hget).of_root rfl
    exact absurd (hw.symm.trans hnone) (by simp)

/-- **The base environment becomes the persisted one.** -/
theorem newName_environment {b : Resource} (hb : baseEnvironment? existing = some b) :
    Dict.get? b "_id" = some (newName names (environmentId settings)) := by
  have hsome : (Dict.get? names (environmentId settings)).isSome = true := by
    obtain ⟨paths, old, fresh, hsources, rfl⟩ := parts_of_newNames h
    refine isSome_of_mem_nameEntries hsources (v := fieldOrNull b "_id") ?_ rfl
    refine List.mem_append_left _ (List.mem_append_right _ ?_)
    rw [hb]
    exact List.mem_singleton_self _
  obtain ⟨i, hi⟩ := Option.isSome_iff_exists.mp hsome
  obtain ⟨b', hb', hid⟩ := (inherits_of_newNames h hi).of_environment rfl
  obtain rfl := Option.some.inj (hb'.symm.trans hb)
  rw [newName, hi, Option.getD_some, hid]

/-- Requests keep their names. -/
theorem newName_request (parts : List String) :
    newName names (.str (stableId "req" parts)) = .str (stableId "req" parts) := by
  rw [newName]
  cases hget : Dict.get? names (.str (stableId "req" parts)) with
  | none => rfl
  | some i => exact absurd rfl (inherits_of_newNames h hget).not_request

/-- A folder keeps its name or gets a persisted one, of a folder or, where a folder has it too, of a
    workspace. -/
theorem placeId_cases {p : List String} (hp : p ∈ placesOf settings endpoints) :
    placeId names settings p = freshId settings p ∨
    ((HasId (ofKind "workspace" existing) (placeId names settings p) ∨
      HasId (ofKind "request_group" existing) (placeId names settings p)) ∧
      ∃ path, pathTo existing (placeId names settings p) = .ok path ∧ path ≠ []) := by
  rw [placeId, newName]
  cases hget : Dict.get? names (freshId settings p) with
  | none => exact .inl rfl
  | some i =>
    obtain ⟨howner, path, habove, hne, -⟩ := (inherits_of_newNames h hget).of_place hp rfl
    exact .inr ⟨howner, path, habove, hne⟩

/-- **A folder whose path is there becomes one with that path.** -/
theorem pathTo_placeId (hid : Identified (freshId settings) (placesOf settings endpoints))
    {p : List String} (hp : p ∈ placesOf settings endpoints)
    (hpath : ∃ i, pathTo existing i = .ok (p.map .str)) :
    pathTo existing (placeId names settings p) = .ok (p.map .str) := by
  have hne : p ≠ [] := fun hnil => (rooted_allEntries settings endpoints).not_root (hnil ▸ hp)
  have hsome : (Dict.get? names (freshId settings p)).isSome = true := by
    obtain ⟨paths, old, fresh, hsources, rfl⟩ := parts_of_newNames h
    obtain ⟨i, hi⟩ := hpath
    obtain ⟨j, hj⟩ := Option.isSome_iff_exists.mp
      (isSome_get?_foldersByPath hsources.by_path hsources.existing_paths hi hne)
    have hfresh := hsources.fresh_paths
    rw [folderPaths_fresh hid] at hfresh
    obtain rfl := Except.ok.inj hfresh
    refine isSome_of_mem_nameEntries hsources (v := j) (List.mem_append_right _ ?_) rfl
    refine List.mem_filterMap.mpr ⟨(freshId settings p, p.map .str), ?_, by rw [hj]; rfl⟩
    exact List.mem_map_of_mem (List.mem_cons_of_mem _ hp)
  obtain ⟨i, hi⟩ := Option.isSome_iff_exists.mp hsome
  obtain ⟨-, path, habove, -, hsame⟩ := (inherits_of_newNames h hi).of_place hp rfl
  rw [placeId, newName, hi, Option.getD_some, habove, hsame hid]

end

end RouteAtlas.Insomnia
