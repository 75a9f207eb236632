/-
  What a merge renames, where identifiers tell resources apart.

  ==== Program ====

  Before anything else a merge renames the fresh workspace, environment and folders to those that
  were persisted.  `Inherits` says where a new name comes from, whatever was persisted.

  ==== Spec ====

  Where the persisted resources have identifiers of their own (`DistinctIds`), a name is one
  resource's: what a fresh resource is renamed to is a persisted one of the same kind, and for a
  folder the one with the same path (`renames_of_newNames`).

  From this it follows that no two resources get one name (`Renames.injective`): there is one
  workspace and one environment in a fresh export, and a persisted folder has one path.

  ==== The crux ====

  The table of new names is from identifiers to identifiers, and says nothing of kinds.  `Renames`
  is the relation behind it, with one constructor for each kind; two resources that get one name are
  compared by the constructors they got it by.
-/
import RouteAtlas.Proofs.Insomnia.NewName

namespace RouteAtlas.Insomnia

open Persisted (lookupKey bind_eq_ok_iff)
open Resource (isA ofKind fieldOrNull byId)

/-! ## Identifiers of their own

What `DistinctIds` is used for: two resources with one identifier are one resource. -/

section

variable {rs : List Resource} (h : DistinctIds rs)
include h

/-- Every resource has an identifier. -/
theorem DistinctIds.get?_eq {r : Resource} (hr : r ∈ rs) :
    Dict.get? r "_id" = some (fieldOrNull r "_id") := by
  obtain ⟨id, hid, -⟩ := h.has r hr
  rw [fieldOrNull_of_get? hid, hid]

/-- An identifier equals itself. -/
theorem DistinctIds.beq_self {r : Resource} (hr : r ∈ rs) :
    (fieldOrNull r "_id" == fieldOrNull r "_id") = true := by
  obtain ⟨id, hid, hself⟩ := h.has r hr
  rw [fieldOrNull_of_get? hid, hself]

/-- The resources of one kind have identifiers of their own, too. -/
theorem DistinctIds.ofKind (kind : String) : DistinctIds (ofKind kind rs) :=
  h.sublist List.filter_sublist

/-- The identifiers in order are apart. -/
theorem DistinctIds.pairwise : (idsOf rs).Pairwise fun i j => (i == j) = false :=
  List.pairwise_map.mpr h.differ

/-- **An identifier tells its resource.** -/
theorem DistinctIds.eq_of_beq {r s : Resource} (hr : r ∈ rs) (hs : s ∈ rs)
    (hkey : (fieldOrNull r "_id").kind.isKey = true)
    (heq : (fieldOrNull r "_id" == fieldOrNull s "_id") = true) : r = s := by
  by_contra hne
  have hapart := Json.apart_of_pairwise h.differ hr hs hkey hne
  exact absurd (heq.symm.trans hapart) (by decide)

/-- Resources that both have one identifier, however each of them spells it, are the same. -/
theorem DistinctIds.eq_of_get? {r s : Resource} (hr : r ∈ rs) (hs : s ∈ rs) {i j : Json}
    (hi : Dict.get? r "_id" = some i) (hj : Dict.get? s "_id" = some j) (hkey : i.kind.isKey = true)
    (heq : (i == j) = true) : r = s := by
  refine h.eq_of_beq hr hs ?_ ?_
  · rw [fieldOrNull_of_get? hi, hkey]
  · rw [fieldOrNull_of_get? hi, fieldOrNull_of_get? hj, heq]

/-- The resources by their identifiers are just these. -/
theorem entries_of_distinctIds {entries : List (Json × Resource)}
    (hentries : (rs.mapM fun r => do return (← lookupKey (fieldOrNull r "_id"), r)) = .ok entries) :
    (∀ r ∈ rs, (fieldOrNull r "_id").kind.isKey = true) ∧
      Dict.ofList entries = rs.map fun r => (fieldOrNull r "_id", r) := by
  obtain ⟨hkeys, rfl⟩ := idEntries_eq_ok_iff.mp hentries
  refine ⟨hkeys, Dict.ofList_of_apart ?_⟩
  rw [Dict.keys, List.map_map]
  exact h.pairwise

/-- The table by identifier lists all resources, in their order. -/
theorem byId_of_distinctIds {table : List (Json × Resource)} (htable : byId rs = .ok table) :
    (∀ r ∈ rs, (fieldOrNull r "_id").kind.isKey = true) ∧
      table = rs.map fun r => (fieldOrNull r "_id", r) := by
  have hall : rs.filter (Dict.has · "_id") = rs := by
    refine List.filter_eq_self.mpr fun r hr => ?_
    show (Dict.get? r "_id").isSome = true
    rw [h.get?_eq hr]
    rfl
  rw [byId, hall] at htable
  obtain ⟨entries, hentries, htable⟩ := bind_eq_ok_iff.mp htable
  obtain ⟨hkeys, hdict⟩ := entries_of_distinctIds h hentries
  exact ⟨hkeys, (Except.ok.inj htable).symm.trans hdict⟩

end

/-! ## Resources of one kind

New names go from workspace to workspace, from environment to environment and from folder to folder. -/

/-- The folders among resources by their identifiers. -/
def folderTable (rs : List Resource) : List (Json × Resource) :=
  (ofKind "request_group" rs).map fun r => (fieldOrNull r "_id", r)

/-- Two resources of different kinds are not the same. -/
theorem ne_of_kinds {rs : List Resource} {kind kind' : String} (hne : kind ≠ kind') {r s : Resource}
    (hr : r ∈ ofKind kind rs) (hs : s ∈ ofKind kind' rs) : r ≠ s := by
  rintro rfl
  have hno := isA_false (List.mem_filter.mp hr).2 hne
  exact absurd ((List.mem_filter.mp hs).2.symm.trans hno) (by decide)

/-! ## New names

Told as a relation between a fresh resource and an identifier, so that injectivity is a case split
over the two kinds. -/

/-- A fresh resource gets the identifier of a persisted one: of the same kind, and a folder that of
    the one with the same path. -/
inductive Renames (settings : Settings) (existing : List Resource) : Resource → Json → Prop where
  | workspace {w : Resource} {i : Json} (persisted : w ∈ ofKind "workspace" existing)
      (id : Dict.get? w "_id" = some i) :
      Renames settings existing (workspaceAt settings (freshId settings [])) i
  | environment {e : Resource} {i : Json} (persisted : e ∈ ofKind "environment" existing)
      (id : Dict.get? e "_id" = some i) : Renames settings existing
        (environmentAt settings (environmentId settings) (freshId settings [])) i
  | folder {p : List String} {r : Resource} {i : Json}
      (persisted : r ∈ ofKind "request_group" existing) (id : Dict.get? r "_id" = some i)
      (path : namesAbove (folderTable existing) i = .ok (p.map .str)) :
      Renames settings existing (folderAt (freshId settings) p) i

section

variable {settings : Settings} {endpoints : List Endpoint} {existing : List Resource}

/-- The resources of a fresh export: the workspace, its environment, folders and requests. -/
theorem mem_resources {f : Resource} : f ∈ resources settings endpoints ↔
    f = workspaceAt settings (freshId settings []) ∨
    f = environmentAt settings (environmentId settings) (freshId settings []) ∨
    (∃ p ∈ placesOf settings endpoints, f = folderAt (freshId settings) p) ∨
    ∃ path e, .request path e ∈ allEntries settings endpoints ∧
      f = requestOf settings.serviceNames (parentIn (workspaceOf settings) path) e := by
  rw [resources_eq, List.mem_cons, List.mem_cons, List.mem_map]
  refine or_congr_right (or_congr_right ⟨?_, ?_⟩)
  · rintro ⟨entry, hentry, rfl⟩
    cases entry with
    | folder p =>
      exact .inl ⟨p, mem_foldersAmong.mpr hentry, folderOf_eq (ne_root_of_folder_mem hentry)⟩
    | request path e => exact .inr ⟨path, e, hentry, rfl⟩
  · rintro (⟨p, hp, rfl⟩ | ⟨path, e, hentry, rfl⟩)
    · have hentry := mem_foldersAmong.mp hp
      exact ⟨_, hentry, folderOf_eq (ne_root_of_folder_mem hentry)⟩
    · exact ⟨_, hentry, rfl⟩

/-- Fresh identifiers are texts. -/
theorem exists_freshId {f : Resource} (hf : f ∈ resources settings endpoints) :
    ∃ s, Dict.get? f "_id" = some (.str s) := by
  rcases mem_resources.mp hf with rfl | rfl | ⟨p, -, rfl⟩ | ⟨path, e, -, rfl⟩ <;> exact ⟨_, rfl⟩

/-- The identifiers of a fresh export tell the places, if they are all different. -/
theorem identified_of_distinctIds_fresh (h : DistinctIds (resources settings endpoints)) :
    Identified (freshId settings) (placesOf settings endpoints) := by
  have hkeys : ∀ f ∈ resources settings endpoints, (fieldOrNull f "_id").kind.isKey = true := by
    intro f hf
    obtain ⟨s, hs⟩ := exists_freshId hf
    rw [fieldOrNull_of_get? hs]
    rfl
  have hfolders := folders_fresh settings endpoints
  rw [resources_eq] at h hfolders hkeys
  rw [ofKind_cons_of_not rfl] at hfolders
  exact identified_of_distinctIds hfolders h hkeys

/-- **What is renamed becomes what was persisted for it.** A fresh identifier tells its resource, so
    what its entry inherits is what the resource becomes. -/
theorem renames_of_newNames (hfresh : DistinctIds (resources settings endpoints))
    (hexisting : DistinctIds existing) {names : List (Json × Json)}
    (h : newNames (resources settings endpoints) existing = .ok names) {f : Resource}
    (hf : f ∈ resources settings endpoints) {i : Json}
    (hget : Dict.get? names (fieldOrNull f "_id") = some i) : Renames settings existing f i := by
  obtain ⟨name, hname⟩ := exists_freshId hf
  rw [fieldOrNull_of_get? hname] at hget
  -- the identifier tells which of the fresh resources it is
  have hsame : ∀ {g : Resource}, g ∈ resources settings endpoints →
      Dict.get? g "_id" = some (.str name) → g = f := fun hg hid =>
    hfresh.eq_of_get? hg hf hid hname rfl (Json.str_beq_iff.mpr rfl)
  have hinherits := inherits_of_newNames h hget
  generalize hk : Json.str name = k at hinherits
  cases hinherits with
  | workspace first id =>
    obtain rfl := hsame (mem_resources.mpr (.inl rfl)) (congrArg some hk.symm)
    exact .workspace (List.mem_of_head? first) id
  | environment base id =>
    obtain rfl := hsame (mem_resources.mpr (.inr (.inl rfl))) (congrArg some hk.symm)
    exact .environment (mem_of_baseEnvironment? base) id
  | @folder p _ path place owner above ne same =>
    have hid := identified_of_distinctIds_fresh hfresh
    obtain rfl := hsame (mem_resources.mpr (.inr (.inr (.inl ⟨p, place, rfl⟩)))) (congrArg some hk.symm)
    rw [same hid] at above ne
    obtain ⟨folders, hfolders, -⟩ := bind_eq_ok_iff.mp above
    obtain ⟨hkey, hnames⟩ := (pathTo_eq_ok_iff hfolders).mp above
    obtain ⟨-, rfl⟩ := byId_of_distinctIds (hexisting.ofKind _) hfolders
    rcases owner with ⟨w, hw, hwid⟩ | ⟨r, hr, hrid⟩
    · -- a workspace with a folder's identifier would be that folder
      obtain ⟨j, ⟨r, hr, hrid⟩, heq⟩ := exists_folder_of_pathTo above ne
      refine absurd ?_ (ne_of_kinds (by decide) hw hr)
      exact hexisting.eq_of_get? (List.mem_filter.mp hw).1 (List.mem_filter.mp hr).1 hwid hrid hkey heq
    · exact .folder hr hrid hnames

end

section

variable {settings : Settings} {existing : List Resource} {f g : Resource} {i j : Json}

/-- What is renamed becomes a resource of its own kind, and is no request. -/
theorem Renames.kind (h : Renames settings existing f i) : isA "request" f = false ∧
    ∃ r ∈ existing, Dict.get? r "_id" = some i ∧ Dict.get? r "_type" = Dict.get? f "_type" := by
  have hkind : ∀ {kind : String} {r : Resource}, r ∈ ofKind kind existing →
      r ∈ existing ∧ Dict.get? r "_type" = some (.str kind) := fun hr =>
    ⟨(List.mem_filter.mp hr).1, isA_iff.mp (List.mem_filter.mp hr).2⟩
  cases h with
  | workspace hw hid => exact ⟨rfl, _, (hkind hw).1, hid, (hkind hw).2⟩
  | environment he hid => exact ⟨rfl, _, (hkind he).1, hid, (hkind he).2⟩
  | folder hr hid _ => exact ⟨rfl, _, (hkind hr).1, hid, (hkind hr).2⟩

/-- **No two resources get one name.** A persisted resource is of one kind, and a persisted folder
    has one path. -/
theorem Renames.injective (hexisting : DistinctIds existing) (h : Renames settings existing f i)
    (h' : Renames settings existing g j) (hkey : i.kind.isKey = true) (heq : (i == j) = true) :
    f = g := by
  -- the persisted resources are the same, hence of one kind, which leaves the cases on the diagonal
  have hsame : ∀ {kind kind' : String} {r s : Resource}, r ∈ ofKind kind existing →
      s ∈ ofKind kind' existing → Dict.get? r "_id" = some i → Dict.get? s "_id" = some j →
      r = s ∧ kind = kind' := by
    intro kind kind' r s hr hs hi hj
    obtain rfl :=
      hexisting.eq_of_get? (List.mem_filter.mp hr).1 (List.mem_filter.mp hs).1 hi hj hkey heq
    exact ⟨rfl, by_contra fun hne => ne_of_kinds hne hr hs rfl⟩
  cases h with
  | workspace hr hi =>
    cases h' with
    | workspace _ _ => rfl
    | environment hs hj => exact absurd (hsame hr hs hi hj).2 (by decide)
    | folder hs hj _ => exact absurd (hsame hr hs hi hj).2 (by decide)
  | environment hr hi =>
    cases h' with
    | workspace hs hj => exact absurd (hsame hr hs hi hj).2 (by decide)
    | environment _ _ => rfl
    | folder hs hj _ => exact absurd (hsame hr hs hi hj).2 (by decide)
  | folder hr hi hpath =>
    cases h' with
    | workspace hs hj => exact absurd (hsame hr hs hi hj).2 (by decide)
    | environment hs hj => exact absurd (hsame hr hs hi hj).2 (by decide)
    | folder hs hj hpath' =>
      -- one persisted folder has one path
      obtain rfl := (hsame hr hs hi hj).1
      obtain rfl := Option.some.inj (hi.symm.trans hj)
      have hnames := Except.ok.inj (hpath.symm.trans hpath')
      have hstr : Function.Injective Json.str := fun _ _ h => Json.str.inj h
      exact congrArg (folderAt (freshId settings)) (List.map_injective_iff.mpr hstr hnames)

end

end RouteAtlas.Insomnia
