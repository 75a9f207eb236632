/-
  Parents in a merged export.

  ==== Problem ====

  A resource names its parent by identifier.  A merge drops the persisted folders whose paths are not
  fresh, and requests that are not kept; what lived in them may be left behind.

  ==== Program ====

  Fresh resources are renamed together with their parents.  A request that is put aside is moved to
  the folder with its old path, or to the workspace.  What passes through is not moved.

  ==== Spec ====

  `Housed`: the parent that a resource names is there.  Everything persisted is housed.  Then in the
  merged export (`housed_merge_iff`)

  * whatever does not pass through is housed, and
  * everything is housed exactly when the folders and requests that something passing through lives
    in keep their identifiers (`keptIds`).

  The second does not hold of all exports (`merge_leaves_orphan`): a folder that no endpoint is in
  any more is dropped, and a resource of another kind in it stays.

  ==== The crux ====

  Workspaces and environments are never dropped, and neither are resources of other kinds; so of what
  a resource can live in, only folders and requests go.
-/
import RouteAtlas.Proofs.Insomnia.Placement
import RouteAtlas.Proofs.Insomnia.TakenOver

namespace RouteAtlas.Insomnia

open Persisted (bind_eq_ok_iff)
open Resource (isA ofKind fieldOrNull)

/-- A resource has the identifier, in one spelling or another. -/
def Owned (rs : List Resource) (i : Json) : Prop :=
  ∃ r ∈ rs, ∃ j ∈ Dict.get? r "_id", (j == i) = true

instance (rs : List Resource) (i : Json) : Decidable (Owned rs i) :=
  inferInstanceAs (Decidable (∃ r ∈ rs, ∃ j ∈ Dict.get? r "_id", (j == i) = true))

/-- The parent that the resource names, if it does, is there. -/
def Housed (rs : List Resource) (r : Resource) : Prop :=
  ∀ i ∈ Dict.get? r "parentId", Owned rs i

instance (rs : List Resource) (r : Resource) : Decidable (Housed rs r) :=
  inferInstanceAs (Decidable (∀ i ∈ Dict.get? r "parentId", Owned rs i))

/-- The resource lives in another one. -/
def LivesIn (r s : Resource) : Prop :=
  ∃ i ∈ Dict.get? r "parentId", (fieldOrNull s "_id" == i) = true

instance (r s : Resource) : Decidable (LivesIn r s) :=
  inferInstanceAs (Decidable (∃ i ∈ Dict.get? r "parentId", (fieldOrNull s "_id" == i) = true))

/-! ## What does not pass through

The workspace, the environment, folders and requests of the fresh export, and what is left over. All
of them get a parent that the merge itself has written. -/

section

variable {settings : Settings} {endpoints : List Endpoint} {existing merged : List Resource}
  {mark : Bool} {w : Resource}

namespace Parts

variable (parts : Parts settings endpoints existing mark merged) (hids : DistinctIds existing)
  (hworkspace : ofKind "workspace" existing = [w])

include hworkspace in
/-- The workspace keeps its identifier. -/
theorem get?_id_workspace : Dict.get? w "_id" = some (parts.id []) := by
  refine placeId_root parts.names ?_
  rw [hworkspace]
  rfl

include parts in
/-- What comes before the resources that pass through is in the merged export. -/
theorem mem_merged_of_front {r : Resource} (hr : r ∈ parts.front) : r ∈ merged := by
  rw [parts.eq_front]
  exact List.mem_append_left _ hr

include hids hworkspace

/-- The identifiers of places equal themselves: they are fresh or were persisted. -/
theorem place_self {p : List String} (hp : p ∈ [] :: placesOf settings endpoints) :
    (parts.id p == parts.id p) = true := by
  have hself : ∀ {kind : String} {i : Json}, HasId (ofKind kind existing) i → (i == i) = true := by
    rintro kind i ⟨r, hr, hid⟩
    have hself := hids.beq_self (List.mem_filter.mp hr).1
    rwa [fieldOrNull_of_get? hid] at hself
  -- persisted identifiers equal themselves as they are told apart, and fresh ones are texts
  rcases List.mem_cons.mp hp with rfl | hp
  · exact hself ⟨w, hworkspace ▸ List.mem_singleton_self w, parts.get?_id_workspace hworkspace⟩
  · rcases placeId_cases parts.names hp with hid | ⟨hid | hid, -⟩
    · have hfresh : parts.id p = freshId settings p := hid
      rw [hfresh]
      exact Json.str_beq_iff.mpr rfl
    · exact hself hid
    · exact hself hid

omit hids hworkspace in
/-- Every place is there, in whatever spelling. -/
theorem owned_place {p : List String} (hp : p ∈ [] :: placesOf settings endpoints) {i : Json}
    (heq : (parts.id p == i) = true) : Owned merged i := by
  rcases List.mem_cons.mp hp with rfl | hp
  · have hmem : workspaceAt settings (parts.id []) ∈ ofKind "workspace" merged := by
      rw [parts.workspaces]
      exact List.mem_singleton_self _
    exact ⟨_, (List.mem_filter.mp hmem).1, _, rfl, heq⟩
  · have hmem : folderAt parts.id p ∈ ofKind "request_group" merged := by
      rw [parts.folders]
      exact List.mem_map_of_mem hp
    exact ⟨_, (List.mem_filter.mp hmem).1, _, rfl, heq⟩

variable (hfresh : ∀ f ∈ ofKind "request_group" (resources settings endpoints),
  (fieldOrNull w "_id" == fieldOrNull f "_id") = false)
include hfresh

/-- No folder of the merged export has the identifier of the workspace, unless a fresh one has.  The
    folder has its fresh identifier or that of a persisted folder, and no folder has the identifier
    of the persisted workspace. -/
theorem root_ne_place {p : List String} (hp : p ∈ placesOf settings endpoints) :
    (parts.id [] == parts.id p) = false := by
  have hroot := parts.get?_id_workspace hworkspace
  have hfield : fieldOrNull w "_id" = parts.id [] := fieldOrNull_of_get? hroot
  have hkey : (parts.id []).kind.isKey = true :=
    parts.keys (workspaceAt settings (parts.id [])) (List.mem_cons_self ..)
  have hw : w ∈ ofKind "workspace" existing := hworkspace ▸ List.mem_singleton_self w
  refine Bool.eq_false_iff.mpr fun heq => ?_
  rcases placeId_cases parts.names hp with hid | ⟨-, path, hpath, hne⟩
  · have hfolder : folderAt (freshId settings) p ∈ ofKind "request_group" (resources settings endpoints) := by
      rw [folders_fresh]
      exact List.mem_map_of_mem hp
    have hno : (parts.id [] == freshId settings p) = false := hfield ▸ hfresh _ hfolder
    have hname : parts.id p = freshId settings p := hid
    exact absurd (heq.symm.trans (hname ▸ hno)) (by decide)
  · -- a persisted folder has it, too
    obtain ⟨j, ⟨f, hf, hj⟩, hpj⟩ := exists_folder_of_pathTo hpath hne
    obtain ⟨folders, htable, -⟩ := bind_eq_ok_iff.mp hpath
    have hpkey := ((pathTo_eq_ok_iff htable).mp hpath).1
    have hsame := Json.beq_trans_of_key hkey hpkey heq hpj
    obtain rfl := hids.eq_of_get? (List.mem_filter.mp hw).1 (List.mem_filter.mp hf).1 hroot hj hkey hsame
    exact ne_of_kinds (by decide) hw hf rfl

section

variable {paths : List (Json × FolderPath)} {table : List (FolderPath × Json)}
  (hpaths : folderPaths parts.refreshed = .ok paths) (htable : foldersByPath paths = .ok table)
include hpaths htable

omit hids hworkspace hfresh in
/-- What is found by a path is a place. -/
theorem place_of_found {path : FolderPath} {i : Json} (hget : Dict.get? table path = some i) :
    ∃ p ∈ [] :: placesOf settings endpoints, i = parts.id p := by
  obtain ⟨path', hmem⟩ := exists_mem_of_foldersByPath htable hget
  rcases (hasId_of_mem_folderPaths hpaths hmem).1 with ⟨r, hr, hid⟩ | ⟨r, hr, hid⟩
  · rw [parts.workspaces_refreshed] at hr
    obtain rfl := List.mem_singleton.mp hr
    exact ⟨[], List.mem_cons_self .., (Option.some.inj hid).symm⟩
  · rw [parts.folders_refreshed] at hr
    obtain ⟨p, hp, rfl⟩ := List.mem_map.mp hr
    exact ⟨p, List.mem_cons_of_mem _ hp, (Option.some.inj hid).symm⟩

/-- The workspace is found, since no folder has its identifier. -/
theorem isSome_root : (Dict.get? table []).isSome = true := by
  have hself := parts.place_self hids hworkspace (List.mem_cons_self (a := []))
  have hkey : (parts.id []).kind.isKey = true :=
    parts.keys (workspaceAt settings (parts.id [])) (List.mem_cons_self ..)
  have hroot : HasId (ofKind "workspace" parts.refreshed) (parts.id []) := by
    rw [parts.workspaces_refreshed]
    exact ⟨_, List.mem_singleton_self _, rfl⟩
  have hlisted := get?_folderPaths_root hpaths hkey hroot hself fun j ⟨r, hr, hj⟩ => by
    rw [parts.folders_refreshed] at hr
    obtain ⟨p, hp, rfl⟩ := List.mem_map.mp hr
    obtain rfl := Option.some.inj hj
    exact parts.root_ne_place hids hworkspace hfresh hp
  obtain ⟨k, hk, -⟩ := Dict.exists_mem_of_get? hlisted
  exact isSome_foldersByPath htable hk rfl

/-- **What is put aside is moved to a place.** -/
theorem place_of_leftover {oldPaths : List (Json × FolderPath)} {old l : Resource}
    (h : leftover oldPaths table old = .ok l) :
    ∃ p ∈ [] :: placesOf settings endpoints, Dict.get? l "parentId" = some (parts.id p) := by
  obtain ⟨name, -, h⟩ := bind_eq_ok_iff.mp h
  obtain ⟨parent, -, h⟩ := bind_eq_ok_iff.mp h
  obtain ⟨path, -, h⟩ := bind_eq_ok_iff.mp h
  obtain rfl := Except.ok.inj h
  obtain ⟨root, hroot⟩ := Option.isSome_iff_exists.mp
    (parts.isSome_root hids hworkspace hfresh hpaths htable)
  rw [Dict.putAll_cons, Dict.putAll_cons, Dict.putAll_nil, Dict.get?_put_self, hroot,
    Option.getD_some]
  cases hget : Dict.get? table path with
  | some i =>
    obtain ⟨p, hp, rfl⟩ := parts.place_of_found hpaths htable hget
    exact ⟨p, hp, rfl⟩
  | none =>
    obtain ⟨p, hp, rfl⟩ := parts.place_of_found hpaths htable hroot
    exact ⟨p, hp, rfl⟩

end

/-- **Whatever does not pass through is housed.** -/
theorem housed_front {r : Resource} (hr : r ∈ parts.front) : Housed merged r := by
  have hplace : ∀ {p : List String}, p ∈ [] :: placesOf settings endpoints →
      Dict.get? r "parentId" = some (parts.id p) → Housed merged r := by
    intro p hp hparent i hi
    obtain rfl := Option.some.inj (hparent.symm.trans hi)
    exact parts.owned_place hp (parts.place_self hids hworkspace hp)
  rcases parts.front_cases hr with rfl | rfl | ⟨entry, hentry, hfrom⟩ | hleft
  · -- the workspace names no parent
    have hnone : Dict.get? (workspaceAt settings (parts.id [])) "parentId" = none := rfl
    exact fun i hi => absurd (hnone ▸ hi) (Option.not_mem_none i)
  · exact hplace (List.mem_cons_self ..) parts.environment_parent
  · cases hfrom with
    | folder p =>
      have hp := List.mem_cons_of_mem [] (mem_foldersAmong.mpr hentry)
      exact hplace ((rooted_allEntries settings endpoints).dropLast_mem hp) rfl
    | request _ parent _ => exact hplace (entries_placed hentry) parent
  · obtain ⟨oldPaths, paths, table, -, hpaths, htable, g, -, hstep⟩ := parts.leftover_of_left hleft
    obtain ⟨p, hp, hparent⟩ := parts.place_of_leftover hids hworkspace hfresh hpaths htable hstep
    exact hplace hp hparent

omit hworkspace hfresh in
include parts in
/-- Identifiers in the merged export are kept ones, or of what passes through.  The merged export is
    its front, with the kept identifiers, followed by what passed through. -/
theorem owned_iff {i : Json} : Owned merged i ↔
    (∃ k ∈ keptIds settings endpoints existing mark, (k == i) = true) ∨
    ∃ s ∈ existing, passesBeside (keptIds settings endpoints existing mark) s = true ∧
      (fieldOrNull s "_id" == i) = true := by
  have hfront := parts.idsOf_front hids
  constructor
  · rintro ⟨r, hr, j, hj, heq⟩
    have hfield : fieldOrNull r "_id" = j := fieldOrNull_of_get? hj
    rw [parts.eq_front] at hr
    rcases List.mem_append.mp hr with hr | hr
    · exact .inl ⟨j, hfront ▸ hfield ▸ List.mem_map_of_mem hr, heq⟩
    · obtain ⟨hmem, hpass⟩ := parts.mem_passed.mp hr
      exact .inr ⟨r, hmem, hfront ▸ hpass, hfield ▸ heq⟩
  · rintro (⟨k, hk, heq⟩ | ⟨s, hs, hpass, heq⟩)
    · rw [← hfront] at hk
      obtain ⟨r, hr, rfl⟩ := List.mem_map.mp hk
      exact ⟨r, parts.mem_merged_of_front hr, _, parts.get?_id_front hids hr, heq⟩
    · have hmem : s ∈ parts.passed := parts.mem_passed.mpr ⟨hs, hfront ▸ hpass⟩
      refine ⟨s, ?_, _, hids.get?_eq hs, heq⟩
      rw [parts.eq_front]
      exact List.mem_append_right _ hmem

omit hworkspace hfresh in
include parts in
/-- The identifiers that are kept can be looked up by. -/
theorem isKey_of_mem_keptIds {k : Json} (hk : k ∈ keptIds settings endpoints existing mark) :
    k.kind.isKey = true := by
  rw [← parts.idsOf_front hids] at hk
  obtain ⟨r, hr, rfl⟩ := List.mem_map.mp hk
  exact parts.keys r hr

end Parts

/-! ## What passes through

These resources keep their parents.  Whether the parent is still there under its identifier depends
on what became of the folders and requests of the persisted export. -/

/-- The folders and requests that something passing through lives in keep their identifiers. -/
def HomesKept (settings : Settings) (endpoints : List Endpoint) (existing : List Resource)
    (mark : Bool) : Prop :=
  ∀ r ∈ existing, passesBeside (keptIds settings endpoints existing mark) r = true →
    ∀ s ∈ existing, isA "request_group" s = true ∨ isA "request" s = true → LivesIn r s →
      ∃ k ∈ keptIds settings endpoints existing mark, (k == fieldOrNull s "_id") = true

instance (settings : Settings) (endpoints : List Endpoint) (existing : List Resource) (mark : Bool) :
    Decidable (HomesKept settings endpoints existing mark) :=
  inferInstanceAs (Decidable (∀ r ∈ existing,
    passesBeside (keptIds settings endpoints existing mark) r = true →
      ∀ s ∈ existing, isA "request_group" s = true ∨ isA "request" s = true → LivesIn r s →
        ∃ k ∈ keptIds settings endpoints existing mark, (k == fieldOrNull s "_id") = true))

namespace Parts

variable (parts : Parts settings endpoints existing mark merged) (hids : DistinctIds existing)
  (hkeys : ∀ r ∈ existing, (fieldOrNull r "_id").kind.isKey = true)
include parts hids hkeys

/-- What passes through is not housed unless its home is kept.  What passes through keeps its
    parent, and the home it had can only be seen again under a kept identifier, since folders and
    requests do not pass. -/
theorem homesKept_of_housed (hall : ∀ r ∈ merged, Housed merged r) :
    HomesKept settings endpoints existing mark := by
  rintro r hr hpass s hs hkind ⟨i, hi, hsi⟩
  have hmem : r ∈ merged := by
    rw [parts.eq_front]
    exact List.mem_append_right _ (parts.mem_passed.mpr ⟨hr, parts.idsOf_front hids ▸ hpass⟩)
  have hikey : i.kind.isKey = true := by
    cases hi : i.kind.isKey with
    | true => rfl
    | false => exact absurd (hsi.symm.trans (Json.beq_eq_false_of_not_key (hkeys s hs) hi).1) (by decide)
  have his := Json.beq_symm_of_key (hkeys s hs) hikey hsi
  rcases (parts.owned_iff hids).mp (hall r hmem i hi) with ⟨k, hk, hki⟩ | ⟨s', hs', hpass', hs'i⟩
  · exact ⟨k, hk, Json.beq_trans_of_key (parts.isKey_of_mem_keptIds hids hk) hikey hki his⟩
  · -- an identifier tells its resource, and the home does not pass through
    have hsame := Json.beq_trans_of_key (hkeys s' hs') hikey hs'i his
    obtain rfl := hids.eq_of_beq hs' hs (hkeys s' hs') hsame
    have hno : ∀ kind ∈ ownKinds, kind ≠ "environment" → isA kind s' = false :=
      fun _ => isA_false_of_passesBeside hpass'
    rw [hno "request_group" (by decide) (by decide), hno "request" (by decide) (by decide)] at hkind
    exact absurd hkind (by decide)

/-- **What passes through is housed where homes are kept**: all other resources that are persisted
    stay. -/
theorem housed_of_homesKept (hworkspace : ofKind "workspace" existing = [w])
    (hkept : HomesKept settings endpoints existing mark) {r : Resource} (hr : r ∈ existing)
    (hpass : passesBeside (keptIds settings endpoints existing mark) r = true)
    (hhoused : Housed existing r) : Housed merged r := by
  intro i hi
  obtain ⟨s, hs, j, hj, hji⟩ := hhoused i hi
  have hfield : fieldOrNull s "_id" = j := fieldOrNull_of_get? hj
  have hjkey : j.kind.isKey = true := hfield ▸ hkeys s hs
  -- a home that keeps its identifier is owned in the merged export
  have howned : ∀ k ∈ keptIds settings endpoints existing mark, (k == j) = true → Owned merged i :=
    fun k hk hkj => (parts.owned_iff hids).mpr
      (.inl ⟨k, hk, Json.beq_trans_of_key (parts.isKey_of_mem_keptIds hids hk) hjkey hkj hji⟩)
  have hlives : LivesIn r s := ⟨i, hi, hfield ▸ hji⟩
  cases hpass' : passesBeside (keptIds settings endpoints existing mark) s with
  | true => exact (parts.owned_iff hids).mpr (.inr ⟨s, hs, hpass', hfield ▸ hji⟩)
  | false =>
    rcases own_of_not_passesBeside hpass' with hkind | hkind | hkind | ⟨-, hthere⟩
    · -- the workspace
      have hmem : s ∈ ofKind "workspace" existing := List.mem_filter.mpr ⟨hs, hkind⟩
      rw [hworkspace] at hmem
      obtain rfl := List.mem_singleton.mp hmem
      obtain rfl := Option.some.inj (hj.symm.trans (parts.get?_id_workspace hworkspace))
      exact parts.owned_place (List.mem_cons_self ..) hji
    · obtain ⟨k, hk, hks⟩ := hkept r hr hpass s hs (.inl hkind) hlives
      exact howned k hk (hfield ▸ hks)
    · obtain ⟨k, hk, hks⟩ := hkept r hr hpass s hs (.inr hkind) hlives
      exact howned k hk (hfield ▸ hks)
    · -- an environment that is there already
      rw [List.contains_eq_any_beq, List.any_eq_true] at hthere
      obtain ⟨k, hk, hsk⟩ := hthere
      exact howned k hk (hfield ▸
        Json.beq_symm_of_key (hkeys s hs) (parts.isKey_of_mem_keptIds hids hk) hsk)

end Parts

/-- **Parents in a merged export.**  All that does not pass through is housed.  What passes through
    is, too, exactly if the folders and requests that it lives in keep their identifiers. -/
theorem housed_merge_iff {date : String} {before : Option (Dict Json)} {document' : Dict Json}
    (h : merge (document date settings endpoints) before mark = .ok document')
    (hids : DistinctIds (resourcesBefore before))
    (hkeys : ∀ r ∈ resourcesBefore before, (fieldOrNull r "_id").kind.isKey = true)
    (hworkspace : ofKind "workspace" (resourcesBefore before) = [w])
    (hfresh : ∀ f ∈ ofKind "request_group" (resources settings endpoints),
      (fieldOrNull w "_id" == fieldOrNull f "_id") = false)
    (hhoused : ∀ r ∈ resourcesBefore before, isA "workspace" r = false →
      Housed (resourcesBefore before) r) :
    (∀ r ∈ resourcesOf document',
      passesBeside (keptIds settings endpoints (resourcesBefore before) mark) r = false →
        Housed (resourcesOf document') r) ∧
    ((∀ r ∈ resourcesOf document', Housed (resourcesOf document') r) ↔
      HomesKept settings endpoints (resourcesBefore before) mark) := by
  have hmerge : mergeResources ((resources settings endpoints).map .obj) (resourcesBefore before) mark
      = .ok (resourcesOf document') := by
    rcases merge_cases h with ⟨hnone, -⟩ | hmerge
    · rw [hnone] at hworkspace
      exact absurd hworkspace (by simp [ofKind])
    · exact hmerge
  obtain ⟨parts⟩ := parts_of_merge hmerge
  have hfront := parts.idsOf_front hids
  -- a resource is housed by the merge, or it passed through and the home decides
  have hcases : ∀ r ∈ resourcesOf document', Housed (resourcesOf document') r ∨
      r ∈ resourcesBefore before ∧
        passesBeside (keptIds settings endpoints (resourcesBefore before) mark) r = true := by
    intro r hr
    rw [parts.eq_front] at hr
    rcases List.mem_append.mp hr with hr | hr
    · exact .inl (parts.housed_front hids hworkspace hfresh hr)
    · exact .inr (hfront ▸ parts.mem_passed.mp hr)
  refine ⟨fun r hr hpass => ?_, parts.homesKept_of_housed hids hkeys, fun hkept r hr => ?_⟩
  · rcases hcases r hr with hhoused | ⟨-, hpass'⟩
    · exact hhoused
    · exact absurd (hpass'.symm.trans hpass) (by decide)
  · rcases hcases r hr with hhoused | ⟨hmem, hpass⟩
    · exact hhoused
    · have hnot : isA "workspace" r = false := isA_false_of_passesBeside hpass (by decide) (by decide)
      exact parts.housed_of_homesKept hids hkeys hworkspace hkept hmem hpass (hhoused r hmem hnot)

end

/-- A workspace with a folder, and a call in that folder. -/
def exportWithCall (folder : String) : Dict Json :=
  [("resources", .arr [
    .obj [("_id", .str "w"), ("_type", .str "workspace"), ("name", .str "Mine")],
    .obj [("_id", .str "f"), ("_type", .str "request_group"), ("parentId", .str "w"),
      ("name", .str folder)],
    .obj [("_id", .str "g"), ("_type", .str "grpc_request"), ("parentId", .str "f"),
      ("name", .str "Call")]])]

/-- A call in a folder that is fresh is housed. -/
theorem housed_merge_users : ∃ merged,
    merge (document "" {} [sampleEndpoint]) (some (exportWithCall "Users")) true = .ok merged ∧
    ∀ r ∈ resourcesOf merged, Housed (resourcesOf merged) r := by
  have hruns : (merge (document "" {} [sampleEndpoint]) (some (exportWithCall "Users"))
      true).toOption.any (fun _ => true) = true := by
    decide +kernel
  have hkept : HomesKept {} [sampleEndpoint] (resourcesBefore (some (exportWithCall "Users"))) true := by
    decide +kernel
  obtain ⟨merged, hmerged, -⟩ := Persisted.exists_ok_of_any hruns
  refine ⟨merged, hmerged, (housed_merge_iff
    (w := [("_id", .str "w"), ("_type", .str "workspace"), ("name", .str "Mine")]) hmerged
    (by decide +kernel) (by decide +kernel) rfl (by decide +kernel) (by decide +kernel)).2.mpr hkept⟩

/-- **A call in a folder that is not fresh loses its parent**: the folder is dropped, and the call
    stays. -/
theorem merge_leaves_orphan :
    (ofKind "workspace" (resourcesBefore (some (exportWithCall "Old")))).length = 1 ∧
    (∀ r ∈ resourcesBefore (some (exportWithCall "Old")),
      Housed (resourcesBefore (some (exportWithCall "Old"))) r) ∧
    ∃ merged,
      merge (document "" {} [sampleEndpoint]) (some (exportWithCall "Old")) true = .ok merged ∧
      ¬∀ r ∈ resourcesOf merged, Housed (resourcesOf merged) r := by
  have hruns : (merge (document "" {} [sampleEndpoint]) (some (exportWithCall "Old")) true).toOption.any
      (fun merged => decide (¬∀ r ∈ resourcesOf merged, Housed (resourcesOf merged) r)) = true := by
    decide +kernel
  obtain ⟨merged, hmerged, horphan⟩ := Persisted.exists_ok_of_any hruns
  exact ⟨by decide +kernel, by decide +kernel, merged, hmerged, of_decide_eq_true horphan⟩

end RouteAtlas.Insomnia
