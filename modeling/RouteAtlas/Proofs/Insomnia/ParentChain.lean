/-
  Folder paths and parent chains.

  ==== Problem ====

  Users edit what is persisted.  A folder's parent may be a folder, the workspace, another workspace
  or nothing at all, and parents may go round in a circle.

  ==== Program ====

  `folderPaths` goes up from every folder.  It takes each folder it passes out of the table, so a
  circle ends, and puts the names together on the way back (`namesAbove`).

  ==== Spec ====

  `Climbs` follows parents through folders, as far as one likes.  The `ParentChain` of an identifier
  passes no folder twice and stops only where it has to: at what is no folder, or at one that was
  passed already.  Where workspaces and folders are told apart by their identifiers there is exactly
  one, and the path of a folder spells it (`FollowsParents`).

  ==== The crux ====

  The walk looks only at the folders that are left, the chain at all of them.  So the induction
  (`exists_chainAmong_of_namesAbove`) is on the folders left: the chain found is among these, and
  stops at none of these that is not in it (`ChainAmong`).  A folder put in front of it was taken out
  before, so it is in it only once.
-/
import RouteAtlas.Proofs.Insomnia.Rename

namespace RouteAtlas.Insomnia

open Json (comparable_keys)
open Persisted (lookupKey lookupKey_of_key lookupKey_eq_ok_iff bind_eq_ok_iff ok_bind
  exists_mapM_ok_iff)
open Resource (ofKind fieldOrNull byId)

/-! ## Workspaces and folders

What is required of an export: identifiers that can be looked up by, and no two workspaces or
folders with the same one.  Nothing is required of the parents. -/

/-- The resources of a kind that have an identifier. -/
def withId (kind : String) (rs : List Resource) : List Resource :=
  (ofKind kind rs).filter (Dict.has · "_id")

/-- The workspaces and folders that have an identifier. -/
def addressed (rs : List Resource) : List Resource :=
  withId "workspace" rs ++ withId "request_group" rs

/-- The identifiers of workspaces and folders, and those of the folders' parents, can be looked up
    by. -/
structure KeyIds (rs : List Resource) : Prop where
  own : ∀ r ∈ addressed rs, (fieldOrNull r "_id").kind.isKey = true
  parent : ∀ f ∈ withId "request_group" rs, (fieldOrNull f "parentId").kind.isKey = true

instance (rs : List Resource) : Decidable (KeyIds rs) :=
  decidable_of_iff ((∀ r ∈ addressed rs, (fieldOrNull r "_id").kind.isKey = true) ∧
      ∀ f ∈ withId "request_group" rs, (fieldOrNull f "parentId").kind.isKey = true)
    ⟨fun h => ⟨h.1, h.2⟩, fun h => ⟨h.own, h.parent⟩⟩

/-- No two workspaces or folders have one identifier. -/
def ToldApart (rs : List Resource) : Prop :=
  (addressed rs).Pairwise fun r s => (fieldOrNull r "_id" == fieldOrNull s "_id") = false

instance (rs : List Resource) : Decidable (ToldApart rs) :=
  inferInstanceAs (Decidable ((addressed rs).Pairwise fun r s =>
    (fieldOrNull r "_id" == fieldOrNull s "_id") = false))

/-! ## Going up

The parents of a folder, as a relation that does not speak of tables or of a walk.  A chain stops at
what is no folder, or at a folder that it has passed already. -/

/-- The name of a folder, empty when it has none. -/
def folderName (f : Resource) : Json := (Dict.get? f "name").getD (.str "")

/-- An identifier is that of a folder. -/
def IsFolder (rs : List Resource) (id : Json) (f : Resource) : Prop :=
  f ∈ withId "request_group" rs ∧ (id == fieldOrNull f "_id") = true

/-- Following parents from an identifier passes the given folders, innermost first, and leads to
    another identifier. -/
inductive Climbs (rs : List Resource) : Json → List Resource → Json → Prop
  | stop (id : Json) : Climbs rs id [] id
  | step {id top : Json} {f : Resource} {chain : List Resource} (folder : IsFolder rs id f)
      (above : Climbs rs (fieldOrNull f "parentId") chain top) : Climbs rs id (f :: chain) top

/-- The folders from an identifier upwards, innermost first, as long as there are any and each of
    them once. -/
structure ParentChain (rs : List Resource) (id : Json) (chain : List Resource) (top : Json) :
    Prop where
  climbs : Climbs rs id chain top
  once : chain.Nodup
  ends : ∀ f, IsFolder rs top f → f ∈ chain

/-- Following parents from an identifier never leads back to a folder that was passed. -/
def Acyclic (rs : List Resource) (id : Json) : Prop :=
  ∀ chain top, Climbs rs id chain top → ∀ f ∈ chain, ¬IsFolder rs top f

/-- A table of paths follows the parents. -/
structure FollowsParents (rs : List Resource) (paths : List (Json × FolderPath)) : Prop where
  listed : Dict.keys paths = (addressed rs).map fun r => fieldOrNull r "_id"
  workspace : ∀ w ∈ withId "workspace" rs, Dict.get? paths (fieldOrNull w "_id") = some []
  chain : ∀ f ∈ withId "request_group" rs,
    ∃! chain, ∃ top, ParentChain rs (fieldOrNull f "_id") chain top
  folder : ∀ f ∈ withId "request_group" rs, ∀ chain top,
    ParentChain rs (fieldOrNull f "_id") chain top →
      Dict.get? paths (fieldOrNull f "_id") = some (chain.map folderName).reverse
  child : ∀ f ∈ withId "request_group" rs, ∀ g ∈ withId "request_group" rs,
    (fieldOrNull f "parentId" == fieldOrNull g "_id") = true → Acyclic rs (fieldOrNull f "_id") →
      ∃ path, Dict.get? paths (fieldOrNull g "_id") = some path ∧
        Dict.get? paths (fieldOrNull f "_id") = some (path ++ [folderName f])

/-! ## Resources under their identifiers

The walk takes a folder out of the table when it has passed it.  In terms of resources, it goes on
with those that have another identifier. -/

/-- Resources under their identifiers. -/
def idTable (rs : List Resource) : List (Json × Resource) := rs.map fun r => (fieldOrNull r "_id", r)

section

variable {rs : List Resource} {id : Json}

/-- The table lists the identifiers of the resources. -/
theorem keys_idTable (rs : List Resource) :
    Dict.keys (idTable rs) = rs.map fun r => fieldOrNull r "_id" := List.map_map

/-- What is found by an identifier has it. -/
theorem mem_of_get?_idTable {r : Resource} (h : Dict.get? (idTable rs) id = some r) :
    r ∈ rs ∧ (id == fieldOrNull r "_id") = true := by
  obtain ⟨k, hk, hid⟩ := Dict.exists_mem_of_get? h
  obtain ⟨s, hs, heq⟩ := List.mem_map.mp hk
  obtain ⟨rfl, rfl⟩ := Prod.mk.inj heq
  exact ⟨hs, hid⟩

/-- An identifier that a resource has finds one. -/
theorem exists_get?_idTable {r : Resource} (hr : r ∈ rs) (hid : (id == fieldOrNull r "_id") = true) :
    ∃ s, Dict.get? (idTable rs) id = some s := by
  refine Option.isSome_iff_exists.mp (Dict.isSome_get?_iff.mpr ⟨fieldOrNull r "_id", ?_, hid⟩)
  rw [keys_idTable]
  exact List.mem_map_of_mem hr

/-- The resources but the ones with the given identifier. -/
def besidesId (rs : List Resource) (id : Json) : List Resource :=
  rs.filter fun r => !(id == fieldOrNull r "_id")

/-- Taking an entry out of the table leaves the resources with other identifiers. -/
theorem without_idTable (rs : List Resource) (id : Json) :
    without (idTable rs) id = idTable (besidesId rs id) := by
  rw [without, idTable, List.filter_map]
  rfl

/-- There are fewer of them, so a walk that takes out what it passes comes to an end. -/
theorem besidesId_lt {r : Resource} (h : Dict.get? (idTable rs) id = some r) :
    (besidesId rs id).length < rs.length := by
  have hlt := without_lt h
  rwa [without_idTable, idTable, idTable, List.length_map, List.length_map] at hlt

theorem mem_besidesId {r : Resource} :
    r ∈ besidesId rs id ↔ r ∈ rs ∧ (id == fieldOrNull r "_id") = false := by
  rw [besidesId, List.mem_filter, Bool.not_eq_true']

end

/-! ## The walk ends

By induction on the number of folders that are left.  No assumption on the parents is needed: a
circle is left when its first folder is missing from the table. -/

/-- One step up: a folder is taken out, and the walk goes on at its parent. -/
theorem namesAbove_eq_ok_iff_of_get? {folders : List (Json × Resource)} {id : Json} {r : Resource}
    (hget : Dict.get? folders id = some r) {path : FolderPath} :
    namesAbove folders id = .ok path ↔ (fieldOrNull r "parentId").kind.isKey = true ∧
      ∃ above, namesAbove (without folders id) (fieldOrNull r "parentId") = .ok above ∧
        path = above ++ [folderName r] := by
  rw [namesAbove_eq, hget]
  show (lookupKey (fieldOrNull r "parentId") >>= _) = .ok path ↔ _
  rw [bind_eq_ok_iff]
  constructor
  · rintro ⟨parent, hparent, h⟩
    obtain ⟨hkey, rfl⟩ := lookupKey_eq_ok_iff.mp hparent
    obtain ⟨above, habove, h⟩ := bind_eq_ok_iff.mp h
    exact ⟨hkey, above, habove, (Except.ok.inj h).symm⟩
  · rintro ⟨hkey, above, habove, rfl⟩
    exact ⟨_, lookupKey_of_key hkey, bind_eq_ok_iff.mpr ⟨above, habove, rfl⟩⟩

/-- Above what is no folder that is left, there is nothing. -/
theorem namesAbove_of_get?_eq_none {folders : List (Json × Resource)} {id : Json}
    (hget : Dict.get? folders id = none) : namesAbove folders id = .ok [] := by
  rw [namesAbove_eq, hget]

/-- The walk up gives a path, whatever the parents are. -/
theorem exists_namesAbove {folders : List (Json × Resource)}
    (hparents : ∀ f ∈ folders, (fieldOrNull f.2 "parentId").kind.isKey = true) (id : Json) :
    ∃ path, namesAbove folders id = .ok path := by
  induction hn : folders.length using Nat.strong_induction_on generalizing folders id with
  | _ n ih =>
    subst hn
    cases hget : Dict.get? folders id with
    | none => exact ⟨[], namesAbove_of_get?_eq_none hget⟩
    | some r =>
      obtain ⟨k, hk, -⟩ := Dict.exists_mem_of_get? hget
      obtain ⟨above, habove⟩ := ih _ (without_lt hget)
        (fun f hf => hparents f (List.mem_filter.mp hf).1) (fieldOrNull r "parentId") rfl
      exact ⟨_, (namesAbove_eq_ok_iff_of_get? hget).mpr ⟨hparents _ hk, above, habove, rfl⟩⟩

/-- **Paths are found wherever identifiers can be looked up by**, told apart or not.  Nothing but an
    identifier or a parent that is no key can fail here, and circles are cut off. -/
theorem exists_folderPaths {rs : List Resource} (hkeys : KeyIds rs) :
    ∃ paths, folderPaths rs = .ok paths := by
  have htable : ∀ {kind : String}, (∀ r ∈ withId kind rs, r ∈ addressed rs) →
      byId (ofKind kind rs) = .ok (Dict.ofList (idTable (withId kind rs))) :=
    fun hsub => byId_eq_ok_iff.mpr ⟨fun r hr => hkeys.own r (hsub r hr), rfl⟩
  let folders := Dict.ofList (idTable (withId "request_group" rs))
  have hparents : ∀ f ∈ folders, (fieldOrNull f.2 "parentId").kind.isKey = true := by
    intro f hf
    obtain ⟨k, hk, -⟩ := Dict.mem_ofList hf
    obtain ⟨r, hr, heq⟩ := List.mem_map.mp hk
    rw [← (Prod.mk.inj heq).2]
    exact hkeys.parent r hr
  have hentries : ∃ entries, (folders.mapM fun f => do return (f.1, ← namesAbove folders f.1))
      = .ok entries := by
    refine exists_mapM_ok_iff.mpr fun f _ => ?_
    obtain ⟨path, hpath⟩ := exists_namesAbove hparents f.1
    exact ⟨(f.1, path), bind_eq_ok_iff.mpr ⟨path, hpath, rfl⟩⟩
  obtain ⟨entries, hentries⟩ := hentries
  rw [folderPaths, htable fun r hr => List.mem_append_right _ hr, ok_bind,
    htable fun r hr => List.mem_append_left _ hr, ok_bind]
  exact ⟨_, bind_eq_ok_iff.mpr ⟨entries, hentries, rfl⟩⟩

/-! ## The walk is the chain

The same induction, with what is left as `left`: the walk passes a chain among the folders that are
left, and at the top level all of them are. -/

/-- A climb through folders that are left, none of them twice, that stops at none of these but those
    it passed. -/
structure ChainAmong (rs left : List Resource) (id : Json) (chain : List Resource) (top : Json) :
    Prop where
  climbs : Climbs rs id chain top
  within : ∀ f ∈ chain, f ∈ left
  once : chain.Nodup
  ends : ∀ f ∈ left, (top == fieldOrNull f "_id") = true → f ∈ chain

section

variable {rs : List Resource} (hown : ∀ r ∈ addressed rs, (fieldOrNull r "_id").kind.isKey = true)
  (hapart : ToldApart rs)
include hown

/-- The identifier of a folder can be looked up by. -/
theorem isKey_of_folder {f : Resource} (hf : f ∈ withId "request_group" rs) :
    (fieldOrNull f "_id").kind.isKey = true :=
  hown f (List.mem_append_right _ hf)

/-- The identifier of a folder is that of the folder. -/
theorem isFolder_self {f : Resource} (hf : f ∈ withId "request_group" rs) :
    IsFolder rs (fieldOrNull f "_id") f := ⟨hf, Json.beq_self_of_key (isKey_of_folder hown hf)⟩

include hapart

/-- The identifiers are the resources' own. -/
theorem distinctIds_addressed : DistinctIds (addressed rs) := by
  refine ⟨fun r hr => ⟨fieldOrNull r "_id", ?_, Json.beq_self_of_key (hown r hr)⟩, hapart⟩
  rcases List.mem_append.mp hr with hw | hf
  · exact (mem_withId.mp hw).2
  · exact (mem_withId.mp hf).2

/-- An identifier is that of one folder. -/
theorem IsFolder.unique {id : Json} {f g : Resource} (hf : IsFolder rs id f) (hg : IsFolder rs id g)
    (hid : id.kind.isKey = true) : f = g := by
  have hfkey := isKey_of_folder hown hf.1
  refine (distinctIds_addressed hown hapart).eq_of_beq (List.mem_append_right _ hf.1)
    (List.mem_append_right _ hg.1) hfkey ?_
  exact Json.beq_trans_of_key hfkey hid (Json.beq_symm_of_key hid hfkey hf.2) hg.2

omit hapart in
/-- It may be written in another way. -/
theorem IsFolder.congr {a b : Json} {f : Resource} (h : IsFolder rs a f) (ha : a.kind.isKey = true)
    (hb : b.kind.isKey = true) (hab : (a == b) = true) : IsFolder rs b f :=
  ⟨h.1, (comparable_keys.beq_congr ha hb (isKey_of_folder hown h.1) hab).symm.trans h.2⟩

/-- A folder comes before the chain above it. -/
theorem ChainAmong.step {left : List Resource} {id top : Json} {f : Resource} {chain : List Resource}
    (hleft : ∀ g ∈ left, g ∈ withId "request_group" rs) (hid : id.kind.isKey = true) (hf : f ∈ left)
    (hidf : (id == fieldOrNull f "_id") = true)
    (h : ChainAmong rs (besidesId left id) (fieldOrNull f "parentId") chain top) :
    ChainAmong rs left id (f :: chain) top := by
  have hfolder : IsFolder rs id f := ⟨hleft f hf, hidf⟩
  refine ⟨.step hfolder h.climbs, fun g hg => ?_, List.nodup_cons.mpr ⟨fun hmem => ?_, h.once⟩,
    fun g hg htop => ?_⟩
  · rcases List.mem_cons.mp hg with rfl | hg
    · exact hf
    · exact (mem_besidesId.mp (h.within g hg)).1
  · exact absurd (hidf.symm.trans (mem_besidesId.mp (h.within f hmem)).2) (by decide)
  · cases hsame : id == fieldOrNull g "_id" with
    | true =>
      obtain rfl := IsFolder.unique hown hapart ⟨hleft g hg, hsame⟩ hfolder hid
      exact List.mem_cons_self ..
    | false => exact List.mem_cons_of_mem _ (h.ends g (mem_besidesId.mpr ⟨hg, hsame⟩) htop)

/-- **The walk through the folders that are left** is a chain among them.

    The induction is on the number of folders that are left, as the walk takes out each folder that
    it passes. -/
theorem exists_chainAmong_of_namesAbove {left : List Resource}
    (hleft : ∀ f ∈ left, f ∈ withId "request_group" rs) {id : Json} (hid : id.kind.isKey = true)
    {path : FolderPath} (h : namesAbove (idTable left) id = .ok path) :
    ∃ chain top, ChainAmong rs left id chain top ∧ path = (chain.map folderName).reverse := by
  induction hn : left.length using Nat.strong_induction_on generalizing left id path with
  | _ n ih =>
    subst hn
    cases hget : Dict.get? (idTable left) id with
    | none =>
      rw [namesAbove_of_get?_eq_none hget] at h
      refine ⟨[], id, ⟨.stop id, fun f hf => absurd hf List.not_mem_nil, List.nodup_nil,
        fun f hf heq => ?_⟩, (Except.ok.inj h).symm⟩
      obtain ⟨s, hs⟩ := exists_get?_idTable hf heq
      exact absurd (hget.symm.trans hs) (by simp)
    | some f =>
      obtain ⟨hf, hidf⟩ := mem_of_get?_idTable hget
      obtain ⟨hkey, above, habove, rfl⟩ := (namesAbove_eq_ok_iff_of_get? hget).mp h
      rw [without_idTable] at habove
      obtain ⟨chain, top, hchain, rfl⟩ := ih _ (besidesId_lt hget)
        (fun g hg => hleft g (mem_besidesId.mp hg).1) hkey habove rfl
      refine ⟨f :: chain, top, hchain.step hown hapart hleft hid hf hidf, ?_⟩
      rw [List.map_cons, List.reverse_cons]

/-- The walk through all folders is the parent chain. -/
theorem exists_parentChain_of_namesAbove {id : Json} (hid : id.kind.isKey = true) {path : FolderPath}
    (h : namesAbove (idTable (withId "request_group" rs)) id = .ok path) :
    ∃ chain top, ParentChain rs id chain top ∧ path = (chain.map folderName).reverse := by
  obtain ⟨chain, top, hchain, hpath⟩ :=
    exists_chainAmong_of_namesAbove hown hapart (fun _ hf => hf) hid h
  exact ⟨chain, top, ⟨hchain.climbs, hchain.once, fun f hf => hchain.ends f hf.1 hf.2⟩, hpath⟩

end

/-! ## There is one chain

Two chains from one identifier are the same, folder by folder, since an identifier is that of one
folder and both stop where they have to. -/

section

variable {rs : List Resource} (hkeys : KeyIds rs) (hapart : ToldApart rs)
include hkeys hapart

/-- Two climbs that go as far as they can, behind folders that were passed before, are the
    same.  The folders that were passed are carried along, because a climb may also stop in front of
    one of them. -/
theorem Climbs.unique (passed : List Resource) {id : Json} (hid : id.kind.isKey = true)
    {c c' : List Resource} {top top' : Json} (h : Climbs rs id c top) (h' : Climbs rs id c' top')
    (honce : (passed ++ c).Nodup) (honce' : (passed ++ c').Nodup)
    (hends : ∀ f, IsFolder rs top f → f ∈ passed ++ c)
    (hends' : ∀ f, IsFolder rs top' f → f ∈ passed ++ c') : c = c' := by
  -- a climb does not stop where the other one goes on
  have hgoes : ∀ {id : Json} {passed c : List Resource} {f : Resource}, IsFolder rs id f →
      (∀ g, IsFolder rs id g → g ∈ passed ++ []) → ¬(passed ++ f :: c).Nodup := by
    intro id passed c f hf hall hnodup
    have hpassed : f ∈ passed := List.append_nil passed ▸ hall f hf
    exact (List.nodup_append.mp hnodup).2.2 f hpassed f (List.mem_cons_self ..) rfl
  induction h generalizing passed c' with
  | stop id =>
    cases h' with
    | stop => rfl
    | step folder _ => exact absurd honce' (hgoes folder hends)
  | @step id top f chain folder _ ih =>
    cases h' with
    | stop => exact absurd honce (hgoes folder hends')
    | @step _ _ g chain' folder' above' =>
      obtain rfl := IsFolder.unique hkeys.own hapart folder folder' hid
      have hbehind : ∀ l, passed ++ f :: l = (passed ++ [f]) ++ l := List.append_cons passed f
      rw [hbehind] at honce honce' hends hends'
      rw [ih (passed ++ [f]) (hkeys.parent f folder.1) above' honce honce' hends hends']

/-- An identifier has one parent chain. -/
theorem ParentChain.unique {id : Json} (hid : id.kind.isKey = true) {c c' : List Resource}
    {top top' : Json} (h : ParentChain rs id c top) (h' : ParentChain rs id c' top') : c = c' :=
  Climbs.unique hkeys hapart [] hid h.climbs h'.climbs h.once h'.once h.ends h'.ends

end

/-! ## The table

What is said of single identifiers, said of the whole table.  It lists workspaces with the empty
path and folders with the names that their parent chain spells. -/

/-- The identifiers that are listed are those of workspaces and folders. -/
theorem keys_entries (rs : List Resource) :
    Dict.keys (workspaceEntries (idTable (withId "workspace" rs))
      ++ folderEntries (idTable (withId "request_group" rs)))
      = (addressed rs).map fun r => fieldOrNull r "_id" := by
  rw [Dict.keys, List.map_append, workspaceEntries, folderEntries, List.map_map, List.map_map,
    addressed, List.map_append]
  exact congrArg₂ _ (keys_idTable _) (keys_idTable _)

section

variable {rs : List Resource} (hapart : ToldApart rs)
include hapart

/-- Where identifiers are told apart, no resource takes the place of another. -/
theorem byId_of_toldApart {kind : String} (hsub : (withId kind rs).Sublist (addressed rs))
    {table : List (Json × Resource)} (htable : byId (ofKind kind rs) = .ok table) :
    (∀ r ∈ withId kind rs, (fieldOrNull r "_id").kind.isKey = true) ∧
      table = idTable (withId kind rs) := by
  obtain ⟨hkeys, rfl⟩ := byId_eq_ok_iff.mp htable
  refine ⟨hkeys, Dict.ofList_of_apart ?_⟩
  show (Dict.keys (idTable (withId kind rs))).Pairwise _
  rw [keys_idTable, List.pairwise_map]
  exact hapart.sublist hsub

variable {paths : List (Json × FolderPath)} (h : folderPaths rs = .ok paths)
include h

/-- The table lists workspaces, then folders. -/
theorem parts_of_toldApart :
    PathParts rs (idTable (withId "request_group" rs)) (idTable (withId "workspace" rs)) ∧
    (∀ r ∈ addressed rs, (fieldOrNull r "_id").kind.isKey = true) ∧
    paths = workspaceEntries (idTable (withId "workspace" rs))
      ++ folderEntries (idTable (withId "request_group" rs)) := by
  obtain ⟨folders, workspaces, hparts, rfl⟩ := parts_of_folderPaths h
  obtain ⟨hfolders, rfl⟩ := byId_of_toldApart hapart (List.sublist_append_right _ _) hparts.folders_eq
  obtain ⟨hworkspaces, rfl⟩ :=
    byId_of_toldApart hapart (List.sublist_append_left _ _) hparts.workspaces_eq
  refine ⟨hparts, fun r hr => ?_, Dict.putAll_of_apart ?_⟩
  · rcases List.mem_append.mp hr with hw | hf
    · exact hworkspaces r hw
    · exact hfolders r hf
  · rw [keys_entries, List.pairwise_map]
    exact hapart

/-- A folder's parent was looked up. -/
theorem keyIds_of_folderPaths : KeyIds rs := by
  obtain ⟨hparts, hown, -⟩ := parts_of_toldApart hapart h
  refine ⟨hown, fun f hf => ?_⟩
  have hself := isFolder_self hown hf
  obtain ⟨g, hget⟩ := exists_get?_idTable hself.1 hself.2
  obtain rfl := IsFolder.unique hown hapart (mem_of_get?_idTable hget) hself (isKey_of_folder hown hf)
  have hnames := hparts.namesAbove _ (List.mem_map.mpr ⟨g, hf, rfl⟩)
  exact ((namesAbove_eq_ok_iff_of_get? hget).mp hnames).1

/-- A workspace has the empty path. -/
theorem get?_workspace {w : Resource} (hw : w ∈ withId "workspace" rs) :
    Dict.get? paths (fieldOrNull w "_id") = some [] := by
  have hkey := (keyIds_of_folderPaths hapart h).own w (List.mem_append_left _ hw)
  obtain ⟨hmem, hid⟩ := mem_withId.mp hw
  refine get?_folderPaths_root h hkey ⟨w, hmem, hid⟩ (Json.beq_self_of_key hkey) ?_
  rintro j ⟨f, hf, hj⟩
  have hfield := fieldOrNull_of_get? hj
  rw [← hfield]
  exact (List.pairwise_append.mp hapart).2.2 w hw f (mem_withId.mpr ⟨hf, hfield ▸ hj⟩)

/-- **A folder has the path that its parent chain spells.** -/
theorem exists_parentChain_of_folder {f : Resource} (hf : f ∈ withId "request_group" rs) :
    ∃ chain top, ParentChain rs (fieldOrNull f "_id") chain top ∧
      Dict.get? paths (fieldOrNull f "_id") = some (chain.map folderName).reverse := by
  obtain ⟨hparts, hown, -⟩ := parts_of_toldApart hapart h
  have hkey := isKey_of_folder hown hf
  obtain ⟨path, hpath, -, hget⟩ := get?_folderPaths h hkey
  have hnames := ((pathTo_eq_ok_iff hparts.folders_eq).mp hpath).2
  obtain ⟨chain, top, hchain, rfl⟩ := exists_parentChain_of_namesAbove hown hapart hkey hnames
  refine ⟨chain, top, hchain, hget fun hnil => ?_⟩
  -- the chain is not empty, since it begins with the folder
  obtain rfl : chain = [] := List.map_eq_nil_iff.mp (List.reverse_eq_nil_iff.mp hnil)
  cases hchain.climbs
  exact absurd (hchain.ends f (isFolder_self hown hf)) List.not_mem_nil

/-- The table gives the names on the parent chain of a folder, outermost first. -/
theorem get?_of_parentChain {f : Resource} (hf : f ∈ withId "request_group" rs)
    {chain : List Resource} {top : Json} (hchain : ParentChain rs (fieldOrNull f "_id") chain top) :
    Dict.get? paths (fieldOrNull f "_id") = some (chain.map folderName).reverse := by
  have hkeys := keyIds_of_folderPaths hapart h
  obtain ⟨chain', top', hchain', hget⟩ := exists_parentChain_of_folder hapart h hf
  rwa [hchain.unique hkeys hapart (isKey_of_folder hkeys.own hf) hchain']

omit h in
/-- Above a child of a folder, where parents never lead back, is the chain of the folder.  Because
    the chain does not stop in a circle it stops where there is no folder, and the rest of it climbs
    from the parent. -/
theorem ParentChain.parent (hkeys : KeyIds rs) {f g : Resource} (hf : f ∈ withId "request_group" rs)
    (hg : g ∈ withId "request_group" rs)
    (hparent : (fieldOrNull f "parentId" == fieldOrNull g "_id") = true)
    (hacyclic : Acyclic rs (fieldOrNull f "_id")) {chain : List Resource} {top : Json}
    (h : ParentChain rs (fieldOrNull f "_id") chain top) :
    ∃ rest, chain = f :: rest ∧ ParentChain rs (fieldOrNull g "_id") rest top := by
  have hself := isFolder_self hkeys.own hf
  -- the chain leaves the folders
  have hleaves : ∀ s, ¬IsFolder rs top s := fun s hs =>
    hacyclic chain top h.climbs s (h.ends s hs) hs
  obtain ⟨hclimbs, honce, -⟩ := h
  generalize hid : fieldOrNull f "_id" = id at hclimbs
  cases hclimbs with
  | stop => exact absurd (hid ▸ hself) (hleaves f)
  | @step _ _ s rest folder above =>
    obtain rfl := IsFolder.unique hkeys.own hapart (hid ▸ folder) hself (isKey_of_folder hkeys.own hf)
    refine ⟨rest, rfl, ?_, (List.nodup_cons.mp honce).2, fun t ht => absurd ht (hleaves t)⟩
    cases above with
    | stop => exact absurd ⟨hg, hparent⟩ (hleaves g)
    | step folder' above' =>
      exact .step (folder'.congr hkeys.own (hkeys.parent _ hf) (isKey_of_folder hkeys.own hg) hparent)
        above'

/-- A child's path is its parent's with its own name behind it. -/
theorem get?_child {f g : Resource} (hf : f ∈ withId "request_group" rs)
    (hg : g ∈ withId "request_group" rs)
    (hparent : (fieldOrNull f "parentId" == fieldOrNull g "_id") = true)
    (hacyclic : Acyclic rs (fieldOrNull f "_id")) :
    ∃ path, Dict.get? paths (fieldOrNull g "_id") = some path ∧
      Dict.get? paths (fieldOrNull f "_id") = some (path ++ [folderName f]) := by
  have hkeys := keyIds_of_folderPaths hapart h
  obtain ⟨chain, top, hchain, hget⟩ := exists_parentChain_of_folder hapart h hf
  obtain ⟨rest, rfl, hrest⟩ := hchain.parent hapart hkeys hf hg hparent hacyclic
  refine ⟨_, get?_of_parentChain hapart h hg hrest, ?_⟩
  rw [hget, List.map_cons, List.reverse_cons]

end

/-- **Folder paths follow the parents**, wherever these lead.  They are found in every list whose
    identifiers can be looked up by, and where identifiers are told apart in no other list. -/
theorem folderPaths_follow_parents (rs : List Resource) :
    (KeyIds rs → ∃ paths, folderPaths rs = .ok paths) ∧
    (ToldApart rs → ∀ paths, folderPaths rs = .ok paths → KeyIds rs ∧ FollowsParents rs paths) := by
  refine ⟨exists_folderPaths, fun hapart paths h => ?_⟩
  have hkeys := keyIds_of_folderPaths hapart h
  refine ⟨hkeys, ?_, fun w => get?_workspace hapart h, fun f hf => ?_,
    fun f hf chain top => get?_of_parentChain hapart h hf,
    fun f hf g hg => get?_child hapart h hf hg⟩
  · obtain ⟨-, -, rfl⟩ := parts_of_toldApart hapart h
    exact keys_entries rs
  · obtain ⟨chain, top, hchain, -⟩ := exists_parentChain_of_folder hapart h hf
    refine ⟨chain, ⟨top, hchain⟩, fun chain' ⟨top', hchain'⟩ => ?_⟩
    exact hchain'.unique hkeys hapart (isKey_of_folder hkeys.own hf) hchain

/-- A folder, with its parent. -/
def folderBelow (id parent : String) : Resource :=
  [("_id", .str id), ("_type", .str "request_group"), ("parentId", .str parent), ("name", .str id)]

/-- Two workspaces: a folder in a folder in the second one, two folders that are each other's parent
    with a third one below them, and one whose parent is missing. -/
def tangled : List Resource :=
  [[("_id", .str "w"), ("_type", .str "workspace")], [("_id", .str "v"), ("_type", .str "workspace")],
    folderBelow "inner" "outer", folderBelow "outer" "v", folderBelow "a" "b", folderBelow "b" "a",
    folderBelow "c" "a", folderBelow "lost" "gone"]

/-- Folders in another workspace, in a circle, and below a parent that is missing. -/
theorem folderPaths_follow_parents_tangled : KeyIds tangled ∧ ToldApart tangled ∧
    ∃ paths, folderPaths tangled = .ok paths ∧ FollowsParents tangled paths := by
  have hkeys : KeyIds tangled := by decide +kernel
  have hapart : ToldApart tangled := by decide +kernel
  obtain ⟨paths, hpaths⟩ := (folderPaths_follow_parents tangled).1 hkeys
  exact ⟨hkeys, hapart, paths, hpaths, ((folderPaths_follow_parents tangled).2 hapart paths hpaths).2⟩

example : (folderPaths tangled).toOption.any (· == [(.str "w", []), (.str "v", []),
    (.str "inner", [.str "outer", .str "inner"]), (.str "outer", [.str "outer"]),
    (.str "a", [.str "b", .str "a"]), (.str "b", [.str "a", .str "b"]),
    (.str "c", [.str "b", .str "a", .str "c"]), (.str "lost", [.str "lost"])]) = true := by
  decide +kernel

end RouteAtlas.Insomnia
