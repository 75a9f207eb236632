/-
  The first merge.

  ==== Problem ====

  The persisted export is any list of resources: with several workspaces and environments, folders
  of one name, parents that are missing or go round in a circle.  What a merge makes of it has to be
  shown to be `Written`.

  ==== Program ====

  1. **What is known** - whatever was persisted, the requests that are found by a key are requests
     with that key, and the environments are environments (`sound_of_knownOf`).  Nothing else is
     used of them.

  2. **Entry by entry** - refreshing the fresh resources gives a workspace, an environment, folders
     and requests, under the new names of their identifiers (`written_of_refresh`).

  3. **The rest** - a leftover keeps its key and gets the marked name and a folder of the export
     (`isLeftover_of_leftover`); what passes is a part of what was persisted
     (`written_of_mergeResources`).

  ==== The crux ====

  New names can collide: two folders of one path in the persisted export, or a fresh identifier that
  another resource has already.  So nothing can be said about the new names by themselves; that the
  written identifiers are told apart has to be read off the resources of the merged export, each of
  which has its own (`DistinctIds`).
-/
import RouteAtlas.Proofs.Insomnia.Again

namespace RouteAtlas.Insomnia

open Persisted (lookupKey lookupKey_eq_ok_iff bind_eq_ok_iff ok_bind mapM_eq_ok_iff)
open Resource (isA ofKind fieldOrNull)

/-! ## What is known

What a merge reads off the persisted export before it starts: the new names, the environments by
their identifiers and the requests by their keys.  Whatever was persisted, these are sound. -/

/-- What is known is found where it belongs. -/
structure Known.Sound (known : Known) : Prop where
  environments : ∀ {id e}, Dict.get? known.environments id = some e → isA "environment" e = true
  requests : ∀ {key r}, (key, r) ∈ known.requests →
    isA "request" r = true ∧ key? r = .ok (some key)
  distinct : (Dict.keys known.requests).Nodup

/-- Nothing is known where nothing was persisted. -/
def Known.nothing : Known := ⟨[], [], []⟩

/-- Knowing nothing is sound: there is nothing that could be found in the wrong place. -/
theorem Known.sound_nothing : Known.nothing.Sound := by
  refine ⟨fun h => absurd h (by simp [Known.nothing]), fun h => ?_, List.nodup_nil⟩
  exact absurd h (List.not_mem_nil)

/-- What is known is read off the persisted export, part by part. -/
theorem parts_of_knownOf {fresh existing : List Resource} {known : Known}
    (h : Known.of fresh existing = .ok known) :
    newNames fresh existing = .ok known.names ∧
    (∃ environments, (ofKind "environment" existing).mapM (fun e => do
        return (← lookupKey (fieldOrNull e "_id"), e)) = .ok environments ∧
      known.environments = Dict.ofList environments) ∧
    persisted existing = .ok known.requests := by
  obtain ⟨names, hnames, h⟩ := bind_eq_ok_iff.mp h
  obtain ⟨environments, henvironments, h⟩ := bind_eq_ok_iff.mp h
  obtain ⟨requests, hrequests, h⟩ := bind_eq_ok_iff.mp h
  obtain rfl := Except.ok.inj h
  exact ⟨hnames, ⟨environments, henvironments, rfl⟩, hrequests⟩

/-- The known requests are those of the persisted export; of several with one key, the last. -/
theorem requests_of_knownOf {fresh existing : List Resource} {known : Known}
    (h : Known.of fresh existing = .ok known) :
    known.requests = Dict.ofList (keyed (ofKind "request" existing)) :=
  (persisted_eq_ok_iff.mp (parts_of_knownOf h).2.2).2

/-- The known environments are persisted ones. -/
theorem mem_of_known_environment {fresh existing : List Resource} {known : Known}
    (h : Known.of fresh existing = .ok known) {id : Json} {e : Resource}
    (hget : Dict.get? known.environments id = some e) : e ∈ ofKind "environment" existing := by
  obtain ⟨-, ⟨environments, henvironments, hdict⟩, -⟩ := parts_of_knownOf h
  rw [hdict] at hget
  obtain ⟨entry, hentry, rfl⟩ := List.mem_map.mp (Dict.mem_values_ofList (Dict.mem_values_of_get? hget))
  obtain ⟨r, hr, hstep⟩ := Persisted.exists_of_mem_of_mapM henvironments hentry
  obtain ⟨i, -, heq⟩ := bind_eq_ok_iff.mp hstep
  obtain rfl := Except.ok.inj heq
  exact hr

/-- Whatever was persisted, what is known of it is sound: the tables are filled from environments
    and from requests under their own keys. -/
theorem sound_of_knownOf {fresh existing : List Resource} {known : Known}
    (h : Known.of fresh existing = .ok known) : known.Sound := by
  have hrequests := requests_of_knownOf h
  refine ⟨fun {id e} hget => ?_, fun {key r} hmem => ?_, hrequests ▸ Dict.nodup_keys_ofList _⟩
  · exact (List.mem_filter.mp (mem_of_known_environment h hget)).2
  · rw [hrequests] at hmem
    have hget := Dict.get?_of_mem (Dict.nodup_keys_ofList _) hmem
    rw [Dict.get?_ofList] at hget
    obtain ⟨hr, hkey⟩ := mem_keyed.mp (List.mem_reverse.mp (Dict.mem_of_get? hget))
    exact ⟨(List.mem_filter.mp hr).2, hkey⟩

/-- The parents of all environments were looked up. -/
theorem parentKey_of_knownOf {fresh existing : List Resource} {known : Known}
    (h : Known.of fresh existing = .ok known) {e : Resource}
    (he : e ∈ ofKind "environment" existing) : (fieldOrNull e "parentId").kind.isKey = true := by
  obtain ⟨_, -, hnames⟩ := bind_eq_ok_iff.mp (parts_of_knownOf h).1
  obtain ⟨_, hbase, -⟩ := bind_eq_ok_iff.mp hnames
  obtain ⟨_, -, hbase⟩ := bind_eq_ok_iff.mp hbase
  obtain ⟨_, hbelow, -⟩ := bind_eq_ok_iff.mp hbase
  obtain ⟨p, hp, -⟩ := Persisted.filterM_eq_ok_iff.mp hbelow
  obtain ⟨parent, hparent, -⟩ := bind_eq_ok_iff.mp (hp e he)
  exact (lookupKey_eq_ok_iff.mp hparent).1

/-! ## Entry by entry

Refreshing one fresh resource.  Folders and the workspace get their new names and are otherwise as
they were; a request is merged with the persisted one of its key, if there is one. -/

/-- The variables of a fresh environment are written once each: the base URL, the credentials and
    one for every service. -/
theorem nodup_environmentData (settings : Settings) : (Dict.keys (environmentData settings)).Nodup := by
  refine Dict.nodup_keys_putAll ?_ _
  show ["baseUrl", "authToken"].Nodup
  decide

section

variable {settings : Settings} {endpoints : List Endpoint} {known : Known}

/-- The requests among the entries are those of the endpoints. -/
theorem endpoint_mem {path : List String} {e : Endpoint}
    (h : .request path e ∈ allEntries settings endpoints) : e ∈ endpoints := by
  have hmem : e ∈ (allEntries settings endpoints).filterMap Entry.endpoint? :=
    List.mem_filterMap.mpr ⟨_, h, rfl⟩
  rwa [allEntries, endpoints_entries] at hmem

/-- A refreshed request stands for its endpoint, whether a persisted request was found or not: it
    keeps the key, and its parent is the new name of its place. -/
theorem request_of_refresh (hknown : known.Sound) {path : List String} {e : Endpoint}
    (hbody : Persisted.isBodyless (.str e.method.word) = true → e.parameters.body = none)
    {r : Resource} (h : refresh known
      (.obj (Entry.fresh settings.serviceNames (workspaceOf settings) (.request path e))) = .ok r) :
    Holds settings.serviceNames (workspaceOf settings) (placeId known.names settings)
      (.request path e) r := by
  let apps := settings.serviceNames
  let fresh : Json → Resource := fun i =>
    requestAt apps (workspaceOf settings) path e i (placeId known.names settings path)
  have hcongr : ∀ i old, mergeRequest (fresh i) old = mergeRequest (fresh (requestId known e)) old :=
    fun i old => mergeRequest_congr (fun name hname => get?_requestAt _ _ _ _ hname _ _ _) old
  rw [refresh_request] at h
  cases hold : Dict.get? known.requests (requestKey apps e) with
  | some old =>
    -- it is the persisted request, refreshed
    have h : mergeRequest (fresh (requestId known e)) old = .ok r := by rwa [hold] at h
    obtain ⟨hkind, -⟩ := hknown.requests (Dict.mem_of_get? hold)
    have htype : Dict.get? r "_type" = Dict.get? old "_type" := get?_mergeRequest h (by decide)
    have hkey : key? r = key? (fresh (requestId known e)) :=
      key?_mergeRequest h rfl e.method.word_ne_empty rfl (reference_append_ne_empty _ _)
    refine ⟨isA_iff.mpr (htype.trans (isA_iff.mp hkind)), hkey.trans (key?_requestAt ..), fun i => ?_⟩
    exact (hcongr i r).trans (mergeRequest_stable (headers_requestAt ..) h)
  | none =>
    -- it is new
    obtain rfl : r = fresh (requestId known e) := by
      rw [hold] at h
      exact (Except.ok.inj h).symm
    refine ⟨rfl, key?_requestAt .., fun i => ?_⟩
    exact (hcongr i _).trans (mergeRequest_self (completeRequest_requestAt _ _ _ _ _ _ hbody))

/-- A refreshed entry stands for the entry.  For a folder this is its definition. -/
theorem holds_of_refresh (hknown : known.Sound) (hbodies : BodiesFit endpoints) {entry : Entry}
    (hentry : entry ∈ allEntries settings endpoints) {r : Resource}
    (h : refresh known
      (.obj (entry.fresh settings.serviceNames (workspaceOf settings))) = .ok r) :
    Holds settings.serviceNames (workspaceOf settings) (placeId known.names settings) entry r := by
  cases entry with
  | folder path =>
    rw [refresh_folder known settings (ne_root_of_folder_mem hentry)] at h
    exact (Except.ok.inj h).symm
  | request path e => exact request_of_refresh hknown (hbodies e (endpoint_mem hentry)) h

/-- The environment that is written stays as it is when it is refreshed again.  Either something is
    persisted under its new name, and a merge of environments is stable, or nothing is, and then it
    meets itself. -/
theorem environment_of_refresh (hknown : known.Sound) {environment : Resource}
    (h : refresh known
      (.obj (environmentAt settings (environmentId settings) (freshId settings []))) = .ok environment) :
    isA "environment" environment = true ∧
    Dict.get? environment "parentId" = some (placeId known.names settings []) ∧
    ∀ i, mergeEnvironment (environmentAt settings i (placeId known.names settings [])) environment
      = .ok environment := by
  let i := newName known.names (environmentId settings)
  let fresh : Json → Resource := fun i => environmentAt settings i (placeId known.names settings [])
  -- the identifier is the one field that a merge of environments never takes from the fresh side
  have hcongr : ∀ j old, mergeEnvironment (fresh j) old = mergeEnvironment (fresh i) old := by
    refine fun j old => mergeEnvironment_congr (fun name hname => ?_) old
    have hne : ¬(name == "_id") = true := fun heq => hname (eq_of_beq heq)
    have hskip : ∀ k, Dict.get? (fresh k) name = Dict.get? (fresh k).tail name := by
      intro k
      show Dict.get? (("_id", k) :: (fresh k).tail) name = _
      rw [Dict.get?_cons, if_neg hne]
    rw [hskip, hskip]
    rfl
  rw [refresh_environment] at h
  cases hold : Dict.get? known.environments i with
  | some old =>
    have h : mergeEnvironment (fresh i) old = .ok environment := by
      have hold' : Dict.get? known.environments (newName known.names (environmentId settings))
        = some old := hold
      rwa [hold'] at h
    have hvariables : variablesOf (fresh i) = .ok (environmentData settings) := by
      have hdata : Dict.get? (fresh i) "data" = some (.obj (environmentData settings)) := rfl
      rw [variablesOf, hdata, orElse_obj]
    have htype : Dict.get? environment "_type" = Dict.get? old "_type" :=
      get?_mergeEnvironment h (by decide)
    -- the kind is the persisted one, since a merge of environments leaves it alone
    refine ⟨isA_iff.mpr (htype.trans (isA_iff.mp (hknown.environments hold))),
      parent_mergeEnvironment h, fun j => ?_⟩
    exact (hcongr j _).trans (mergeEnvironment_stable hvariables (nodup_environmentData settings) h)
  | none =>
    obtain rfl : environment = fresh i := by
      have hold' : Dict.get? known.environments (newName known.names (environmentId settings))
        = none := hold
      rw [hold'] at h
      exact (Except.ok.inj h).symm
    -- nothing was persisted under this identifier, so the fresh environment meets itself
    refine ⟨rfl, rfl, fun j => (hcongr j _).trans ?_⟩
    exact mergeEnvironment_self rfl rfl rfl (nodup_environmentData settings)

/-! ## Identifiers of the merged export

Two fresh identifiers can get one new name, so nothing is claimed of the new names alone.  Where the
resources that are written have identifiers of their own, the names of the places differ too. -/

/-- Every resource has an identifier, and no other one has it.  (An identifier equals itself, as
    every value does that can be looked up by.) -/
structure DistinctIds (rs : List Resource) : Prop where
  has : ∀ r ∈ rs, ∃ id, Dict.get? r "_id" = some id ∧ (id == id) = true
  differ : rs.Pairwise fun r r' => (fieldOrNull r "_id" == fieldOrNull r' "_id") = false

instance (rs : List Resource) : Decidable (DistinctIds rs) :=
  decidable_of_iff ((∀ r ∈ rs, ∃ id ∈ Dict.get? r "_id", (id == id) = true) ∧
      rs.Pairwise fun r r' => (fieldOrNull r "_id" == fieldOrNull r' "_id") = false)
    ⟨fun h => ⟨h.1, h.2⟩, fun h => ⟨h.has, h.differ⟩⟩

/-- Some of the resources of an export have identifiers of their own when all of them have. -/
theorem DistinctIds.sublist {rs ss : List Resource} (h : DistinctIds rs) (hsub : ss.Sublist rs) :
    DistinctIds ss :=
  ⟨fun r hr => h.has r (hsub.subset hr), h.differ.sublist hsub⟩

/-- The identifiers of the workspace and the folders tell their places apart.  The workspace and the
    folders are among the resources, so what tells all resources apart tells these apart. -/
theorem identified_of_distinctIds {id : List String → Json} {rest : List Resource}
    (hfolders : ofKind "request_group" rest = (placesOf settings endpoints).map (folderAt id))
    (hids : DistinctIds (workspaceAt settings (id []) :: rest))
    (hkeys : ∀ r ∈ workspaceAt settings (id []) :: rest, (fieldOrNull r "_id").kind.isKey = true) :
    Identified id (placesOf settings endpoints) := by
  have hfolder : ∀ p ∈ placesOf settings endpoints, folderAt id p ∈ rest := by
    intro p hp
    have hmem : folderAt id p ∈ ofKind "request_group" rest :=
      hfolders ▸ List.mem_map_of_mem hp
    exact (List.mem_filter.mp hmem).1
  -- a resource that has the identifier of a place
  have hresource : ∀ p ∈ [] :: placesOf settings endpoints, ∃ r ∈ workspaceAt settings (id []) :: rest,
      Dict.get? r "_id" = some (id p) := by
    intro p hp
    rcases List.mem_cons.mp hp with rfl | hp
    · exact ⟨_, List.mem_cons_self .., rfl⟩
    · exact ⟨_, List.mem_cons_of_mem _ (hfolder p hp), rfl⟩
  have hkey : ∀ p ∈ [] :: placesOf settings endpoints, (id p).kind.isKey = true := by
    intro p hp
    obtain ⟨r, hr, hid⟩ := hresource p hp
    exact fieldOrNull_of_get? hid ▸ hkeys r hr
  -- a number that is not equal to itself is no identifier
  have hself : ∀ p ∈ [] :: placesOf settings endpoints, (id p == id p) = true := by
    intro p hp
    obtain ⟨r, hr, hid⟩ := hresource p hp
    obtain ⟨i, hi, hii⟩ := hids.has r hr
    obtain rfl := Option.some.inj (hi.symm.trans hid)
    exact hii
  have hpairwise : ([] :: placesOf settings endpoints).Pairwise
      fun p q => (id p == id q) = false := by
    have hsub : ((placesOf settings endpoints).map (folderAt id)).Sublist rest :=
      hfolders ▸ List.filter_sublist
    have hpairs := (hids.sublist (hsub.cons_cons _)).differ
    rw [List.pairwise_cons, List.pairwise_map] at hpairs
    refine List.pairwise_cons.mpr ⟨fun p hp => ?_, hpairs.2⟩
    exact hpairs.1 _ (List.mem_map_of_mem hp)
  refine ⟨fun p hp q hq => ⟨fun heq => ?_, fun heq => heq ▸ hself p hp⟩, hkey⟩
  by_contra hne
  have hapart := Json.apart_of_pairwise hpairwise hp hq (hkey p hp) hne
  exact absurd (heq.symm.trans hapart) (by decide)

/-- Refreshing goes entry by entry, behind the workspace and its environment. -/
theorem entries_of_mapM_refresh {merged : List Resource}
    (h : ((resources settings endpoints).map .obj).mapM (refresh known) = .ok merged) :
    ∃ environment rest, merged
        = workspaceAt settings (placeId known.names settings []) :: environment :: rest ∧
      refresh known (.obj (environmentAt settings (environmentId settings) (freshId settings [])))
        = .ok environment ∧
      List.Forall₂ (fun entry r => refresh known
        (.obj (Entry.fresh settings.serviceNames (workspaceOf settings) entry)) = .ok r)
        (allEntries settings endpoints) rest := by
  rw [resources_eq, mapM_eq_ok_iff, List.map_cons, List.map_cons, List.map_map] at h
  obtain ⟨workspace, tail, hworkspace, htail, rfl⟩ := List.forall₂_cons_left_iff.mp h
  obtain ⟨environment, rest, henvironment, hrest, rfl⟩ := List.forall₂_cons_left_iff.mp htail
  obtain rfl : workspace = workspaceAt settings (placeId known.names settings []) :=
    (Except.ok.inj hworkspace).symm
  exact ⟨environment, rest, rfl, henvironment, List.forall₂_map_left_iff.mp hrest⟩

/-- **Refreshing gives what stands for the entries**, behind the workspace and its environment.  The
    entries and the resources that came of them are followed in step, as the map over the resources
    is. -/
theorem holds_of_mapM_refresh (hknown : known.Sound) (hbodies : BodiesFit endpoints)
    {merged : List Resource}
    (h : ((resources settings endpoints).map .obj).mapM (refresh known) = .ok merged) :
    ∃ environment rest, merged
        = workspaceAt settings (placeId known.names settings []) :: environment :: rest ∧
      refresh known (.obj (environmentAt settings (environmentId settings) (freshId settings [])))
        = .ok environment ∧
      List.Forall₂ (Holds settings.serviceNames (workspaceOf settings) (placeId known.names settings))
        (allEntries settings endpoints) rest := by
  obtain ⟨environment, rest, rfl, henvironment, hrest⟩ := entries_of_mapM_refresh h
  have hentries : ∀ {es : List Entry} {rs : List Resource},
      (∀ entry ∈ es, entry ∈ allEntries settings endpoints) →
      List.Forall₂ (fun entry r => refresh known
        (.obj (Entry.fresh settings.serviceNames (workspaceOf settings) entry)) = .ok r) es rs →
      List.Forall₂ (Holds settings.serviceNames (workspaceOf settings)
        (placeId known.names settings)) es rs := by
    intro es rs hes hall
    induction hall with
    | nil => exact .nil
    | cons hr _ ih =>
      exact .cons (holds_of_refresh hknown hbodies (hes _ (List.mem_cons_self ..)) hr)
        (ih fun entry he => hes entry (List.mem_cons_of_mem _ he))
  exact ⟨environment, rest, rfl, henvironment, hentries (fun _ he => he) hrest⟩

/-- What refreshing gives is written, as long as the places are told apart.  There are no leftovers
    and nothing that passes through at this point; both are put in afterwards. -/
theorem written_of_identified (hknown : known.Sound) {environment : Resource} {rest : List Resource}
    (hidentified : Identified (placeId known.names settings) (placesOf settings endpoints))
    (henvironment : refresh known
      (.obj (environmentAt settings (environmentId settings) (freshId settings []))) = .ok environment)
    (hself : ∃ i, Dict.get? environment "_id" = some i ∧ (i == i) = true)
    (hholds : List.Forall₂
      (Holds settings.serviceNames (workspaceOf settings) (placeId known.names settings))
      (allEntries settings endpoints) rest)
    (hkeys : ∀ r ∈ workspaceAt settings (placeId known.names settings []) :: environment :: rest,
      (fieldOrNull r "_id").kind.isKey = true) :
    Written settings endpoints (placeId known.names settings) environment rest [] [] := by
  obtain ⟨hkind, hparent, hsettled⟩ := environment_of_refresh hknown henvironment
  refine ⟨hidentified, fun p hp q hq heq => ?_, hkind, hself, hparent, hsettled, hholds,
    fun _ hl => absurd hl (List.not_mem_nil), List.nodup_nil,
    fun _ hk => absurd hk (List.not_mem_nil), fun r hr => hkeys r (by rwa [List.append_nil] at hr),
    fun _ hr => absurd hr (List.not_mem_nil)⟩
  -- one fresh identifier has one new name
  have hsame : placeId known.names settings p = placeId known.names settings q :=
    congrArg (newName known.names) heq
  have hback := (hidentified.tells p hp p hp).mpr rfl
  exact (hidentified.tells p hp q hq).mp (hsame ▸ hback)

/-- **What refreshing gives is written**, as long as its identifiers are told apart. -/
theorem written_of_refresh (hknown : known.Sound) (hbodies : BodiesFit endpoints)
    {merged : List Resource}
    (h : ((resources settings endpoints).map .obj).mapM (refresh known) = .ok merged)
    (hids : DistinctIds merged) (hkeys : ∀ r ∈ merged, (fieldOrNull r "_id").kind.isKey = true) :
    ∃ environment rest, merged
        = workspaceAt settings (placeId known.names settings []) :: environment :: rest ∧
      Written settings endpoints (placeId known.names settings) environment rest [] [] := by
  let id := placeId known.names settings
  obtain ⟨environment, rest, rfl, henvironment, hholds⟩ := holds_of_mapM_refresh hknown hbodies h
  have hfolders : ofKind "request_group" rest = (placesOf settings endpoints).map (folderAt id) :=
    folders_of_holds hholds
  have hskip : (workspaceAt settings (id []) :: rest).Sublist
      (workspaceAt settings (id []) :: environment :: rest) :=
    (List.sublist_cons_self environment rest).cons_cons _
  have hidentified : Identified id (placesOf settings endpoints) :=
    identified_of_distinctIds hfolders (hids.sublist hskip) fun r hr => hkeys r (hskip.subset hr)
  have hself := hids.has environment (List.mem_cons_of_mem _ (List.mem_cons_self ..))
  exact ⟨environment, rest, rfl,
    written_of_identified hknown hidentified henvironment hself hholds hkeys⟩

/-! ## The rest

What is left over is marked and gets the place that its path has now; what passes is copied. -/

/-- A leftover is marked, and in a folder of the export.  Only the name and the parent are written,
    so the kind and the key are the persisted ones, and the parent is the place that was found or
    the root. -/
theorem isLeftover_of_leftover {id : List String → Json} {paths : List (List String)}
    {oldPaths : List (Json × FolderPath)} {key : String} {r l : Resource}
    (hkind : isA "request" r = true) (hkey : key? r = .ok (some key))
    (h : leftover oldPaths (([] :: paths).map fun p => (p.map .str, id p)) r = .ok l) :
    IsLeftover id paths l ∧ key? l = .ok (some key) := by
  obtain ⟨name, hname, h⟩ := bind_eq_ok_iff.mp h
  obtain ⟨parent, -, h⟩ := bind_eq_ok_iff.mp h
  obtain ⟨path, -, h⟩ := bind_eq_ok_iff.mp h
  obtain rfl := Except.ok.inj h
  have hroot : Dict.get? (([] :: paths).map fun p => (p.map Json.str, id p)) [] = some (id []) :=
    Dict.get?_index (tells_texts ([] :: paths)) id (fun _ hp => hp) (List.mem_cons_self ..)
  rw [hroot, Option.getD_some]
  let target := (Dict.get? (([] :: paths).map fun p => (p.map Json.str, id p)) path).getD (id [])
  have hplace : ∃ p ∈ [] :: paths, target = id p := by
    show ∃ p ∈ [] :: paths, (Dict.get? _ path).getD (id []) = id p
    cases hget : Dict.get? (([] :: paths).map fun p => (p.map Json.str, id p)) path with
    | none => exact ⟨[], List.mem_cons_self .., rfl⟩
    | some i => exact Dict.exists_of_get?_index hget
  have hget : ∀ field, field ≠ "name" → field ≠ "parentId" →
      Dict.get? (Dict.putAll r [("name", name), ("parentId", target)]) field = Dict.get? r field := by
    intro field hn hp
    rw [Dict.putAll_cons, Dict.putAll_cons, Dict.putAll_nil, Dict.get?_put_of_ne hp,
      Dict.get?_put_of_ne hn]
  have hsame : key? (Dict.putAll r [("name", name), ("parentId", target)]) = key? r := by
    rw [key?, key?, fieldOrNull, fieldOrNull, fieldOrNull, fieldOrNull,
      hget "method" (by decide) (by decide), hget "url" (by decide) (by decide)]
  obtain ⟨p, hp, htarget⟩ := hplace
  refine ⟨⟨?_, ⟨key, hsame.trans hkey⟩, ⟨name, ?_, Persisted.deprecated_of_marked hname⟩,
    ⟨p, hp, htarget ▸ ?_⟩⟩, hsame.trans hkey⟩
  · exact isA_iff.mpr ((hget "_type" (by decide) (by decide)).trans (isA_iff.mp hkind))
  · rw [Dict.putAll_cons, Dict.putAll_cons, Dict.putAll_nil, Dict.get?_put_of_ne (by decide),
      Dict.get?_put_self]
  · rw [Dict.putAll_cons, Dict.putAll_cons, Dict.putAll_nil, Dict.get?_put_self]

/-- What is left over are marked requests, each key once, and none the key of an endpoint. -/
structure LeftOver (settings : Settings) (endpoints : List Endpoint) (id : List String → Json)
    (ls : List Resource) : Prop where
  left : ∀ l ∈ ls, IsLeftover id (placesOf settings endpoints) l
  distinct : (Dict.keys (keyed ls)).Nodup
  gone : ∀ key ∈ Dict.keys (keyed ls), key ∉ endpoints.map (requestKey settings.serviceNames)

/-- Leftovers are made one by one, each under the key that it was known by. -/
theorem isLeftover_of_forall₂ (hknown : known.Sound) {id : List String → Json}
    {paths : List (List String)} {oldPaths : List (Json × FolderPath)} {gone : Dict Resource}
    {ls : List Resource} (hgone : ∀ e ∈ gone, e ∈ known.requests)
    (h : List.Forall₂ (fun e l => leftover oldPaths
      (([] :: paths).map fun p => (p.map .str, id p)) e.2 = .ok l) gone ls) :
    (∀ l ∈ ls, IsLeftover id paths l) ∧ Dict.keys (keyed ls) = Dict.keys gone := by
  induction h with
  | nil => exact ⟨fun _ hl => absurd hl (List.not_mem_nil), rfl⟩
  | @cons e l gone ls hl _ ih =>
    have hmem : (e.1, e.2) ∈ known.requests := hgone e (List.mem_cons_self ..)
    obtain ⟨hkind, hkey⟩ := hknown.requests hmem
    obtain ⟨hleft, hsame⟩ := isLeftover_of_leftover hkind hkey hl
    obtain ⟨hrest, hkeys⟩ := ih fun e he => hgone e (List.mem_cons_of_mem _ he)
    refine ⟨List.forall_mem_cons.mpr ⟨hleft, hrest⟩, ?_⟩
    rw [keyed, List.filterMap_cons, Persisted.given_eq_some_iff.mpr hsame]
    show e.1 :: Dict.keys (keyed ls) = _
    rw [hkeys]
    rfl

/-- What the loop over the requests that are gone makes is left over: it is marked, no two have one
    key, and no endpoint has a key among them. -/
theorem leftOver_of_leftovers (hknown : known.Sound) {id : List String → Json}
    {environment : Resource} {rest : List Resource}
    (hwritten : Written settings endpoints id environment rest [] []) {existing ls : List Resource}
    (h : leftovers known (resources settings endpoints) existing
      (workspaceAt settings (id []) :: environment :: rest) = .ok ls) :
    LeftOver settings endpoints id ls := by
  have hpaths := folderPaths_written hwritten
  rw [List.append_nil, List.append_nil] at hpaths
  have hnodup := (rooted_allEntries settings endpoints).nodup_places
  rw [leftovers, keys_fresh, ok_bind, bind_eq_ok_iff] at h
  obtain ⟨oldPaths, -, h⟩ := h
  rw [hpaths, ok_bind, foldersByPath_eq id hnodup, ok_bind] at h
  obtain ⟨hleft, hkeys⟩ := isLeftover_of_forall₂ hknown (fun e he => (List.mem_filter.mp he).1)
    (mapM_eq_ok_iff.mp h)
  refine ⟨hleft, ?_, fun key hkey hmem => ?_⟩
  · rw [hkeys]
    exact hknown.distinct.sublist (List.filter_sublist.map _)
  · rw [hkeys] at hkey
    obtain ⟨e, he, rfl⟩ := List.mem_map.mp hkey
    have hno : (!(endpoints.map fun e => some (requestKey settings.serviceNames e)).contains
        (some e.1)) = true := (List.mem_filter.mp he).2
    obtain ⟨endpoint, hendpoint, heq⟩ := List.mem_map.mp hmem
    have hcontains : (endpoints.map fun e => some (requestKey settings.serviceNames e)).contains
        (some e.1) = true :=
      List.contains_iff_mem.mpr (List.mem_map.mpr ⟨endpoint, hendpoint, congrArg some heq⟩)
    rw [hcontains] at hno
    exact absurd hno (by decide)

/-- What passes is of another kind, or an environment of its own.  An own kind other than an
    environment never passes, and an environment does unless its identifier is kept. -/
theorem passes_of_passesBeside {kept : List Json} {r : Resource} (h : passesBeside kept r = true)
    (htype : (fieldOrNull r "_type").kind.isKey = true)
    (henvironment : isA "environment" r = true → (fieldOrNull r "_id").kind.isKey = true ∧
      (fieldOrNull r "parentId").kind.isKey = true) : Passes kept r := by
  refine ⟨htype, ?_⟩
  rw [passesBeside] at h
  cases hany : ownKinds.any fun k => isA k r with
  | false =>
    refine .inl fun kind hown => ?_
    have hno := List.any_eq_false.mp hany kind hown
    rwa [Bool.not_eq_true] at hno
  | true =>
    have hother : ¬(!true) = true := by decide
    rw [hany, if_neg hother] at h
    by_cases henv : isA "environment" r = true
    · rw [if_pos henv] at h
      obtain ⟨hid, hparent⟩ := henvironment henv
      exact .inr ⟨henv, hid, hparent, (Bool.not_eq_true' _).mp h⟩
    · rw [if_neg henv] at h
      exact absurd h Bool.false_ne_true

/-- **The parts of a merge**: what is refreshed, what is left over, and what passes.  This opens the
    program's merge once, so that nothing else has to. -/
theorem parts_of_mergeResources {existing merged : List Resource} {mark : Bool}
    (h : mergeResources ((resources settings endpoints).map .obj) existing mark = .ok merged) :
    ∃ known refreshed ls ps, Known.of (resources settings endpoints) existing = .ok known ∧
      ((resources settings endpoints).map .obj).mapM (refresh known) = .ok refreshed ∧
      (if mark then leftovers known (resources settings endpoints) existing refreshed = .ok ls
        else ls = []) ∧
      passing existing (refreshed ++ ls) = .ok ps ∧ merged = refreshed ++ ls ++ ps := by
  rw [mergeResources, ofValues_map_obj] at h
  obtain ⟨known, hknown, h⟩ := bind_eq_ok_iff.mp h
  obtain ⟨refreshed, hrefresh, h⟩ := bind_eq_ok_iff.mp h
  cases mark with
  | true =>
    rw [if_pos rfl] at h
    obtain ⟨ls, hls, h⟩ := bind_eq_ok_iff.mp h
    obtain ⟨_, hall, h⟩ := bind_eq_ok_iff.mp h
    obtain rfl := Except.ok.inj hall
    obtain ⟨ps, hps, h⟩ := bind_eq_ok_iff.mp h
    exact ⟨known, refreshed, ls, ps, hknown, hrefresh, hls, hps, (Except.ok.inj h).symm⟩
  | false =>
    rw [if_neg Bool.false_ne_true] at h
    obtain ⟨_, hall, h⟩ := bind_eq_ok_iff.mp h
    obtain rfl := Except.ok.inj hall
    obtain ⟨ps, hps, h⟩ := bind_eq_ok_iff.mp h
    refine ⟨known, refreshed, [], ps, hknown, hrefresh, rfl, ?_, ?_⟩
    · rwa [List.append_nil]
    · rw [List.append_nil]
      exact (Except.ok.inj h).symm

/-- **What a merge makes of any persisted resources is written.** It is put together from what was
    shown of the parts.  The persisted resources are arbitrary: they enter only through what is
    known of them. -/
theorem written_of_mergeResources (hbodies : BodiesFit endpoints) {existing merged : List Resource}
    {mark : Bool}
    (h : mergeResources ((resources settings endpoints).map .obj) existing mark = .ok merged)
    (hids : DistinctIds merged) : ∃ id environment rest ls ps,
      merged = workspaceAt settings (id []) :: environment :: rest ++ ls ++ ps ∧
      Written settings endpoints id environment rest ls ps ∧ (mark = false → ls = []) := by
  obtain ⟨known, refreshed, ls, ps, hknownOf, hrefresh, hls, hpassing, rfl⟩ :=
    parts_of_mergeResources h
  have hknown := sound_of_knownOf hknownOf
  obtain ⟨hkeys, hexisting, rfl⟩ := passing_eq_ok_iff.mp hpassing
  have hfront : refreshed.Sublist (refreshed ++ ls ++ existing.filter
      (passesBeside (idsOf (refreshed ++ ls)))) := by
    rw [List.append_assoc]
    exact List.sublist_append_left _ _
  obtain ⟨environment, rest, rfl, hwritten⟩ := written_of_refresh hknown hbodies hrefresh
    (hids.sublist hfront) fun r hr => hkeys r (List.mem_append_left _ hr)
  have hmark : mark = false → ls = [] := by
    rintro rfl
    exact hls
  have hleft : LeftOver settings endpoints (placeId known.names settings) ls := by
    cases mark with
    | false =>
      obtain rfl := hmark rfl
      exact ⟨fun _ hl => absurd hl (List.not_mem_nil), List.nodup_nil,
        fun _ hk => absurd hk (List.not_mem_nil)⟩
    | true => exact leftOver_of_leftovers hknown hwritten hls
  refine ⟨placeId known.names settings, environment, rest, ls, _, rfl, ?_, hmark⟩
  exact { hwritten with
    left := hleft.left
    distinct := hleft.distinct
    gone := hleft.gone
    ids := hkeys
    passes := fun r hr => by
      obtain ⟨hmem, hpasses⟩ := List.mem_filter.mp hr
      obtain ⟨htype, hid⟩ := hexisting r hmem
      exact passes_of_passesBeside hpasses htype fun henv =>
        ⟨hid henv, parentKey_of_knownOf hknownOf (List.mem_filter.mpr ⟨hmem, henv⟩)⟩ }

end

end RouteAtlas.Insomnia
