/-
  The requests of a merged export.

  ==== Program ====

  A merge makes the requests of the merged export in two ways.  For every endpoint there is one that
  `StandsFor` it: the persisted request with its key under the fresh one, or the fresh one itself.
  For every persisted request whose key no endpoint has there is one that is `PutAside`: the
  persisted request with a marked name and another parent.  There are no others
  (`mergedRequests_of_merge`): what passes through is of another kind.

  ==== Spec ====

  All else about requests is read off these two.  Either way a request has its key and the fields
  `besides` the synthesized ones; the first is named by its endpoint and the second is marked.

  So much is the step of a run: which keys there are afterwards (`requestKeys_merged`), what became
  of a persisted request (`exists_successor`), and which requests are marked
  (`isMarked_iff`).  Nothing is assumed of identifiers, folders or environments, which do not matter
  to requests.
-/
import RouteAtlas.Proofs.Insomnia.Idempotence

namespace RouteAtlas.Insomnia

open Persisted (isMarked bind_eq_ok_iff ok_bind mapM_eq_ok_iff)
open Postman (orElse_of_truthy)
open Resource (isA ofKind fieldOrNull)

/-- The requests among resources that have a key, each under it. -/
abbrev requestEntries (rs : List Resource) : Dict Resource := keyed (ofKind "request" rs)

/-- The keys of the requests among resources. -/
def requestKeys (rs : List Resource) : List String := Dict.keys (requestEntries rs)

/-- The persisted request that counts for a key: the last one that has it. -/
def persistedRequest? (existing : List Resource) (key : String) : Option Resource :=
  Dict.get? (Dict.ofList (requestEntries existing)) key

/-- The request that counts for a key is a persisted request with that key. -/
theorem mem_of_persistedRequest? {existing : List Resource} {key : String} {old : Resource}
    (h : persistedRequest? existing key = some old) :
    old ∈ ofKind "request" existing ∧ key? old = .ok (some key) := by
  rw [persistedRequest?, Dict.get?_ofList] at h
  exact mem_keyed.mp (List.mem_reverse.mp (Dict.mem_of_get? h))

theorem mem_existing_of_persistedRequest? {existing : List Resource} {key : String} {old : Resource}
    (h : persistedRequest? existing key = some old) : old ∈ existing :=
  (List.mem_filter.mp (mem_of_persistedRequest? h).1).1

/-- A key is listed if a request has it. -/
theorem mem_requestKeys {rs : List Resource} {key : String} :
    key ∈ requestKeys rs ↔ ∃ r ∈ ofKind "request" rs, key? r = .ok (some key) := by
  rw [requestKeys, Dict.keys, List.mem_map]
  constructor
  · rintro ⟨⟨k, r⟩, h, rfl⟩
    exact ⟨r, mem_keyed.mp h⟩
  · rintro ⟨r, h⟩
    exact ⟨(key, r), mem_keyed.mpr h, rfl⟩

/-! ## A fresh request over a persisted one

Of the fields of a request a merge writes these: name, method, URL, parent, headers, description and
body.  The others are what a user may have added. -/

/-- The fields of a request that are synthesized anew each time. -/
def ownRequestFields : List String :=
  ["name", "method", "url", "parentId", "headers", "description", "body"]

/-- A merge leaves all other fields of the persisted request as they are.  Every layer of the merge
    writes under names that are its own. -/
theorem besides_mergeRequest {fresh existing merged : Resource}
    (h : mergeRequest fresh existing = .ok merged) :
    Dict.besides ownRequestFields merged = Dict.besides ownRequestFields existing := by
  obtain ⟨headers, -, rfl⟩ := mergeRequest_eq_ok_iff.mp h
  have hbody : ∀ (method : Json) (r : Resource), Dict.besides ownRequestFields
      (embodied method fresh r) = Dict.besides ownRequestFields r := by
    intro method r
    rw [embodied]
    split
    · exact Dict.besides_put (by decide) _ _
    · split
      · exact Dict.besides_put (by decide) _ _
      · rfl
  have hdescription : ∀ r : Resource, Dict.besides ownRequestFields (described fresh r)
      = Dict.besides ownRequestFields r := by
    intro r
    rw [described]
    split
    · exact Dict.besides_put (by decide) _ _
    · rfl
  have hown : ∀ name ∈ ["name", "method", "url", "parentId", "headers"],
      name ∈ ownRequestFields := by decide
  rw [hbody, hdescription]
  exact Dict.besides_putAll hown existing

/-! ## Requests that stand for endpoints

What a merge makes of an endpoint's request, told by its key and by what it has from the persisted
request under this key. -/

/-- A request stands for an endpoint: it is the persisted one with its key under the fresh one, or
    the fresh one where there is none. -/
inductive StandsFor (settings : Settings) (existing : List Resource) (e : Endpoint) :
    Resource → Prop where
  | again {path : List String} {id parent : Json} {old r : Resource}
      (known : persistedRequest? existing (requestKey settings.serviceNames e) = some old)
      (merged : mergeRequest
        (requestAt settings.serviceNames (workspaceOf settings) path e id parent) old = .ok r) :
      StandsFor settings existing e r
  | new {path : List String} {id parent : Json}
      (unknown : persistedRequest? existing (requestKey settings.serviceNames e) = none) :
      StandsFor settings existing e
        (requestAt settings.serviceNames (workspaceOf settings) path e id parent)

/-- Refreshing an endpoint's request gives one that stands for the endpoint. -/
theorem standsFor_of_refresh {settings : Settings} {existing : List Resource} {known : Known}
    (hrequests : known.requests = Dict.ofList (requestEntries existing)) {path : List String}
    {e : Endpoint} {r : Resource} (h : refresh known
      (.obj (Entry.fresh settings.serviceNames (workspaceOf settings) (.request path e))) = .ok r) :
    StandsFor settings existing e r := by
  rw [refresh_request, hrequests, ← persistedRequest?] at h
  cases hold : persistedRequest? existing (requestKey settings.serviceNames e) with
  | some old =>
    rw [hold] at h
    exact .again hold h
  | none =>
    rw [hold] at h
    obtain rfl := Except.ok.inj h
    exact .new hold

section

variable {settings : Settings} {existing : List Resource} {e : Endpoint} {r : Resource}
  (h : StandsFor settings existing e r)
include h

/-- What stands for an endpoint is a request. -/
theorem StandsFor.kind : isA "request" r = true := by
  cases h with
  | again hold hmerge =>
    have htype : Dict.get? r "_type" = _ := get?_mergeRequest hmerge (by decide)
    have hkind := (List.mem_filter.mp (mem_of_persistedRequest? hold).1).2
    exact isA_iff.mpr (htype.trans (isA_iff.mp hkind))
  | new _ => rfl

theorem StandsFor.key : key? r = .ok (some (requestKey settings.serviceNames e)) := by
  cases h with
  | again _ hmerge =>
    rw [key?_mergeRequest hmerge rfl e.method.word_ne_empty rfl (reference_append_ne_empty _ _)]
    exact key?_requestAt ..
  | new _ => exact key?_requestAt ..

theorem StandsFor.name : Dict.get? r "name" = some (.str (Wording.requestName e)) := by
  cases h with
  | @again path id parent old _ _ hmerge =>
    obtain ⟨headers, -, hsettled⟩ := settled_of_mergeRequest hmerge
    -- the fresh name is never empty, so the persisted one is not taken instead
    have htruthy : (Json.str (Wording.requestName e)).truthy = true := by
      refine bne_iff_ne.mpr fun hempty => ?_
      have hchars := congrArg String.toList hempty
      simp only [Wording.requestName, String.toList_append] at hchars
      simp at hchars
    rw [hsettled.name_eq]
    exact congrArg some (orElse_of_truthy htruthy _)
  | new _ => rfl

/-- What stands for an endpoint with a persisted request has what that request had. -/
theorem StandsFor.besides_eq {old : Resource}
    (hold : persistedRequest? existing (requestKey settings.serviceNames e) = some old) :
    Dict.besides ownRequestFields r = Dict.besides ownRequestFields old := by
  cases h with
  | again hold' hmerge =>
    obtain rfl := Option.some.inj (hold'.symm.trans hold)
    exact besides_mergeRequest hmerge
  | new hnone => exact absurd (hnone.symm.trans hold) (by simp)

end

/-- What stands for endpoints has their keys, in their order. -/
theorem keys_of_standsFor {settings : Settings} {existing : List Resource} {es : List Endpoint}
    {rs : List Resource} (h : List.Forall₂ (StandsFor settings existing) es rs) :
    Dict.keys (keyed rs) = es.map (requestKey settings.serviceNames) := by
  induction h with
  | nil => rfl
  | @cons e r es rs hr _ ih =>
    rw [keyed, List.filterMap_cons, Persisted.given_eq_some_iff.mpr hr.key, List.map_cons, ← ih]
    rfl

/-! ## Requests that are put aside

A request whose endpoint is gone keeps all but its name, which is marked, and its parent. -/

/-- A request is put aside: its name gets the mark, and it gets another parent. -/
def PutAside (old l : Resource) : Prop :=
  ∃ name parent, Persisted.deprecated (Dict.get? old "name") = .ok name ∧
    l = Dict.putAll old [("name", name), ("parentId", parent)]

/-- What is left over is put aside. -/
theorem putAside_of_leftover {oldPaths : List (Json × FolderPath)}
    {folders : List (FolderPath × Json)} {old l : Resource}
    (h : leftover oldPaths folders old = .ok l) : PutAside old l := by
  obtain ⟨name, hname, h⟩ := bind_eq_ok_iff.mp h
  obtain ⟨_, -, h⟩ := bind_eq_ok_iff.mp h
  obtain ⟨_, -, h⟩ := bind_eq_ok_iff.mp h
  exact ⟨name, _, hname, (Except.ok.inj h).symm⟩

section

variable {old l : Resource} (h : PutAside old l)
include h

/-- A request that is put aside keeps all fields but its name and its parent. -/
theorem PutAside.get?_eq {field : String} (hname : field ≠ "name") (hparent : field ≠ "parentId") :
    Dict.get? l field = Dict.get? old field := by
  obtain ⟨name, parent, -, rfl⟩ := h
  rw [Dict.putAll_cons, Dict.putAll_cons, Dict.putAll_nil, Dict.get?_put_of_ne hparent,
    Dict.get?_put_of_ne hname]

theorem PutAside.kind {kind : String} (hkind : isA kind old = true) : isA kind l = true :=
  isA_iff.mpr ((h.get?_eq (by decide) (by decide)).trans (isA_iff.mp hkind))

theorem PutAside.key : key? l = key? old := by
  rw [key?, fieldOrNull, fieldOrNull, h.get?_eq (by decide) (by decide),
    h.get?_eq (by decide) (by decide)]
  rfl

theorem PutAside.marked : isMarked l = true := by
  obtain ⟨name, parent, hname, rfl⟩ := h
  have hsame : isMarked (Dict.putAll old [("name", name), ("parentId", parent)])
      = isMarked (Dict.put old "name" name) := by
    rw [isMarked, isMarked, Dict.putAll_cons, Dict.putAll_cons, Dict.putAll_nil,
      Dict.get?_put_of_ne (by decide)]
  rw [hsame]
  exact Persisted.isMarked_put hname old

theorem PutAside.besides_eq :
    Dict.besides ownRequestFields l = Dict.besides ownRequestFields old := by
  obtain ⟨name, parent, -, rfl⟩ := h
  have hown : ∀ name ∈ ["name", "parentId"], name ∈ ownRequestFields := by decide
  exact Dict.besides_putAll hown old

end

/-- The persisted requests under keys that no endpoint has. -/
def gone (settings : Settings) (endpoints : List Endpoint) (existing : List Resource) :
    Dict Resource :=
  (Dict.ofList (requestEntries existing)).filter fun e =>
    !(endpoints.map (requestKey settings.serviceNames)).contains e.1

/-- Gone are the requests that count for their keys, under keys that no endpoint has. -/
theorem mem_gone {settings : Settings} {endpoints : List Endpoint} {existing : List Resource}
    {key : String} {old : Resource} : (key, old) ∈ gone settings endpoints existing ↔
      persistedRequest? existing key = some old ∧
        key ∉ endpoints.map (requestKey settings.serviceNames) := by
  rw [gone, List.mem_filter, Bool.not_eq_true', ← Bool.not_eq_true, List.contains_iff_mem]
  refine and_congr_left fun _ => ⟨fun h => ?_, Dict.mem_of_get?⟩
  exact Dict.get?_of_mem (Dict.nodup_keys_ofList _) h

/-- What is gone is a persisted request, under its key. -/
theorem mem_of_mem_gone {settings : Settings} {endpoints : List Endpoint} {existing : List Resource}
    {g : String × Resource} (h : g ∈ gone settings endpoints existing) :
    g.2 ∈ ofKind "request" existing ∧ key? g.2 = .ok (some g.1) :=
  mem_of_persistedRequest? (mem_gone.mp h).1

/-- A key is gone once. -/
theorem nodup_keys_gone (settings : Settings) (endpoints : List Endpoint) (existing : List Resource) :
    (Dict.keys (gone settings endpoints existing)).Nodup :=
  (Dict.nodup_keys_ofList _).sublist (List.filter_sublist.map _)

/-- What is put aside keeps its keys, in their order. -/
theorem keys_of_putAside {settings : Settings} {endpoints : List Endpoint} {existing ls : List Resource}
    (h : List.Forall₂ (fun g l => PutAside g.2 l) (gone settings endpoints existing) ls) :
    Dict.keys (keyed ls) = Dict.keys (gone settings endpoints existing) := by
  have hkeys : ∀ g ∈ gone settings endpoints existing, key? g.2 = .ok (some g.1) :=
    fun g hg => (mem_of_mem_gone hg).2
  generalize gone settings endpoints existing = gs at h hkeys
  induction h with
  | nil => rfl
  | @cons g l gs ls hl _ ih =>
    have hkey : key? l = .ok (some g.1) := hl.key.trans (hkeys g (List.mem_cons_self ..))
    have ih := ih fun g' hg' => hkeys g' (List.mem_cons_of_mem _ hg')
    rw [keyed, List.filterMap_cons, Persisted.given_eq_some_iff.mpr hkey]
    show g.1 :: Dict.keys (keyed ls) = _
    rw [ih]
    rfl

/-! ## All requests of a merged export

Those that stand for the endpoints, in the order of these, and behind them those that are put aside. -/

section

variable {settings : Settings} {endpoints : List Endpoint} {existing merged : List Resource}

/-- The requests among what refreshing gives, endpoint by endpoint.  The workspace and its
    environment are no requests, and the entries and their resources are followed in step. -/
theorem requests_of_mapM_refresh {known : Known} (hknown : known.Sound)
    (hrequests : known.requests = Dict.ofList (requestEntries existing)) {refreshed : List Resource}
    (h : ((resources settings endpoints).map .obj).mapM (refresh known) = .ok refreshed) :
    List.Forall₂ (StandsFor settings existing) endpoints (ofKind "request" refreshed) := by
  obtain ⟨environment, rest, rfl, henvironment, hrest⟩ := entries_of_mapM_refresh h
  have henv : isA "environment" environment = true :=
    (environment_of_refresh hknown henvironment).1
  rw [ofKind_cons_of_not rfl, ofKind_cons_of_not (isA_false henv (by decide))]
  have hendpoints : (allEntries settings endpoints).filterMap Entry.endpoint? = endpoints :=
    endpoints_entries ..
  rw [← hendpoints]
  have hplaced : ∀ entry ∈ allEntries settings endpoints, ∀ path, entry = .folder path → path ≠ [] := by
    rintro entry hentry path rfl
    exact ne_root_of_folder_mem hentry
  clear h hendpoints
  -- entry by entry: a folder adds no request, and a request the one that stands for its endpoint
  generalize allEntries settings endpoints = es at hrest hplaced
  induction hrest with
  | nil => exact .nil
  | @cons entry r es rs hr _ ih =>
    have ih := ih fun entry' hentry' => hplaced entry' (List.mem_cons_of_mem _ hentry')
    cases entry with
    | folder path =>
      rw [refresh_folder known settings (hplaced _ (List.mem_cons_self ..) path rfl)] at hr
      obtain rfl := Except.ok.inj hr
      rw [ofKind_cons_of_not rfl]
      exact ih
    | request path e =>
      have hstands := standsFor_of_refresh hrequests hr
      rw [ofKind_cons_of_isA hstands.kind]
      exact .cons hstands ih

/-- The leftovers are made of the requests that are gone, one by one.  What the program filters by
    its own list of keys are the requests that are gone; the two paths are looked up once for all of
    them. -/
theorem leftover_of_leftovers {known : Known}
    (hknown : Known.of (resources settings endpoints) existing = .ok known)
    {refreshed ls : List Resource}
    (h : leftovers known (resources settings endpoints) existing refreshed = .ok ls) :
    ∃ oldPaths paths folders, folderPaths existing = .ok oldPaths ∧ folderPaths refreshed = .ok paths ∧
      foldersByPath paths = .ok folders ∧
      List.Forall₂ (fun g l => leftover oldPaths folders g.2 = .ok l)
        (gone settings endpoints existing) ls := by
  rw [leftovers, keys_fresh, ok_bind] at h
  obtain ⟨oldPaths, holdPaths, h⟩ := bind_eq_ok_iff.mp h
  obtain ⟨paths, hpaths, h⟩ := bind_eq_ok_iff.mp h
  obtain ⟨folders, hfolders, h⟩ := bind_eq_ok_iff.mp h
  have hcontains : ∀ key : String,
      (endpoints.map fun e => some (requestKey settings.serviceNames e)).contains (some key)
        = (endpoints.map (requestKey settings.serviceNames)).contains key := by
    intro key
    rw [Bool.eq_iff_iff, List.contains_iff_mem, List.contains_iff_mem, List.mem_map, List.mem_map]
    simp only [Option.some.injEq]
  rw [requests_of_knownOf hknown] at h
  simp only [hcontains] at h
  exact ⟨oldPaths, paths, folders, holdPaths, hpaths, hfolders, mapM_eq_ok_iff.mp h⟩

/-- So they are these, put aside. -/
theorem putAside_of_leftovers {known : Known}
    (hknown : Known.of (resources settings endpoints) existing = .ok known)
    {refreshed ls : List Resource}
    (h : leftovers known (resources settings endpoints) existing refreshed = .ok ls) :
    List.Forall₂ (fun g l => PutAside g.2 l) (gone settings endpoints existing) ls := by
  obtain ⟨_, _, _, -, -, -, hleft⟩ := leftover_of_leftovers hknown h
  exact hleft.imp fun _ _ hl => putAside_of_leftover hl

/-- The same of a merge that may be wished not to keep them. -/
theorem putAside_of_left {known : Known}
    (hknown : Known.of (resources settings endpoints) existing = .ok known)
    {refreshed ls : List Resource} {mark : Bool}
    (h : if mark then leftovers known (resources settings endpoints) existing refreshed = .ok ls
      else ls = []) :
    List.Forall₂ (fun g l => PutAside g.2 l)
      (if mark then gone settings endpoints existing else []) ls := by
  cases mark with
  | true => exact putAside_of_leftovers hknown h
  | false =>
    obtain rfl : ls = [] := h
    exact .nil

/-- What is left over are persisted requests. -/
theorem mem_of_mem_left {mark : Bool} {g : String × Resource}
    (h : g ∈ (if mark then gone settings endpoints existing else [])) :
    g.2 ∈ ofKind "request" existing := by
  cases mark with
  | true => exact (mem_of_mem_gone h).1
  | false => exact absurd h (List.not_mem_nil)

/-- The requests of `merged` stand for the endpoints or are put aside. -/
def MergedRequests (settings : Settings) (endpoints : List Endpoint) (existing : List Resource)
    (mark : Bool) (merged : List Resource) : Prop :=
  ∃ refreshed left, ofKind "request" merged = refreshed ++ left ∧
    List.Forall₂ (StandsFor settings existing) endpoints refreshed ∧
    List.Forall₂ (fun g l => PutAside g.2 l)
      (if mark then gone settings endpoints existing else []) left

/-- **The requests that a merge writes** stand for the endpoints or are put aside. -/
theorem mergedRequests_of_mergeResources {mark : Bool}
    (h : mergeResources ((resources settings endpoints).map .obj) existing mark = .ok merged) :
    MergedRequests settings endpoints existing mark merged := by
  obtain ⟨known, refreshed, ls, ps, hknown, hrefresh, hls, hpassing, rfl⟩ :=
    parts_of_mergeResources h
  obtain ⟨-, -, rfl⟩ := passing_eq_ok_iff.mp hpassing
  have hpasses : ofKind "request" (existing.filter (passesBeside (idsOf (refreshed ++ ls)))) = [] := by
    exact ofKind_eq_nil fun r hr =>
      isA_false_of_passesBeside (List.mem_filter.mp hr).2 (by decide) (by decide)
  have hleft := putAside_of_left hknown hls
  -- what is put aside was a request, and stays one
  have hkinds : ∀ l ∈ ls, isA "request" l = true := by
    intro l hl
    obtain ⟨g, hg, haside⟩ := Persisted.exists_of_forall₂_right hleft hl
    exact haside.kind (List.mem_filter.mp (mem_of_mem_left hg)).2
  refine ⟨_, ls, ?_, requests_of_mapM_refresh (sound_of_knownOf hknown)
    (requests_of_knownOf hknown) hrefresh, hleft⟩
  rw [ofKind_append, ofKind_append, hpasses, List.append_nil, ofKind_eq_self hkinds]

/-- A fresh export is merged with nothing. -/
theorem mergedRequests_fresh (settings : Settings) (endpoints : List Endpoint) (mark : Bool) :
    MergedRequests settings endpoints [] mark (resources settings endpoints) := by
  refine ⟨_, [], (List.append_nil _).symm, requests_of_mapM_refresh Known.sound_nothing rfl
    (refresh_nothing settings endpoints), ?_⟩
  cases mark <;> exact .nil

/-! ## Documents

Without a persisted document the fresh one is written as it is, which is a merge with nothing. -/

/-- The resources of a document, none without it. -/
def resourcesBefore (existing : Option (Dict Json)) : List Resource :=
  (existing.map resourcesOf).getD []

/-- **What a merge does**: the fresh document if there is nothing to merge into, else its resources
    merged into the persisted ones. -/
theorem merge_cases {date : String} {before : Option (Dict Json)} {document' : Dict Json}
    {mark : Bool} (h : merge (document date settings endpoints) before mark = .ok document') :
    (resourcesBefore before = [] ∧ resourcesOf document' = resources settings endpoints) ∨
    mergeResources ((resources settings endpoints).map .obj) (resourcesBefore before) mark
      = .ok (resourcesOf document') := by
  have hfresh : resourcesOf (document date settings endpoints) = resources settings endpoints :=
    resourcesOf_of_get? rfl
  cases before with
  | none =>
    obtain rfl := Except.ok.inj h
    exact .inl ⟨rfl, hfresh⟩
  | some existing =>
    have hbefore : resourcesBefore (some existing) = resourcesOf existing := rfl
    by_cases hlist : ∃ old, Dict.get? existing "resources" = some (.arr old)
    · obtain ⟨old, hold⟩ := hlist
      obtain ⟨rs, hmerge, rfl⟩ := (merge_eq_ok_iff hold).mp h
      rw [resourcesOf_of_get? (Dict.get?_put_self ..), hbefore, resourcesOf, hold]
      exact .inr hmerge
    · -- a document without a list of resources is as good as none
      have hnone : resourcesOf existing = [] := by
        rw [resourcesOf]
        split
        · rename_i old hold
          exact absurd ⟨old, hold⟩ hlist
        · rfl
      rcases merge_without h with rfl | hold
      · exact .inl ⟨hnone, hfresh⟩
      · exact absurd hold hlist

/-- **The requests of a merged export** stand for the endpoints or are put aside. -/
theorem mergedRequests_of_merge {date : String} {before : Option (Dict Json)} {document' : Dict Json}
    {mark : Bool} (h : merge (document date settings endpoints) before mark = .ok document') :
    MergedRequests settings endpoints (resourcesBefore before) mark (resourcesOf document') := by
  rcases merge_cases h with ⟨hnone, heq⟩ | hmerge
  · rw [hnone, heq]
    exact mergedRequests_fresh settings endpoints mark
  · exact mergedRequests_of_mergeResources hmerge

/-! ## Requests under the key of an endpoint

Where two endpoints have one key, the request that is found under it stands for one of them. -/

section

variable {mark : Bool} (h : MergedRequests settings endpoints existing mark merged) {e : Endpoint}
  (he : e ∈ endpoints)
include h he

/-- Every endpoint has a request that stands for it, under its key. -/
theorem exists_standsFor : ∃ r,
    (requestKey settings.serviceNames e, r) ∈ requestEntries merged ∧
      StandsFor settings existing e r := by
  obtain ⟨refreshed, left, hrequests, hstand, -⟩ := h
  obtain ⟨r, hr, hstands⟩ := Persisted.exists_of_forall₂_left hstand he
  have hmem : r ∈ ofKind "request" merged := hrequests ▸ List.mem_append_left _ hr
  exact ⟨r, mem_keyed.mpr ⟨hmem, hstands.key⟩, hstands⟩

/-- A request under the key of an endpoint stands for some endpoint with that key.  Requests of a
    merged export stand for an endpoint or are put aside, and the latter have keys that no endpoint
    has. -/
theorem standsFor_of_entry {r : Resource}
    (hr : (requestKey settings.serviceNames e, r) ∈ requestEntries merged) : ∃ e',
      requestKey settings.serviceNames e' = requestKey settings.serviceNames e ∧
        StandsFor settings existing e' r := by
  obtain ⟨refreshed, left, hrequests, hstand, haside⟩ := h
  obtain ⟨hr, hkey⟩ := mem_keyed.mp hr
  rw [hrequests] at hr
  rcases List.mem_append.mp hr with hr | hr
  · obtain ⟨e', -, hstands⟩ := Persisted.exists_of_forall₂_right hstand hr
    exact ⟨e', Option.some.inj (Except.ok.inj (hstands.key.symm.trans hkey)), hstands⟩
  · -- what is put aside has a key that no endpoint has
    obtain ⟨g, hg, hput⟩ := Persisted.exists_of_forall₂_right haside hr
    cases mark with
    | false => exact absurd hg (List.not_mem_nil)
    | true =>
      have hsame := hput.key.symm.trans hkey
      rw [(mem_of_mem_gone hg).2] at hsame
      have hno := (mem_gone.mp hg).2
      rw [Option.some.inj (Except.ok.inj hsame)] at hno
      exact absurd (List.mem_map_of_mem he) hno

end

/-! ## What follows when what is gone is put aside

The step of a run: what becomes of keys, of requests under a key, and of marks. -/

section

variable (h : MergedRequests settings endpoints existing true merged)
include h

/-- A request of a merged export stands for an endpoint or is put aside. -/
theorem request_cases {r : Resource} (hr : r ∈ ofKind "request" merged) :
    (∃ e ∈ endpoints, StandsFor settings existing e r) ∨
    ∃ key old, (key, old) ∈ gone settings endpoints existing ∧ PutAside old r := by
  obtain ⟨refreshed, left, hrequests, hstand, haside⟩ := h
  rw [hrequests] at hr
  rcases List.mem_append.mp hr with hr | hr
  · exact .inl (Persisted.exists_of_forall₂_right hstand hr)
  · obtain ⟨g, hg, hput⟩ := Persisted.exists_of_forall₂_right haside hr
    exact .inr ⟨g.1, g.2, hg, hput⟩

/-- **The keys after a merge**: those of the endpoints, and those that are gone. -/
theorem requestKeys_merged : requestKeys merged
    = endpoints.map (requestKey settings.serviceNames)
      ++ Dict.keys (gone settings endpoints existing) := by
  obtain ⟨refreshed, left, hrequests, hstand, haside⟩ := h
  rw [requestKeys, requestEntries, hrequests, keyed_append, Dict.keys, List.map_append]
  exact congrArg₂ (· ++ ·) (keys_of_standsFor hstand) (keys_of_putAside haside)

omit h in
/-- The keys of a fresh export are those of the endpoints. -/
theorem requestKeys_fresh (settings : Settings) (endpoints : List Endpoint) :
    requestKeys (resources settings endpoints) = endpoints.map (requestKey settings.serviceNames) :=
  (requestKeys_merged (mergedRequests_fresh settings endpoints true)).trans (List.append_nil _)

/-- Every request of a merged export has a key. -/
theorem key?_of_mem_merged {r : Resource} (hr : r ∈ ofKind "request" merged) :
    ∃ key, key? r = .ok (some key) := by
  rcases request_cases h hr with ⟨e, -, hstand⟩ | ⟨key, old, hgone, haside⟩
  · exact ⟨_, hstand.key⟩
  · exact ⟨key, haside.key.trans (mem_of_mem_gone hgone).2⟩

/-- **Every persisted request that counts for its key goes on**, under its key and with what it
    had. -/
theorem exists_successor {key : String} {old : Resource}
    (hold : persistedRequest? existing key = some old) :
    ∃ r ∈ ofKind "request" merged, key? r = .ok (some key) ∧
      Dict.besides ownRequestFields r = Dict.besides ownRequestFields old := by
  obtain ⟨refreshed, left, hrequests, hstand, haside⟩ := h
  rw [hrequests]
  by_cases hkey : key ∈ endpoints.map (requestKey settings.serviceNames)
  · obtain ⟨e, he, rfl⟩ := List.mem_map.mp hkey
    obtain ⟨r, hr, hstands⟩ := Persisted.exists_of_forall₂_left hstand he
    exact ⟨r, List.mem_append_left _ hr, hstands.key, hstands.besides_eq hold⟩
  · obtain ⟨l, hl, hput⟩ := Persisted.exists_of_forall₂_left haside (mem_gone.mpr ⟨hold, hkey⟩)
    exact ⟨l, List.mem_append_right _ hl, hput.key.trans (mem_of_persistedRequest? hold).2,
      hput.besides_eq⟩

/-- **Marked is what no endpoint has the key of.** -/
theorem isMarked_iff
    (hnames : ∀ e ∈ endpoints,
      Text.startsWith Persisted.deprecationMark (Wording.requestName e) = false)
    {r : Resource} (hr : r ∈ ofKind "request" merged) {key : String}
    (hkey : key? r = .ok (some key)) :
    isMarked r = true ↔ key ∉ endpoints.map (requestKey settings.serviceNames) := by
  rcases request_cases h hr with ⟨e, he, hstand⟩ | ⟨key', old, hgone, haside⟩
  · obtain rfl := Option.some.inj (Except.ok.inj (hkey.symm.trans hstand.key))
    have hplain : isMarked r = false := by
      rw [isMarked, hstand.name]
      exact hnames e he
    rw [hplain]
    exact ⟨fun hmark => absurd hmark (by decide), fun hno => absurd (List.mem_map_of_mem he) hno⟩
  · obtain ⟨hold, hno⟩ := mem_gone.mp hgone
    have hsame := haside.key.trans (mem_of_persistedRequest? hold).2
    obtain rfl := Option.some.inj (Except.ok.inj (hkey.symm.trans hsame))
    exact ⟨fun _ => hno, fun _ => haside.marked⟩

end

end

end RouteAtlas.Insomnia
