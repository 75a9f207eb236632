/-
  The parts of a merged export, whatever was persisted.

  ==== Problem ====

  `Written` describes an export that a merge leaves alone.  For what a single merge does to folders,
  environments and parents that is too much: it needs identifiers that are told apart, and requests
  that their endpoints agree with.

  ==== Spec ====

  A merged export is a workspace, its base environment, what stands for the entries, what is left
  over, and what passes through (`Parts`, `parts_of_merge`).  Which of these a resource is can be
  told by its kind (`Parts.workspaces`, `Parts.folders`, `Parts.environments`, `Parts.requests`),
  and where its identifier comes from (`Parts.origin`): it is that of a persisted resource or of a
  fresh one.

  ==== Proof ====

  `parts_of_mergeResources` takes the program apart, and each part is then described by itself.  The
  lists of one kind are appended from the parts (`Parts.ofKind_merged`), most of which have none of
  that kind.
-/
import RouteAtlas.Proofs.Insomnia.Rename
import RouteAtlas.Proofs.Insomnia.Step

namespace RouteAtlas.Insomnia

open Resource (isA ofKind fieldOrNull)

/-! ## What stands for an entry

What a merge makes of each fresh resource, told without `Holds`, which assumes that bodies fit. -/

/-- A resource stands for an entry: the folder under its new name, or a request that stands for the
    endpoint, in the folder of the entry and with an identifier of its own or the persisted one. -/
inductive FromEntry (settings : Settings) (existing : List Resource) (id : List String → Json) :
    Entry → Resource → Prop where
  | folder (path : List String) : FromEntry settings existing id (.folder path) (folderAt id path)
  | request {path : List String} {e : Endpoint} {r : Resource}
      (stands : StandsFor settings existing e r)
      (parent : Dict.get? r "parentId" = some (id path))
      (origin : (∃ old, persistedRequest? existing (requestKey settings.serviceNames e) = some old ∧
          Dict.get? r "_id" = Dict.get? old "_id") ∨
        persistedRequest? existing (requestKey settings.serviceNames e) = none ∧
          Dict.get? r "_id" = some (.str (stableId "req" [e.key]))) :
      FromEntry settings existing id (.request path e) r

/-- A merged request names its parent as the fresh one does. -/
theorem Settled.parent_eq {fresh like merged : Resource} {headers : Json}
    (h : Settled fresh like merged headers) :
    Dict.get? merged "parentId" = some (fieldOrNull fresh "parentId") :=
  h.own ("parentId", fieldOrNull fresh "parentId") (by simp [ownFields])

section

variable {settings : Settings} {endpoints : List Endpoint} {existing : List Resource} {known : Known}

/-- What refreshing gives for an entry stands for it, by its kind: a folder gets its new name, a
    request is merged with the persisted one of its key. -/
theorem fromEntry_of_refresh
    (hknown : Known.of (resources settings endpoints) existing = .ok known) {entry : Entry}
    (hentry : entry ∈ allEntries settings endpoints) {r : Resource}
    (h : refresh known (.obj (entry.fresh settings.serviceNames (workspaceOf settings))) = .ok r) :
    FromEntry settings existing (placeId known.names settings) entry r := by
  cases entry with
  | folder path =>
    rw [refresh_folder known settings (ne_root_of_folder_mem hentry)] at h
    obtain rfl := Except.ok.inj h
    exact .folder path
  | request path e =>
    have hrequests := requests_of_knownOf hknown
    have hstands := standsFor_of_refresh hrequests h
    rw [refresh_request, hrequests, ← persistedRequest?] at h
    cases hold : persistedRequest? existing (requestKey settings.serviceNames e) with
    | some old =>
      rw [hold] at h
      obtain ⟨headers, -, hsettled⟩ := settled_of_mergeRequest h
      exact .request hstands hsettled.parent_eq (.inl ⟨old, hold, get?_mergeRequest h (by decide)⟩)
    | none =>
      rw [hold] at h
      obtain rfl := Except.ok.inj h
      have hid : requestId known e = .str (stableId "req" [e.key]) :=
        newName_request (parts_of_knownOf hknown).1 [e.key]
      exact .request hstands rfl (.inr ⟨hold, congrArg some hid⟩)

end

section

variable {settings : Settings} {existing : List Resource} {id : List String → Json}

/-- What stands for an entry is a folder or a request. -/
theorem FromEntry.isA_folder_or_request {entry : Entry} {r : Resource}
    (h : FromEntry settings existing id entry r) :
    isA "request_group" r = true ∨ isA "request" r = true := by
  cases h with
  | folder path => exact .inl rfl
  | request stands _ _ => exact .inr stands.kind

/-- The folders among what stands for entries are the entries' folders, under their new names. -/
theorem folders_of_fromEntry {es : List Entry} {rs : List Resource}
    (h : List.Forall₂ (FromEntry settings existing id) es rs) :
    ofKind "request_group" rs = (foldersAmong es).map (folderAt id) := by
  induction h with
  | nil => rfl
  | @cons entry r es rs hr _ ih =>
    cases hr with
    | folder path =>
      rw [ofKind_cons_of_isA rfl, ih]
      rfl
    | request stands _ _ =>
      rw [ofKind_cons_of_not (isA_false stands.kind (by decide)), ih]
      rfl

end

/-! ## Identifiers of their own

What is looked up by identifier is found, as no other entry has it. -/

/-- A resource is found by its identifier. -/
theorem DistinctIds.get?_table {rs : List Resource} (h : DistinctIds rs)
    (hkeys : ∀ r ∈ rs, (fieldOrNull r "_id").kind.isKey = true) {r : Resource} (hr : r ∈ rs) :
    Dict.get? (rs.map fun r => (fieldOrNull r "_id", r)) (fieldOrNull r "_id") = some r := by
  have hfound : (Dict.get? (rs.map fun r => (fieldOrNull r "_id", r)) (fieldOrNull r "_id")).isSome
      = true := by
    refine Dict.isSome_get?_iff.mpr ⟨fieldOrNull r "_id", ?_, h.beq_self hr⟩
    rw [Dict.keys, List.map_map]
    exact List.mem_map_of_mem (f := fun r => fieldOrNull r "_id") hr
  obtain ⟨s, hs⟩ := Option.isSome_iff_exists.mp hfound
  obtain ⟨k, hk, heq⟩ := Dict.exists_mem_of_get? hs
  obtain ⟨s', hs', hpair⟩ := List.mem_map.mp hk
  obtain ⟨rfl, rfl⟩ := Prod.mk.inj hpair
  rw [hs, h.eq_of_beq hr hs' (hkeys r hr) heq]

/-! ## Identifiers of other resources than environments

New names go to workspaces, folders and environments, and only from those of their own kind, but
that an identifier may be had by a folder and an environment at once.  These are kept apart here. -/

/-- A resource that is no environment has the identifier `i`. -/
def HasOtherId (rs : List Resource) (i : Json) : Prop :=
  ∃ s ∈ rs, isA "environment" s = false ∧ fieldOrNull s "_id" = i

/-- The identifier of a workspace, folder or request is that of a resource that is no environment. -/
theorem HasOtherId.of_hasId {rs : List Resource} {kind : String} (hne : kind ≠ "environment") {i : Json}
    (h : HasId (ofKind kind rs) i) : HasOtherId rs i := by
  obtain ⟨s, hs, hid⟩ := h
  obtain ⟨hs, hkind⟩ := List.mem_filter.mp hs
  exact ⟨s, hs, isA_false hkind hne, fieldOrNull_of_get? hid⟩

/-- What has the identifier of a request has that of a resource that is no environment. -/
theorem HasOtherId.of_request {rs : List Resource} {old r : Resource} (hold : old ∈ ofKind "request" rs)
    (hid : Dict.get? r "_id" = Dict.get? old "_id") : HasOtherId rs (fieldOrNull r "_id") := by
  obtain ⟨hmem, hkind⟩ := List.mem_filter.mp hold
  exact ⟨old, hmem, isA_false hkind (by decide), by rw [fieldOrNull, fieldOrNull, hid]⟩

/-! ## All parts

A merged export, taken apart: the workspace, the base environment, what stands for the entries, what
is left over, and what passes through. -/

/-- The parts of an export that is merged from a fresh one and a persisted one: the workspace, its
    base environment, what stands for the entries, what is left over, and what passes through. -/
structure Parts (settings : Settings) (endpoints : List Endpoint) (existing : List Resource)
    (mark : Bool) (merged : List Resource) where
  known : Known
  environment : Resource
  rest : List Resource
  left : List Resource
  passed : List Resource
  merged_eq : merged = workspaceAt settings (placeId known.names settings []) :: environment :: rest
    ++ left ++ passed
  known_eq : Known.of (resources settings endpoints) existing = .ok known
  environment_eq : refresh known
    (.obj (environmentAt settings (environmentId settings) (freshId settings []))) = .ok environment
  rest_from : List.Forall₂ (FromEntry settings existing (placeId known.names settings))
    (allEntries settings endpoints) rest
  left_eq : if mark then leftovers known (resources settings endpoints) existing
      (workspaceAt settings (placeId known.names settings []) :: environment :: rest) = .ok left
    else left = []
  keys : ∀ r ∈ workspaceAt settings (placeId known.names settings []) :: environment :: rest ++ left,
    (fieldOrNull r "_id").kind.isKey = true
  environment_keys : ∀ e ∈ ofKind "environment" existing, (fieldOrNull e "_id").kind.isKey = true
  passed_eq : passed = existing.filter (passesBeside (idsOf
    (workspaceAt settings (placeId known.names settings []) :: environment :: rest ++ left)))

/-- A merge that succeeds gives an export with these parts. -/
theorem parts_of_merge {settings : Settings} {endpoints : List Endpoint}
    {existing merged : List Resource} {mark : Bool}
    (h : mergeResources ((resources settings endpoints).map .obj) existing mark = .ok merged) :
    Nonempty (Parts settings endpoints existing mark merged) := by
  obtain ⟨known, refreshed, left, passed, hknown, hrefresh, hleft, hpassing, rfl⟩ :=
    parts_of_mergeResources h
  obtain ⟨hkeys, hexisting, rfl⟩ := passing_eq_ok_iff.mp hpassing
  obtain ⟨environment, rest, rfl, henvironment, hrest⟩ := entries_of_mapM_refresh hrefresh
  have hmem := (List.forall₂_and_left _ _).mpr
    ⟨fun entry (hentry : entry ∈ allEntries settings endpoints) => hentry, hrest⟩
  refine ⟨⟨known, environment, rest, left, _, rfl, hknown, henvironment,
    hmem.imp fun entry r hr => fromEntry_of_refresh hknown hr.1 hr.2, hleft, hkeys, fun e he => ?_, rfl⟩⟩
  obtain ⟨he, henv⟩ := List.mem_filter.mp he
  exact (hexisting e he).2 henv

namespace Parts

variable {settings : Settings} {endpoints : List Endpoint} {existing merged : List Resource}
  {mark : Bool} (parts : Parts settings endpoints existing mark merged)

/-- The identifiers of the places. -/
def id : List String → Json := placeId parts.known.names settings

/-- The fresh resources, merged. -/
def refreshed : List Resource := workspaceAt settings (parts.id []) :: parts.environment :: parts.rest

/-- What comes before the resources that pass through. -/
def front : List Resource := parts.refreshed ++ parts.left

/-- The export is what comes before, and then what passes through. -/
theorem eq_front : merged = parts.front ++ parts.passed := parts.merged_eq

/-- The new names of the merge are those of the two exports. -/
theorem names : newNames (resources settings endpoints) existing = .ok parts.known.names :=
  (parts_of_knownOf parts.known_eq).1

theorem environment_kind : isA "environment" parts.environment = true :=
  (environment_of_refresh (sound_of_knownOf parts.known_eq) parts.environment_eq).1

/-- The base environment is below the workspace. -/
theorem environment_parent : Dict.get? parts.environment "parentId" = some (parts.id []) :=
  (environment_of_refresh (sound_of_knownOf parts.known_eq) parts.environment_eq).2.1

/-! ## Kinds

Which parts hold resources of which kind.  The lists of one kind are put together from this. -/

/-- What is left over was put aside. -/
theorem putAside : List.Forall₂ (fun g l => PutAside g.2 l)
    (if mark then gone settings endpoints existing else []) parts.left :=
  putAside_of_left parts.known_eq parts.left_eq

/-- What is left over is a persisted request that was put aside. -/
theorem origin_of_left {l : Resource} (hl : l ∈ parts.left) :
    ∃ old ∈ ofKind "request" existing, PutAside old l := by
  obtain ⟨g, hg, haside⟩ := Persisted.exists_of_forall₂_right parts.putAside hl
  exact ⟨g.2, mem_of_mem_left hg, haside⟩

/-- What is left over is made of a request that is gone, with the paths before and after. -/
theorem leftover_of_left {l : Resource} (hl : l ∈ parts.left) :
    ∃ oldPaths paths table, folderPaths existing = .ok oldPaths ∧
      folderPaths parts.refreshed = .ok paths ∧ foldersByPath paths = .ok table ∧
      ∃ g ∈ gone settings endpoints existing, leftover oldPaths table g.2 = .ok l := by
  have hleft := parts.left_eq
  cases mark with
  | false =>
    have hnone : parts.left = [] := hleft
    rw [hnone] at hl
    exact absurd hl (List.not_mem_nil)
  | true =>
    obtain ⟨oldPaths, paths, table, holdPaths, hpaths, htable, hsteps⟩ :=
      leftover_of_leftovers parts.known_eq hleft
    exact ⟨oldPaths, paths, table, holdPaths, hpaths, htable,
      Persisted.exists_of_forall₂_right hsteps hl⟩

/-- **What does not pass through** is the workspace, the base environment, made of an entry or left
    over. -/
theorem front_cases {r : Resource} (hr : r ∈ parts.front) :
    r = workspaceAt settings (parts.id []) ∨ r = parts.environment ∨
      (∃ entry ∈ allEntries settings endpoints, FromEntry settings existing parts.id entry r) ∨
      r ∈ parts.left := by
  rcases List.mem_append.mp hr with hr | hr
  · rcases List.mem_cons.mp hr with rfl | hr
    · exact .inl rfl
    · rcases List.mem_cons.mp hr with rfl | hr
      · exact .inr (.inl rfl)
      · exact .inr (.inr (.inl (Persisted.exists_of_forall₂_right parts.rest_from hr)))
  · exact .inr (.inr (.inr hr))

/-- What is left over is a request. -/
theorem isA_left {l : Resource} (hl : l ∈ parts.left) : isA "request" l = true := by
  obtain ⟨old, hold, haside⟩ := parts.origin_of_left hl
  exact haside.kind (List.mem_filter.mp hold).2

/-- What stands for the entries are folders and requests. -/
theorem isA_rest {r : Resource} (hr : r ∈ parts.rest) :
    isA "request_group" r = true ∨ isA "request" r = true := by
  obtain ⟨entry, -, hfrom⟩ := Persisted.exists_of_forall₂_right parts.rest_from hr
  exact hfrom.isA_folder_or_request

/-- Nothing else stands for an entry. -/
theorem ofKind_rest_eq_nil {kind : String} (hgroup : "request_group" ≠ kind)
    (hrequest : "request" ≠ kind) : ofKind kind parts.rest = [] :=
  ofKind_eq_nil fun _ hr => (parts.isA_rest hr).elim (isA_false · hgroup) (isA_false · hrequest)

/-- Nothing but requests is left over. -/
theorem ofKind_left_eq_nil {kind : String} (hrequest : "request" ≠ kind) :
    ofKind kind parts.left = [] :=
  ofKind_eq_nil fun _ hl => isA_false (parts.isA_left hl) hrequest

/-- What passes through is persisted, and passes beside all that is merged. -/
theorem mem_passed {r : Resource} : r ∈ parts.passed ↔
    r ∈ existing ∧ passesBeside (idsOf parts.front) r = true := by
  rw [parts.passed_eq]
  exact List.mem_filter

/-- Nothing of a kind that a synthesis makes passes through, but environments. -/
theorem ofKind_passed_eq_nil {kind : String} (hown : kind ∈ ownKinds) (hne : kind ≠ "environment") :
    ofKind kind parts.passed = [] :=
  ofKind_eq_nil fun _ hr => isA_false_of_passesBeside (parts.mem_passed.mp hr).2 hown hne

/-- The resources of one kind are those of each part. -/
theorem ofKind_merged (kind : String) : ofKind kind merged
    = ofKind kind [workspaceAt settings (parts.id [])] ++ ofKind kind [parts.environment]
      ++ ofKind kind parts.rest ++ ofKind kind parts.left ++ ofKind kind parts.passed := by
  have hsplit : merged = [workspaceAt settings (parts.id [])] ++ [parts.environment] ++ parts.rest
    ++ parts.left ++ parts.passed := parts.merged_eq
  rw [← ofKind_append, ← ofKind_append, ← ofKind_append, ← ofKind_append, ← hsplit]

/-- There is one workspace, under its new name. -/
theorem workspaces : ofKind "workspace" merged = [workspaceAt settings (parts.id [])] := by
  rw [parts.ofKind_merged, parts.ofKind_left_eq_nil (by decide),
    parts.ofKind_passed_eq_nil (by decide) (by decide), parts.ofKind_rest_eq_nil (by decide) (by decide),
    ofKind_cons_of_not (isA_false parts.environment_kind (by decide))]
  rfl

/-- The folders are those of the endpoints, under their new names. -/
theorem folders : ofKind "request_group" merged
    = (placesOf settings endpoints).map (folderAt parts.id) := by
  rw [parts.ofKind_merged, parts.ofKind_left_eq_nil (by decide),
    parts.ofKind_passed_eq_nil (by decide) (by decide), folders_of_fromEntry parts.rest_from,
    ofKind_cons_of_not (isA_false parts.environment_kind (by decide)), List.append_nil, List.append_nil]
  rfl

/-- The same before anything is left over. -/
theorem workspaces_refreshed :
    ofKind "workspace" parts.refreshed = [workspaceAt settings (parts.id [])] := by
  rw [refreshed, ofKind_cons_of_isA rfl, ofKind_cons_of_not (isA_false parts.environment_kind (by decide)),
    parts.ofKind_rest_eq_nil (by decide) (by decide)]

/-- The same folders are there before anything is left over. -/
theorem folders_refreshed : ofKind "request_group" parts.refreshed
    = (placesOf settings endpoints).map (folderAt parts.id) := by
  rw [refreshed, ofKind_cons_of_not rfl, ofKind_cons_of_not (isA_false parts.environment_kind (by decide))]
  exact folders_of_fromEntry parts.rest_from

/-- The requests are those of the endpoints, and behind them those that are left over. -/
theorem requests : ofKind "request" merged = ofKind "request" parts.rest ++ parts.left := by
  rw [parts.ofKind_merged, ofKind_eq_self fun _ hl => parts.isA_left hl,
    parts.ofKind_passed_eq_nil (by decide) (by decide), List.append_nil,
    ofKind_cons_of_not (isA_false parts.environment_kind (by decide))]
  rfl

/-- In front of what passes through there is one environment. -/
theorem front_environments : ofKind "environment" parts.front = [parts.environment] := by
  rw [front, refreshed, ofKind_append, parts.ofKind_left_eq_nil (by decide), ofKind_cons_of_not rfl,
    ofKind_cons_of_isA parts.environment_kind, parts.ofKind_rest_eq_nil (by decide) (by decide)]
  rfl

/-- No resource in front has the identifier. -/
def isMissing (r : Resource) : Bool := !(idsOf parts.front).contains (fieldOrNull r "_id")

/-- The environments: the base one, and those persisted ones that are not there yet. -/
theorem environments : ofKind "environment" merged
    = parts.environment :: (ofKind "environment" existing).filter parts.isMissing := by
  have hpassed : ofKind "environment" parts.passed
      = (ofKind "environment" existing).filter parts.isMissing := by
    have hfilter : parts.passed = existing.filter (passesBeside (idsOf parts.front)) := parts.passed_eq
    rw [hfilter, ofKind, ofKind, List.filter_filter, List.filter_filter]
    -- of an environment, to pass through is to be missing
    refine List.filter_congr fun e _ => ?_
    rw [passesBeside]
    cases henv : isA "environment" e with
    | false => rw [Bool.false_and, Bool.and_false]
    | true =>
      rw [any_ownKinds (by decide) henv, Bool.true_and, Bool.and_true]
      rfl
  rw [congrArg (ofKind "environment") parts.eq_front, ofKind_append, parts.front_environments, hpassed]
  rfl

/-- The base environment is found again. -/
theorem baseEnvironment (hself : (parts.id [] == parts.id []) = true) :
    baseEnvironment? merged = some parts.environment := by
  have hbelow : isBelowWorkspace merged parts.environment = true := by
    rw [isBelowWorkspace, parts.workspaces, fieldOrNull_of_get? parts.environment_parent]
    show (parts.id [] == parts.id [] || false) = true
    rw [hself]
    rfl
  rw [baseEnvironment?, parts.environments, List.find?_cons_of_pos hbelow]
  rfl

/-! ## Identifiers

Where the identifier of each part comes from. -/

/-- If there are environments, the base one has the identifier of one of them. -/
theorem hasId_environment (hsome : ofKind "environment" existing ≠ []) {i : Json}
    (hi : Dict.get? parts.environment "_id" = some i) : HasId (ofKind "environment" existing) i := by
  obtain ⟨b, hb⟩ := exists_baseEnvironment? hsome
  have hid := newName_environment parts.names hb
  have henvironment := parts.environment_eq
  rw [refresh_environment] at henvironment
  cases hold : Dict.get? parts.known.environments
      (newName parts.known.names (environmentId settings)) with
  | some old =>
    rw [hold] at henvironment
    rw [get?_mergeEnvironment henvironment (by decide)] at hi
    exact ⟨old, mem_of_known_environment parts.known_eq hold, hi⟩
  | none =>
    -- even if nothing is found under it, its new name is that of the persisted one
    rw [hold] at henvironment
    rw [← Except.ok.inj henvironment] at hi
    exact ⟨b, mem_of_baseEnvironment? hb, hid.trans hi⟩

/-- Where environments have identifiers of their own, the base one is the persisted one under the
    fresh one. -/
theorem environment_merged (hdistinct : DistinctIds (ofKind "environment" existing)) {b : Resource}
    (hb : baseEnvironment? existing = some b) :
    Dict.get? b "_id" = some (newName parts.known.names (environmentId settings)) ∧
    mergeEnvironment (environmentAt settings (newName parts.known.names (environmentId settings))
      (parts.id [])) b = .ok parts.environment := by
  have hid := newName_environment parts.names hb
  have hmem := mem_of_baseEnvironment? hb
  obtain ⟨-, ⟨entries, hentries, hdict⟩, -⟩ := parts_of_knownOf parts.known_eq
  obtain ⟨hkeys, htable⟩ := entries_of_distinctIds hdistinct hentries
  have hfound : Dict.get? parts.known.environments (newName parts.known.names (environmentId settings))
      = some b := by
    rw [hdict, htable, ← fieldOrNull_of_get? hid]
    exact hdistinct.get?_table hkeys hmem
  have henvironment := parts.environment_eq
  rw [refresh_environment, hfound] at henvironment
  exact ⟨hid, henvironment⟩

/-- The base environment has the new name of the fresh one. -/
theorem environment_id (hdistinct : DistinctIds (ofKind "environment" existing)) :
    Dict.get? parts.environment "_id" = some (newName parts.known.names (environmentId settings)) := by
  cases hb : baseEnvironment? existing with
  | some b =>
    obtain ⟨hid, hmerged⟩ := parts.environment_merged hdistinct hb
    exact (get?_mergeEnvironment hmerged (by decide)).trans hid
  | none =>
    have hnone : Dict.get? parts.known.environments
        (newName parts.known.names (environmentId settings)) = none := by
      refine Option.eq_none_iff_forall_ne_some.mpr fun old hold => ?_
      have hmem := mem_of_known_environment parts.known_eq hold
      obtain ⟨b, hsome⟩ := exists_baseEnvironment? (List.ne_nil_of_mem hmem)
      exact absurd (hb.symm.trans hsome) (by simp)
    have henvironment := parts.environment_eq
    rw [refresh_environment, hnone] at henvironment
    rw [← Except.ok.inj henvironment]
    rfl

/-- A place has the identifier of a persisted or of a fresh resource, and of no environment. -/
theorem hasOtherId_place {p : List String} (hp : p ∈ [] :: placesOf settings endpoints) :
    HasOtherId existing (parts.id p) ∨ HasOtherId (resources settings endpoints) (parts.id p) := by
  rcases List.mem_cons.mp hp with rfl | hp
  · cases hw : (ofKind "workspace" existing).head? with
    | some w =>
      have hid : HasId (ofKind "workspace" existing) (parts.id []) :=
        ⟨w, List.mem_of_head? hw, placeId_root parts.names hw⟩
      exact .inl (.of_hasId (by decide) hid)
    | none =>
      have hid : parts.id [] = freshId settings [] := placeId_root_of_none parts.names hw
      exact .inr ⟨_, mem_resources.mpr (.inl rfl), rfl, hid.symm⟩
  · rcases placeId_cases parts.names hp with hid | ⟨hid | hid, -⟩
    · exact .inr ⟨_, mem_resources.mpr (.inr (.inr (.inl ⟨p, hp, rfl⟩))), rfl, hid.symm⟩
    · exact .inl (.of_hasId (by decide) hid)
    · exact .inl (.of_hasId (by decide) hid)

include parts in
/-- **Where identifiers come from.**  A resource that is no environment has the identifier of a
    persisted or of a fresh one that is none. -/
theorem origin {r : Resource} (hr : r ∈ merged) (hkind : isA "environment" r = false) :
    HasOtherId existing (fieldOrNull r "_id") ∨
      HasOtherId (resources settings endpoints) (fieldOrNull r "_id") := by
  rw [parts.eq_front] at hr
  rcases List.mem_append.mp hr with hr | hr
  · rcases parts.front_cases hr with rfl | rfl | ⟨entry, hentry, hfrom⟩ | hleft
    · exact parts.hasOtherId_place (List.mem_cons_self ..)
    · exact absurd (parts.environment_kind.symm.trans hkind) (by decide)
    · cases hfrom with
      | folder path =>
        exact parts.hasOtherId_place (List.mem_cons_of_mem _ (mem_foldersAmong.mpr hentry))
      | @request path e _ stands _ origin =>
        -- matched, it has the persisted identifier; new, that of the fresh export
        rcases origin with ⟨old, hold, hid⟩ | ⟨-, hid⟩
        · exact .inl (.of_request (mem_of_persistedRequest? hold).1 hid)
        · refine .inr ⟨_, mem_resources.mpr (.inr (.inr (.inr ⟨path, e, hentry, rfl⟩))), rfl, ?_⟩
          exact (fieldOrNull_of_get? hid).symm
    · obtain ⟨old, hold, haside⟩ := parts.origin_of_left hleft
      exact .inl (.of_request hold (haside.get?_eq (by decide) (by decide)))
  · exact .inl ⟨r, (parts.mem_passed.mp hr).1, hkind, rfl⟩

end Parts

end RouteAtlas.Insomnia
