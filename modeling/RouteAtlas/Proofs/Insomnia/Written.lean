/-
  Exports as a merge writes them.

  ==== Problem ====

  A second merge works on a document that the first one wrote.  It finds identifiers, environments,
  requests and folders in it, and all it computes from them must come out as it was.

  ==== Spec ====

  `Written` says what such a document looks like, without saying how it came about: a workspace, its
  base environment, folders and requests entry by entry with identifiers of any kind in place of the
  fresh ones, then leftovers, then what passes through.  `mergeResources_written` says that merging
  the fresh export into it gives it again.

  ==== The crux ====

  The identifiers.  `id` gives, for every place, the identifier that is written there.  The second
  merge computes its new names from the paths of folders in both exports; both are the table of
  places (`folderPaths_fresh`, `folderPaths_written`), so the new name of a fresh identifier is again
  `id` of its place (`renamed_place`).  After that each resource is refreshed by itself, and nothing
  has to be known about where the identifiers came from.
-/
import RouteAtlas.Proofs.Collection.Request
import RouteAtlas.Proofs.Insomnia.Place
import RouteAtlas.Proofs.Insomnia.Resource
import RouteAtlas.Proofs.Persisted.Mark

namespace RouteAtlas.Insomnia

open Persisted (Fault lookupKey lookupKey_of_key required bind_eq_ok_iff ok_bind)
open Resource (isA ofKind fieldOrNull)

/-! ## Kinds

Resources are told apart by a text in one of their fields.  A resource has at most one kind, so
lists of one kind can be read off part by part. -/

/-- A resource is of a kind if its type says so. -/
theorem isA_iff {kind : String} {r : Resource} :
    isA kind r = true ↔ Dict.get? r "_type" = some (.str kind) := by
  rw [isA]
  constructor
  · intro h
    split at h
    · rename_i k hk
      rw [hk, eq_of_beq h]
    · exact absurd h (by decide)
  · intro h
    rw [h]
    exact beq_self_eq_true kind

/-- A resource is of one kind only. -/
theorem isA_false {kind kind' : String} {r : Resource} (h : isA kind r = true) (hne : kind ≠ kind') :
    isA kind' r = false := by
  rw [Bool.eq_false_iff]
  intro h'
  have heq := (isA_iff.mp h).symm.trans (isA_iff.mp h')
  exact hne (Json.str.inj (Option.some.inj heq))

/-- The resources of one kind in two lists are those in either. -/
theorem ofKind_append (kind : String) (rs ss : List Resource) :
    ofKind kind (rs ++ ss) = ofKind kind rs ++ ofKind kind ss := List.filter_append ..

/-- A resource of the kind is listed. -/
theorem ofKind_cons_of_isA {kind : String} {r : Resource} (h : isA kind r = true)
    (rs : List Resource) : ofKind kind (r :: rs) = r :: ofKind kind rs :=
  List.filter_cons_of_pos h

/-- A resource of another kind is not. -/
theorem ofKind_cons_of_not {kind : String} {r : Resource} (h : isA kind r = false)
    (rs : List Resource) : ofKind kind (r :: rs) = ofKind kind rs :=
  List.filter_cons_of_neg (by rw [h]; exact Bool.false_ne_true)

/-- Where no resource is of the kind, none is listed. -/
theorem ofKind_eq_nil {kind : String} {rs : List Resource} (h : ∀ r ∈ rs, isA kind r = false) :
    ofKind kind rs = [] := by
  refine List.filter_eq_nil_iff.mpr fun r hr => ?_
  rw [h r hr]
  exact Bool.false_ne_true

theorem ofKind_eq_self {kind : String} {rs : List Resource} (h : ∀ r ∈ rs, isA kind r = true) :
    ofKind kind rs = rs := List.filter_eq_self.mpr h

/-! ## Fresh resources

The resources of a synthesis with their identifiers as arguments, so that a merged resource is the
same one with another identifier. -/

section

variable (settings : Settings) (endpoints : List Endpoint)

/-- The name of the workspace. -/
abbrev workspaceOf : String := settings.insomnia.workspaceName

/-- The fresh identifier of a place. -/
def freshId (path : List String) : Json := .str (parentIn (workspaceOf settings) path)

/-- The fresh identifier of the base environment. -/
def environmentId : Json := .str (stableId "env" [workspaceOf settings])

/-- A workspace with an identifier. -/
def workspaceAt (id : Json) : Resource :=
  [("_id", id), ("_type", .str "workspace"), ("name", .str (workspaceOf settings))]

/-- The base environment with an identifier, below a workspace. -/
def environmentAt (id parent : Json) : Resource :=
  [("_id", id), ("_type", .str "environment"), ("parentId", parent),
    ("name", .str "Base Environment"), ("data", .obj (environmentData settings))]

/-- The folders of a project. -/
abbrev placesOf : List (List String) := foldersAmong (allEntries settings endpoints)

/-- A fresh export is the workspace, the environment, and the entries one by one. -/
theorem resources_eq : resources settings endpoints
    = workspaceAt settings (freshId settings []) ::
      environmentAt settings (environmentId settings) (freshId settings []) ::
      (allEntries settings endpoints).map (Entry.fresh settings.serviceNames (workspaceOf settings)) := by
  rw [resources, listed_eq]
  rfl

end

/-- The key of an endpoint's request. -/
def requestKey (apps : List String) (e : Endpoint) : String :=
  Persisted.keyOf e.method.word (reference (Folder.baseVariable e apps) ++ Route.coloned e.path)

/-- An endpoint's request with an identifier, below a parent. -/
def requestAt (apps : List String) (workspace : String) (path : List String) (e : Endpoint)
    (id parent : Json) : Resource :=
  Dict.put (Dict.put (requestOf apps (parentIn workspace path) e) "_id" id) "parentId" parent

/-- The folder of a synthesis is the folder at its path under the fresh identifiers. -/
theorem folderOf_eq {settings : Settings} {path : List String} (h : path ≠ []) :
    folderOf (workspaceOf settings) (parentIn (workspaceOf settings) path.dropLast) path
      = folderAt (freshId settings) path := by
  have hid : parentIn (workspaceOf settings) path = folderId (workspaceOf settings) path := by
    rw [parentIn, if_neg]
    rw [List.isEmpty_iff]
    exact h
  rw [folderAt, freshId, freshId, hid]
  rfl

section

variable (apps : List String) (workspace : String) (path : List String) (e : Endpoint)

/-- A URL that starts with a reference is not empty. -/
theorem reference_append_ne_empty (name text : String) : reference name ++ text ≠ "" := by
  intro h
  have hchars := congrArg String.toList h
  rw [String.toList_append, reference, String.toList_append, String.toList_append] at hchars
  simp at hchars

theorem isA_requestOf (parent : String) : isA "request" (requestOf apps parent e) = true := rfl

/-- The request of an endpoint has the endpoint's key, wherever it is put. -/
theorem key?_requestOf (parent : String) :
    key? (requestOf apps parent e) = .ok (some (requestKey apps e)) :=
  key?_eq_some_iff.mpr ⟨_, _, rfl, e.method.word_ne_empty, rfl, rfl⟩

/-- Only its identifier changes with the identifier. -/
theorem get?_requestAt {name : String} (h : name ≠ "_id") (id id' parent : Json) :
    Dict.get? (requestAt apps workspace path e id parent) name
      = Dict.get? (requestAt apps workspace path e id' parent) name := by
  have hput : ∀ i, Dict.get? (requestAt apps workspace path e i parent) name
      = if name == "parentId" then some parent
        else Dict.get? (requestOf apps (parentIn workspace path) e) name := by
    intro i
    rw [requestAt, Dict.get?_put, Dict.get?_put_of_ne h]
  rw [hput, hput]

theorem key?_requestAt (id parent : Json) :
    key? (requestAt apps workspace path e id parent) = .ok (some (requestKey apps e)) :=
  key?_eq_some_iff.mpr ⟨_, _, rfl, e.method.word_ne_empty, rfl, rfl⟩

theorem headers_requestAt (id parent : Json) :
    Dict.get? (requestAt apps workspace path e id parent) "headers" = some (.arr (headersOf e)) := rfl

/-- Its headers have names of their own. -/
theorem distinctlyNamed_headersOf : Persisted.DistinctlyNamed "name" (headersOf e) := by
  have hne : Text.lower "Content-Type" ≠ Text.lower "Authorization" := by decide
  exact Persisted.distinctlyNamed_pair rfl rfl hne _ _

/-- The requests of endpoints have all their parts. -/
theorem completeRequest_requestAt (id parent : Json)
    (hbody : Persisted.isBodyless (.str e.method.word) = true → e.parameters.body = none) :
    CompleteRequest (requestAt apps workspace path e id parent) := by
  refine ⟨⟨_, rfl⟩, ⟨.str e.method.word, rfl, fun hless => ?_⟩, ⟨_, rfl⟩, ⟨_, rfl⟩,
    _, rfl, distinctlyNamed_headersOf e⟩
  show some (bodyOf e) = _
  rw [bodyOf, hbody hless]

end

/-! ## What a merge writes

The parts of a written export.  Entry by entry it `Holds` what a second merge would write; leftovers
are marked and placed; and what passes does not meet anything that was merged. -/

/-- A resource is what a merge writes for an entry. -/
def Holds (apps : List String) (workspace : String) (id : List String → Json) :
    Entry → Resource → Prop
  | .folder path, r => r = folderAt id path
  | .request path e, r => isA "request" r = true ∧ key? r = .ok (some (requestKey apps e)) ∧
      ∀ i, mergeRequest (requestAt apps workspace path e i (id path)) r = .ok r

/-- The requests that have a key, each under it. -/
def keyed (rs : List Resource) : Dict Resource :=
  rs.filterMap fun r => (Persisted.given key? r).map (·, r)

/-- A request whose endpoint is gone, as a merge writes it. -/
structure IsLeftover (id : List String → Json) (places : List (List String)) (l : Resource) : Prop where
  kind : isA "request" l = true
  key : ∃ key, key? l = .ok (some key)
  name : ∃ name, Dict.get? l "name" = some name ∧ Persisted.deprecated (some name) = .ok name
  parent : ∃ path ∈ [] :: places, Dict.get? l "parentId" = some (id path)

/-- A resource that passes through beside others with the identifiers `kept`. -/
structure Passes (kept : List Json) (r : Resource) : Prop where
  type : (fieldOrNull r "_type").kind.isKey = true
  kind : (∀ kind ∈ ownKinds, isA kind r = false) ∨ isA "environment" r = true ∧
    (fieldOrNull r "_id").kind.isKey = true ∧ (fieldOrNull r "parentId").kind.isKey = true ∧
    kept.contains (fieldOrNull r "_id") = false

/-- The identifiers of resources. -/
def idsOf (rs : List Resource) : List Json := rs.map (fieldOrNull · "_id")

/-- The parts of an export as a merge writes it: the base environment, what stands for the entries,
    requests whose endpoint is gone, and what passes through. -/
structure Written (settings : Settings) (endpoints : List Endpoint) (id : List String → Json)
    (environment : Resource) (rest leftovers passing : List Resource) : Prop where
  identified : Identified id (placesOf settings endpoints)
  fresh_ids : ∀ p ∈ [] :: placesOf settings endpoints, ∀ q ∈ [] :: placesOf settings endpoints,
    freshId settings p = freshId settings q → p = q
  environment_kind : isA "environment" environment = true
  environment_id : ∃ i, Dict.get? environment "_id" = some i ∧ (i == i) = true
  environment_parent : Dict.get? environment "parentId" = some (id [])
  environment_settled : ∀ i,
    mergeEnvironment (environmentAt settings i (id [])) environment = .ok environment
  holds : List.Forall₂ (Holds settings.serviceNames (workspaceOf settings) id)
    (allEntries settings endpoints) rest
  left : ∀ l ∈ leftovers, IsLeftover id (placesOf settings endpoints) l
  distinct : (Dict.keys (keyed leftovers)).Nodup
  gone : ∀ key ∈ Dict.keys (keyed leftovers), key ∉ endpoints.map (requestKey settings.serviceNames)
  ids : ∀ r ∈ workspaceAt settings (id []) :: environment :: rest ++ leftovers,
    (fieldOrNull r "_id").kind.isKey = true
  passes : ∀ r ∈ passing,
    Passes (idsOf (workspaceAt settings (id []) :: environment :: rest ++ leftovers)) r

section

variable {settings : Settings} {endpoints : List Endpoint} {id : List String → Json}
  {environment : Resource} {rest leftovers passing : List Resource}

/-! ## Kinds of what is written

Read off the parts: which resources of a written export are folders, requests, environments. -/

/-- What stands for an entry is a folder or a request. -/
theorem isA_of_holds {apps : List String} {workspace : String} {entry : Entry} {r : Resource}
    (h : Holds apps workspace id entry r) :
    isA "request_group" r = true ∨ isA "request" r = true := by
  cases entry with
  | folder path =>
    obtain rfl : r = folderAt id path := h
    exact .inl rfl
  | request path e => exact .inr h.1

/-- The folders among what stands for entries are the entries' folders. -/
theorem folders_of_holds {apps : List String} {workspace : String} {es : List Entry}
    {rs : List Resource} (h : List.Forall₂ (Holds apps workspace id) es rs) :
    ofKind "request_group" rs = (foldersAmong es).map (folderAt id) := by
  induction h with
  | nil => rfl
  | @cons entry r es rs hr _ ih =>
    cases entry with
    | folder path =>
      obtain rfl : r = folderAt id path := hr
      rw [ofKind_cons_of_isA rfl, ih]
      rfl
    | request path e =>
      rw [ofKind_cons_of_not (isA_false hr.1 (by decide)), ih]
      rfl

/-- The keys of what stands for entries are those of their endpoints. -/
theorem keyed_of_holds {apps : List String} {workspace : String} {es : List Entry}
    {rs : List Resource} (h : List.Forall₂ (Holds apps workspace id) es rs) :
    Dict.keys (keyed (ofKind "request" rs)) = (es.filterMap Entry.endpoint?).map (requestKey apps) := by
  induction h with
  | nil => rfl
  | @cons entry r es rs hr _ ih =>
    cases entry with
    | folder path =>
      obtain rfl : r = folderAt id path := hr
      rw [ofKind_cons_of_not rfl, ih]
      rfl
    | request path e =>
      have hkey := Persisted.given_eq_some_iff.mpr hr.2.1
      rw [ofKind_cons_of_isA hr.1, keyed, List.filterMap_cons, hkey]
      show requestKey apps e :: Dict.keys (keyed (ofKind "request" rs)) = _
      rw [ih]
      rfl

/-- Nothing else stands for an entry. -/
theorem ofKind_rest_eq_nil {apps : List String} {workspace : String} {es : List Entry}
    {rs : List Resource} (h : List.Forall₂ (Holds apps workspace id) es rs) {kind : String}
    (hgroup : "request_group" ≠ kind) (hrequest : "request" ≠ kind) : ofKind kind rs = [] := by
  refine ofKind_eq_nil fun r hr => ?_
  obtain ⟨entry, -, hholds⟩ := Persisted.exists_of_forall₂_right h hr
  rcases isA_of_holds hholds with hk | hk
  · exact isA_false hk hgroup
  · exact isA_false hk hrequest

/-- What passes is of no kind that a synthesis makes, but for environments. -/
theorem isA_of_passes {kept : List Json} {r : Resource} (h : Passes kept r) {kind : String}
    (hown : kind ∈ ownKinds) (hne : "environment" ≠ kind) : isA kind r = false := by
  rcases h.kind with hnone | ⟨henv, -⟩
  · exact hnone kind hown
  · exact isA_false henv hne

section

variable (h : Written settings endpoints id environment rest leftovers passing)
include h

/-- Of a kind other than environments, only the merged part and the leftovers are there. -/
theorem ofKind_written {kind : String} (hown : kind ∈ ownKinds) (hne : "environment" ≠ kind) :
    ofKind kind (workspaceAt settings (id []) :: environment :: rest ++ leftovers ++ passing)
      = ofKind kind [workspaceAt settings (id [])] ++ ofKind kind rest ++ ofKind kind leftovers := by
  have hpassing : ofKind kind passing = [] :=
    ofKind_eq_nil fun r hr => isA_of_passes (h.passes r hr) hown hne
  have hsplit : workspaceAt settings (id []) :: environment :: rest
      = [workspaceAt settings (id [])] ++ environment :: rest := rfl
  rw [ofKind_append, hpassing, List.append_nil, hsplit, ofKind_append, ofKind_append,
    ofKind_cons_of_not (isA_false h.environment_kind hne)]

/-- Leftovers are requests. -/
theorem ofKind_leftovers {kind : String} (hne : "request" ≠ kind) : ofKind kind leftovers = [] :=
  ofKind_eq_nil fun l hl => isA_false (h.left l hl).kind hne

/-- The folders of a written export are those of the endpoints. -/
theorem folders_written :
    ofKind "request_group"
        (workspaceAt settings (id []) :: environment :: rest ++ leftovers ++ passing)
      = (placesOf settings endpoints).map (folderAt id) := by
  rw [ofKind_written h (by decide) (by decide), ofKind_leftovers h (by decide), List.append_nil,
    folders_of_holds h.holds]
  rfl

/-- A written export has one workspace. -/
theorem workspaces_written :
    ofKind "workspace" (workspaceAt settings (id []) :: environment :: rest ++ leftovers ++ passing)
      = [workspaceAt settings (id [])] := by
  rw [ofKind_written h (by decide) (by decide), ofKind_leftovers h (by decide), List.append_nil,
    ofKind_rest_eq_nil h.holds (by decide) (by decide), List.append_nil]
  rfl

/-- The requests of a written export are those of the endpoints and the leftovers. -/
theorem requests_written :
    ofKind "request" (workspaceAt settings (id []) :: environment :: rest ++ leftovers ++ passing)
      = ofKind "request" rest ++ leftovers := by
  rw [ofKind_written h (by decide) (by decide), ofKind_eq_self fun l hl => (h.left l hl).kind]
  rfl

/-- The environments of a written export are the base one and those that pass. -/
theorem environments_written :
    ofKind "environment"
        (workspaceAt settings (id []) :: environment :: rest ++ leftovers ++ passing)
      = environment :: ofKind "environment" passing := by
  have hfront : workspaceAt settings (id []) :: environment :: rest ++ leftovers ++ passing
      = workspaceAt settings (id []) :: environment :: (rest ++ leftovers ++ passing) := by
    rw [List.cons_append, List.cons_append, List.cons_append, List.cons_append]
  rw [hfront, ofKind_cons_of_not rfl, ofKind_cons_of_isA h.environment_kind, ofKind_append,
    ofKind_append, ofKind_rest_eq_nil h.holds (by decide) (by decide),
    ofKind_leftovers h (by decide)]
  rfl

/-- The same export without leftovers and without what passes through. -/
theorem Written.merged : Written settings endpoints id environment rest [] [] :=
  ⟨h.identified, h.fresh_ids, h.environment_kind, h.environment_id, h.environment_parent,
    h.environment_settled, h.holds, fun _ hl => absurd hl (List.not_mem_nil), List.nodup_nil,
    fun _ hk => absurd hk (List.not_mem_nil), fun r hr => h.ids r (by
      rw [List.append_nil] at hr
      exact List.mem_append_left _ hr), fun _ hr => absurd hr (List.not_mem_nil)⟩

/-! ## Where the folders are

The paths of the folders, as the merge computes them, are the places that they were written for, in
a written export as in a fresh one. -/

/-- The folders of a written export have the paths of their places. -/
theorem folderPaths_written :
    folderPaths (workspaceAt settings (id []) :: environment :: rest ++ leftovers ++ passing)
      = .ok (([] :: placesOf settings endpoints).map fun p => (id p, p.map .str)) :=
  folderPaths_eq h.identified (rooted_allEntries settings endpoints) (folders_written h)
    (workspaces_written h) rfl

end

/-- Fresh identifiers that differ are told apart. -/
theorem identified_fresh {settings : Settings} {endpoints : List Endpoint}
    (h : ∀ p ∈ [] :: placesOf settings endpoints, ∀ q ∈ [] :: placesOf settings endpoints,
      freshId settings p = freshId settings q → p = q) :
    Identified (freshId settings) (placesOf settings endpoints) := by
  refine ⟨fun p hp q hq => ?_, fun _ _ => rfl⟩
  rw [freshId, freshId, Json.str_beq_iff]
  exact ⟨fun heq => h p hp q hq heq.symm, fun heq => heq ▸ rfl⟩

/-- The folders of a fresh export are those of the endpoints.  Neither the workspace nor its
    environment nor a request is a folder. -/
theorem folders_fresh (settings : Settings) (endpoints : List Endpoint) :
    ofKind "request_group" (resources settings endpoints)
      = (placesOf settings endpoints).map (folderAt (freshId settings)) := by
  have hall : ∀ es : List Entry, (∀ p ∈ foldersAmong es, p ≠ []) →
      ofKind "request_group" (es.map (Entry.fresh settings.serviceNames (workspaceOf settings)))
        = (foldersAmong es).map (folderAt (freshId settings)) := by
    intro es
    induction es with
    | nil => exact fun _ => rfl
    | cons entry es ih =>
      intro hne
      cases entry with
      | folder path =>
        rw [List.map_cons, ofKind_cons_of_isA rfl, ih fun p hp => hne p (List.mem_cons_of_mem _ hp),
          Entry.fresh, folderOf_eq (hne path (List.mem_cons_self ..))]
        rfl
      | request path e =>
        rw [List.map_cons, ofKind_cons_of_not rfl, ih hne]
        rfl
  rw [resources_eq, ofKind_cons_of_not rfl, ofKind_cons_of_not rfl]
  exact hall _ fun p hp => ne_root_of_folder_mem (mem_foldersAmong.mp hp)

/-- Of other kinds, a fresh export has only the workspace and the environment. -/
theorem frame_fresh {kind : String} (hgroup : "request_group" ≠ kind) (hrequest : "request" ≠ kind)
    (settings : Settings) (endpoints : List Endpoint) :
    ofKind kind (resources settings endpoints)
      = ofKind kind [workspaceAt settings (freshId settings []),
          environmentAt settings (environmentId settings) (freshId settings [])] := by
  have hrest : ofKind kind ((allEntries settings endpoints).map
      (Entry.fresh settings.serviceNames (workspaceOf settings))) = [] := by
    refine ofKind_eq_nil fun r hr => ?_
    obtain ⟨entry, -, rfl⟩ := List.mem_map.mp hr
    cases entry with
    | folder path => exact isA_false (show isA "request_group" _ = true from rfl) hgroup
    | request path e => exact isA_false (isA_requestOf ..) hrequest
  have hsplit : ∀ (a b : Resource) (rs : List Resource), a :: b :: rs = [a, b] ++ rs :=
    fun _ _ _ => rfl
  rw [resources_eq, hsplit, ofKind_append, hrest, List.append_nil]

/-- The folders of a fresh export have the paths of their places. -/
theorem folderPaths_fresh (h : Identified (freshId settings) (placesOf settings endpoints)) :
    folderPaths (resources settings endpoints)
      = .ok (([] :: placesOf settings endpoints).map fun p => (freshId settings p, p.map .str)) :=
  folderPaths_eq h (rooted_allEntries settings endpoints) (folders_fresh settings endpoints)
    (frame_fresh (by decide) (by decide) settings endpoints) rfl

/-! ## New names

The second merge asks which fresh identifier becomes which.  The answer is a table with one entry
for the workspace, one for the environment and one for every folder. -/

/-- What has a fresh identifier that may be renamed: a place, or the base environment. -/
def nameKey (settings : Settings) : Option (List String) → Json
  | some path => freshId settings path
  | none => environmentId settings

/-- What such an identifier becomes. -/
def nameTarget (id : List String → Json) (environmentTarget : Json) : Option (List String) → Json
  | some path => id path
  | none => environmentTarget

/-- Identifiers of two kinds differ when their first letters do. -/
theorem stableId_ne {kind kind' : String} {a b : Char} {cs ds : List Char}
    (hkind : kind.toList = a :: cs) (hkind' : kind'.toList = b :: ds) (hne : a ≠ b)
    (parts parts' : List String) : stableId kind parts ≠ stableId kind' parts' := by
  intro heq
  have hchars := congrArg String.toList heq
  rw [stableId, stableId, String.toList_append, String.toList_append, String.toList_append,
    String.toList_append, hkind, hkind'] at hchars
  exact hne (List.cons.inj hchars).1

/-- A place has an identifier of the workspace's kind or of the folders' kind, so it has none of a
    kind that starts otherwise. -/
theorem stableId_ne_freshId {kind : String} {a : Char} {cs : List Char} (hkind : kind.toList = a :: cs)
    (hw : a ≠ 'w') (hf : a ≠ 'f') (settings : Settings) (parts path : List String) :
    Json.str (stableId kind parts) ≠ freshId settings path := by
  intro heq
  have htext : stableId kind parts = parentIn (workspaceOf settings) path := Json.str.inj heq
  rw [parentIn] at htext
  split at htext
  · have hwrk : "wrk".toList = 'w' :: ['r', 'k'] := rfl
    exact stableId_ne hkind hwrk hw _ _ htext
  · have hfld : "fld".toList = 'f' :: ['l', 'd'] := rfl
    exact stableId_ne hkind hfld hf _ _ htext

/-- The environment has another identifier than the workspace and the folders. -/
theorem environmentId_ne (settings : Settings) (path : List String) :
    environmentId settings ≠ freshId settings path := by
  have henv : "env".toList = 'e' :: ['n', 'v'] := rfl
  exact stableId_ne_freshId henv (by decide) (by decide) settings [workspaceOf settings] path

/-- The folders that both exports have are all folders.  Both exports have the same places, so each
    path that is looked up is found but that of the workspace. -/
theorem newFolders_eq (settings : Settings) (endpoints : List Endpoint)
    (id : List String → Json) : ((([] :: placesOf settings endpoints).map fun p =>
      (freshId settings p, p.map Json.str)).filterMapM fun e => do
        return (Dict.get? ((placesOf settings endpoints).map fun p => (p.map Json.str, id p))
          (← lookupPath e.2)).map (e.1, ·))
    = (.ok ((placesOf settings endpoints).map fun p => (freshId settings p, id p)) :
        Except Fault (List (Json × Json))) := by
  have hrooted := rooted_allEntries settings endpoints
  have htells := tells_texts ([] :: placesOf settings endpoints)
  have hsub : ∀ p ∈ placesOf settings endpoints, p ∈ [] :: placesOf settings endpoints :=
    fun p hp => List.mem_cons_of_mem _ hp
  rw [Persisted.filterMapM_eq_ok_of_forall (g := fun e =>
    (Dict.get? ((placesOf settings endpoints).map fun p => (p.map Json.str, id p)) e.2).map (e.1, ·))
    fun e he => by
      obtain ⟨p, -, rfl⟩ := List.mem_map.mp he
      rw [lookupPath_texts]
      rfl]
  have hnone := Dict.get?_index_of_not_mem htells id hsub (List.mem_cons_self ..) hrooted.not_root
  have hroot : (Dict.get? ((placesOf settings endpoints).map fun p => (p.map Json.str, id p))
      (([] : List String).map Json.str)).map (freshId settings [], ·) = none := by
    rw [hnone]
    rfl
  have hsome : ∀ p ∈ placesOf settings endpoints,
      ((Dict.get? ((placesOf settings endpoints).map fun p => (p.map Json.str, id p))
        (p.map Json.str)).map (freshId settings p, ·)) = some (freshId settings p, id p) := by
    intro p hp
    rw [Dict.get?_index htells id hsub hp]
    rfl
  -- the workspace has no entry among the folders, every folder has one
  have hcomp : (([] :: placesOf settings endpoints).map fun p =>
      (freshId settings p, p.map Json.str)).filterMap (fun e =>
        (Dict.get? ((placesOf settings endpoints).map fun p => (p.map Json.str, id p)) e.2).map (e.1, ·))
      = ([] :: placesOf settings endpoints).filterMap fun p =>
        (Dict.get? ((placesOf settings endpoints).map fun p => (p.map Json.str, id p))
          (p.map Json.str)).map (freshId settings p, ·) := List.filterMap_map ..
  have hall : ∀ g : List String → Option (Json × Json), g [] = none →
      (∀ p ∈ placesOf settings endpoints, g p = some (freshId settings p, id p)) →
      ([] :: placesOf settings endpoints).filterMap g
        = (placesOf settings endpoints).map fun p => (freshId settings p, id p) := by
    intro g hroot hplaces
    rw [List.filterMap_cons_none hroot, List.filterMap_congr hplaces]
    exact congrFun List.filterMap_eq_map' _
  rw [hcomp]
  exact congrArg Except.ok (hall _ hroot hsome)

section

variable (h : Written settings endpoints id environment rest leftovers passing)
include h

/-- All that may be renamed.  They are the workspace, its environment and the folders, and their
    fresh identifiers tell them apart. -/
theorem tells_nameKey : Dict.Tells (nameKey settings)
    (some [] :: none :: (placesOf settings endpoints).map some) := by
  have hplace : ∀ p, some p ∈ some [] :: none :: (placesOf settings endpoints).map some →
      p ∈ [] :: placesOf settings endpoints := by
    intro p hp
    rcases List.mem_cons.mp hp with heq | hp
    · obtain rfl := Option.some.inj heq
      exact List.mem_cons_self ..
    · rcases List.mem_cons.mp hp with heq | hp
      · exact absurd heq (by simp)
      · obtain ⟨q, hq, heq⟩ := List.mem_map.mp hp
        obtain rfl := Option.some.inj heq
        exact List.mem_cons_of_mem _ hq
  -- the environment has no place, so the cases are whether either of the two is the environment
  intro o ho o' ho'
  cases o with
  | none =>
    cases o' with
    | none => exact ⟨fun _ => rfl, fun _ => Json.str_beq_iff.mpr rfl⟩
    | some q =>
      refine ⟨fun heq => ?_, fun heq => absurd heq (by simp)⟩
      exact absurd (Json.str_beq_iff.mp heq).symm (environmentId_ne settings q)
  | some p =>
    cases o' with
    | none =>
      refine ⟨fun heq => ?_, fun heq => absurd heq (by simp)⟩
      exact absurd (Json.str_beq_iff.mp heq) (environmentId_ne settings p)
    | some q =>
      rw [Option.some.injEq]
      exact (identified_fresh h.fresh_ids).tells p (hplace p ho) q (hplace q ho')

/-- The written environment is the first of those below the workspace.  Another environment may
    stand below the workspace as well, but it was passed through and is listed behind. -/
theorem baseEnvironments_written : ∃ others, baseEnvironments
    (workspaceAt settings (id []) :: environment :: rest ++ leftovers ++ passing)
      = .ok (environment :: others) := by
  have hroot : (id []).kind.isKey = true := h.identified.key [] (List.mem_cons_self ..)
  have hself : (id [] == id []) = true :=
    (h.identified.tells [] (List.mem_cons_self ..) [] (List.mem_cons_self ..)).mpr rfl
  have hparent : fieldOrNull environment "parentId" = id [] :=
    fieldOrNull_of_get? h.environment_parent
  have hworkspaces : ([workspaceAt settings (id [])].take 1).mapM
      (fun w => lookupKey (fieldOrNull w "_id")) = .ok [id []] := by
    show (lookupKey (id []) >>= _) = _
    rw [lookupKey_of_key hroot]
    rfl
  -- every environment has a parent that can be looked up by
  have hbelow := Persisted.filterM_eq_ok_of_forall
    (f := fun e => do return [id []].contains (← lookupKey (fieldOrNull e "parentId")))
    (p := fun e => [id []].contains (fieldOrNull e "parentId"))
    (l := environment :: ofKind "environment" passing) fun e he => by
      have hkey : (fieldOrNull e "parentId").kind.isKey = true := by
        rcases List.mem_cons.mp he with rfl | he
        · rw [hparent]
          exact hroot
        · obtain ⟨hmem, henv⟩ := List.mem_filter.mp he
          rcases (h.passes e hmem).kind with hnone | ⟨-, -, hkey, -⟩
          · exact absurd (hnone "environment" (by decide)) (by rw [henv]; decide)
          · exact hkey
      rw [lookupKey_of_key hkey]
      rfl
  have hfirst : [id []].contains (fieldOrNull environment "parentId") = true := by
    rw [hparent, List.contains_cons, hself, Bool.true_or]
  rw [List.filter_cons, if_pos hfirst] at hbelow
  refine ⟨(ofKind "environment" passing).filter fun e =>
    [id []].contains (fieldOrNull e "parentId"), ?_⟩
  rw [baseEnvironments, workspaces_written h, environments_written h]
  exact bind_eq_ok_iff.mpr ⟨_, hworkspaces, bind_eq_ok_iff.mpr ⟨_, hbelow, rfl⟩⟩

/-- **The new names**: every fresh identifier becomes the one that is written for its place.  The
    steps of the program are gone through one by one; each of its tables was computed above. -/
theorem newNames_written {i : Json} (hi : Dict.get? environment "_id" = some i) :
    newNames (resources settings endpoints)
      (workspaceAt settings (id []) :: environment :: rest ++ leftovers ++ passing)
      = .ok ((some [] :: none :: (placesOf settings endpoints).map some).map fun o =>
          (nameKey settings o, nameTarget id i o)) := by
  have hrooted := rooted_allEntries settings endpoints
  obtain ⟨others, hbase⟩ := baseEnvironments_written h
  have hfilter : ((([] :: placesOf settings endpoints).map fun p => (id p, p.map Json.str)).filter
      fun e => !e.2.isEmpty) = (placesOf settings endpoints).map fun p => (id p, p.map Json.str) := by
    rw [List.map_cons, List.filter_cons_of_neg (by simp)]
    refine List.filter_eq_self.mpr fun e he => ?_
    obtain ⟨p, hp, rfl⟩ := List.mem_map.mp he
    cases p with
    | nil => exact absurd hp hrooted.not_root
    | cons a p => rfl
  have hworkspace : standIn [workspaceAt settings (freshId settings [])]
      [workspaceAt settings (id [])] = .ok [(freshId settings [], id [])] := rfl
  have henvironment : standIn
      [environmentAt settings (environmentId settings) (freshId settings [])] (environment :: others)
      = .ok [(environmentId settings, i)] := by
    rw [standIn, required, hi]
    rfl
  rw [newNames, workspaces_written h, frame_fresh (by decide) (by decide),
    frame_fresh (by decide) (by decide)]
  -- the program, step by step
  refine bind_eq_ok_iff.mpr ⟨_, hworkspace, bind_eq_ok_iff.mpr ⟨_, hbase, ?_⟩⟩
  refine bind_eq_ok_iff.mpr ⟨_, henvironment, bind_eq_ok_iff.mpr ⟨_, folderPaths_written h, ?_⟩⟩
  rw [hfilter]
  refine bind_eq_ok_iff.mpr ⟨_, foldersByPath_eq id hrooted.nodup, ?_⟩
  refine bind_eq_ok_iff.mpr ⟨_, folderPaths_fresh (identified_fresh h.fresh_ids), ?_⟩
  refine bind_eq_ok_iff.mpr ⟨_, newFolders_eq settings endpoints id, ?_⟩
  have hnodup : (some [] :: none :: (placesOf settings endpoints).map some).Nodup := by
    refine List.nodup_cons.mpr ⟨?_, List.nodup_cons.mpr ⟨by simp, hrooted.nodup.map ?_⟩⟩
    · rw [List.mem_cons, List.mem_map]
      rintro (heq | ⟨p, hp, heq⟩)
      · exact absurd heq (by simp)
      · obtain rfl := Option.some.inj heq
        exact hrooted.not_root hp
    · exact Option.some_injective _
  have hall := Dict.ofList_index (tells_nameKey h) (nameTarget id i) (fun _ ho => ho) hnodup
  rw [List.map_cons, List.map_cons, List.map_map] at hall ⊢
  exact congrArg Except.ok hall

end

end

/-! ## Refreshing one resource

By its kind: the workspace and folders are renamed, an environment and a request are merged with
what is known under their new name and under their key. -/

/-- The new name of an identifier. -/
def newName (names : List (Json × Json)) (id : Json) : Json := (Dict.get? names id).getD id

/-- The identifiers of places under their new names. -/
def placeId (names : List (Json × Json)) (settings : Settings) (path : List String) : Json :=
  newName names (freshId settings path)

section

variable (known : Known) (settings : Settings)

/-- A refreshed workspace has its new name. -/
theorem refresh_workspace :
    refresh known (.obj (workspaceAt settings (freshId settings [])))
      = .ok (workspaceAt settings (placeId known.names settings [])) := rfl

/-- A refreshed folder has its new name, and that of its parent. -/
theorem refresh_folder {path : List String} (h : path ≠ []) (apps : List String) :
    refresh known (.obj (Entry.fresh apps (workspaceOf settings) (.folder path)))
      = .ok (folderAt (placeId known.names settings) path) := by
  rw [Entry.fresh, folderOf_eq h]
  rfl

/-- A fresh environment is merged with the one that is known under its new name, if there is
    one.  The kinds are tried in the order of the program, and the environment is no request. -/
theorem refresh_environment :
    refresh known (.obj (environmentAt settings (environmentId settings) (freshId settings [])))
      = match Dict.get? known.environments (newName known.names (environmentId settings)) with
        | some old => mergeEnvironment (environmentAt settings
            (newName known.names (environmentId settings)) (placeId known.names settings [])) old
        | none => .ok (environmentAt settings (newName known.names (environmentId settings))
            (placeId known.names settings [])) := by
  have hrename : rename known.names
      (environmentAt settings (environmentId settings) (freshId settings []))
      = .ok (environmentAt settings (newName known.names (environmentId settings))
          (placeId known.names settings [])) := rfl
  have hfields : Persisted.fieldsOf
      (.obj (environmentAt settings (environmentId settings) (freshId settings [])))
      = .ok (environmentAt settings (environmentId settings) (freshId settings [])) := rfl
  have henvironment : ∀ i parent, isA "environment" (environmentAt settings i parent) = true :=
    fun _ _ => rfl
  rw [refresh, hfields, ok_bind, hrename, ok_bind,
    if_neg (by rw [isA_false (henvironment _ _) (by decide)]; exact Bool.false_ne_true),
    if_pos (henvironment _ _)]
  rfl

/-- The identifier that a fresh request gets. -/
def requestId (e : Endpoint) : Json := newName known.names (.str (stableId "req" [e.key]))

/-- A fresh request is merged with the one that is known under its key, if there is one. -/
theorem refresh_request (apps : List String) (path : List String) (e : Endpoint) :
    refresh known (.obj (Entry.fresh apps (workspaceOf settings) (.request path e)))
      = match Dict.get? known.requests (requestKey apps e) with
        | some old => mergeRequest (requestAt apps (workspaceOf settings) path e
            (requestId known e) (placeId known.names settings path)) old
        | none => .ok (requestAt apps (workspaceOf settings) path e
            (requestId known e) (placeId known.names settings path)) := by
  have hrename : rename known.names (Entry.fresh apps (workspaceOf settings) (.request path e))
      = .ok (requestAt apps (workspaceOf settings) path e (requestId known e)
          (placeId known.names settings path)) := rfl
  have hfields : Persisted.fieldsOf
      (.obj (Entry.fresh apps (workspaceOf settings) (.request path e)))
      = .ok (Entry.fresh apps (workspaceOf settings) (.request path e)) := rfl
  have hrequest : ∀ i parent,
      isA "request" (requestAt apps (workspaceOf settings) path e i parent) = true := fun _ _ => rfl
  rw [refresh, hfields, ok_bind, hrename, ok_bind, if_pos (hrequest _ _), key?_requestAt, ok_bind,
    Option.bind_some]
  rfl

end

end RouteAtlas.Insomnia
