/-
  One endpoint per key, whether it is settled file by file or once for all.

  ==== Problem ====

  Of several endpoints with one key, the last one is kept, at the place of the first.  Two of the
  conventions settle this for every file on its own, and the survey settles it once more at the end.
  In the first pass an endpoint may be dropped for a later one of its file, which then stands at the
  earlier place.  None of that may show in the outcome.

  ==== Program ====

  1. **Specification** - `IsSettled`: the keys are those of all endpoints, each once and in the order
     of their first places, and every endpoint is the last one with its key.

  2. **One pass** - the endpoints are the values of a dictionary, which was made of their entries
     (`isSettled_deduplicate`).

  3. **In chunks** - a dictionary made of dictionaries is made of all their entries, so chunks that
     were settled before are settled as a whole (`deduplicate_chunks`).

  4. **The survey** - a file is a chunk.  Settling it leaves nothing only where nothing was found, so
     the survey tries the same conventions as if it had settled nothing before
     (`deduplicate_byFramework`).

  ==== The crux ====

  What is settled is a dictionary read by its values.  A dictionary is told by the order of its keys and
  by the value under each of them, and each of the two goes through chunks on its own.
-/
import RouteAtlas.Endpoint.Survey
import RouteAtlas.Proofs.Json.Chunk
import RouteAtlas.Proofs.Json.Table

namespace RouteAtlas

namespace Endpoint

/-! ## One pass

Settling is a dictionary of endpoints under their keys: setting a key again keeps its place and
takes the later endpoint. -/

/-- The endpoint is the last one with its key. -/
def IsLast (e : Endpoint) (endpoints : List Endpoint) : Prop :=
  ∃ before after, endpoints = before ++ e :: after ∧ ∀ other ∈ after, other.key ≠ e.key

/-- One endpoint for every key, at the place of the first with this key, and the last of them. -/
structure IsSettled (endpoints kept : List Endpoint) : Prop where
  keys : Collected (endpoints.map key) (kept.map key)
  last : ∀ e ∈ kept, IsLast e endpoints

/-- The endpoints under their keys. -/
def entriesOf (endpoints : List Endpoint) : List (String × Endpoint) :=
  endpoints.map fun e => (e.key, e)

/-- The keys of the entries are those of the endpoints. -/
theorem keys_entriesOf (endpoints : List Endpoint) :
    Dict.keys (entriesOf endpoints) = endpoints.map key := List.map_map

/-- The first endpoint with a key is found under it. -/
theorem get?_entriesOf (endpoints : List Endpoint) (k : String) :
    Dict.get? (entriesOf endpoints) k = endpoints.find? (·.key == k) := by
  induction endpoints with
  | nil => rfl
  | cons e endpoints ih =>
    show Dict.get? ((e.key, e) :: entriesOf endpoints) k = _
    rw [Dict.get?_cons, BEq.comm, List.find?_cons, ih]
    cases e.key == k <;> rfl

/-- What is settled stands in the dictionary under its key. -/
theorem entriesOf_deduplicate (endpoints : List Endpoint) :
    entriesOf (deduplicate endpoints) = Dict.ofList (entriesOf endpoints) := by
  have hkey : ∀ entry ∈ Dict.ofList (entriesOf endpoints), (entry.2.key, entry.2) = entry := by
    intro entry hentry
    obtain ⟨k, hmem, hk⟩ := Dict.mem_ofList hentry
    obtain ⟨e, -, heq⟩ := List.mem_map.mp hmem
    obtain ⟨rfl, rfl⟩ := Prod.mk.inj heq
    have hsame : entry.1 = entry.2.key := hk.elim id fun h => eq_of_beq h.2
    exact Prod.ext hsame.symm rfl
  show ((Dict.ofList (entriesOf endpoints)).map (·.2)).map (fun e => (e.key, e)) = _
  rw [List.map_map]
  exact (List.map_congr_left hkey).trans (List.map_id _)

/-- **Of the endpoints with one key, the last is kept, where the first was.** -/
theorem isSettled_deduplicate (endpoints : List Endpoint) :
    IsSettled endpoints (deduplicate endpoints) := by
  constructor
  · have hkeys : (deduplicate endpoints).map key = (endpoints.map key).eraseDups := by
      rw [← keys_entriesOf, entriesOf_deduplicate, Dict.keys_ofList, keys_entriesOf]
    rw [hkeys]
    exact collected_eraseDups _
  · intro e he
    have hmem : (e.key, e) ∈ Dict.ofList (entriesOf endpoints) :=
      entriesOf_deduplicate endpoints ▸ List.mem_map_of_mem (f := fun e : Endpoint => (e.key, e)) he
    have hget := Dict.get?_of_mem (Dict.nodup_keys_ofList _) hmem
    rw [Dict.get?_ofList, entriesOf, ← List.map_reverse] at hget
    have hfind := (get?_entriesOf endpoints.reverse e.key).symm.trans hget
    obtain ⟨-, after, before, hsplit, hother⟩ := List.find?_eq_some_iff_append.mp hfind
    refine ⟨before.reverse, after.reverse, ?_, fun other hmem => ?_⟩
    · rw [← List.reverse_reverse endpoints, hsplit]
      simp
    · have hne := hother other (List.mem_reverse.mp hmem)
      simpa using hne

/-- No two endpoints that are left have one key. -/
theorem nodup_deduplicate (endpoints : List Endpoint) : ((deduplicate endpoints).map key).Nodup :=
  (isSettled_deduplicate endpoints).keys.nodup

/-- Nothing is left only of nothing. -/
theorem deduplicate_eq_nil_iff (endpoints : List Endpoint) :
    deduplicate endpoints = [] ↔ endpoints = [] := by
  constructor
  · intro hnil
    refine List.eq_nil_iff_forall_not_mem.mpr fun e he => ?_
    have hkey := ((isSettled_deduplicate endpoints).keys.mem_iff e.key).mpr (List.mem_map_of_mem he)
    rw [hnil] at hkey
    exact List.not_mem_nil hkey
  · intro hnil
    rw [hnil]
    rfl

/-! ## In chunks

Settling chunks and then all of them is settling once: a dictionary made of dictionaries. -/

/-- **Endpoints settled in chunks are settled as a whole.** -/
theorem deduplicate_chunks (chunks : List (List Endpoint)) :
    deduplicate (chunks.map deduplicate).flatten = deduplicate chunks.flatten := by
  have hentries : entriesOf (chunks.map deduplicate).flatten
      = ((chunks.map entriesOf).map Dict.ofList).flatten := by
    rw [entriesOf, List.map_flatten, List.map_map, List.map_map]
    exact congrArg List.flatten (List.map_congr_left fun chunk _ => entriesOf_deduplicate chunk)
  have hwhole : entriesOf chunks.flatten = (chunks.map entriesOf).flatten := List.map_flatten
  show Dict.values (Dict.ofList (entriesOf _)) = Dict.values (Dict.ofList (entriesOf _))
  rw [hentries, hwhole, Dict.ofList_chunks]

end Endpoint

namespace Survey

open Source (File Bundle)
open Convention (FileRoutes)
open Endpoint (deduplicate deduplicate_eq_nil_iff)

/-! ## The survey

The program settles per file and convention, and once more at the end. -/

/-- What the conventions read in a file, one convention after the other. -/
def recordsIn (conventions : List (File → FileRoutes)) (file : File) : List Endpoint :=
  conventions.flatMap fun read => (read file).registrations.map fun r => r.endpoint.at r.endpoint.path

/-- What the conventions read in all files, in the order of the files. -/
def recordsOf (files : List File) (conventions : List (File → FileRoutes)) : List Endpoint :=
  files.flatMap (recordsIn conventions)

/-- What is found per file is settled file by file. -/
theorem perFile_eq (files : List File) (conventions : List (File → FileRoutes)) :
    perFile files conventions = ((files.map (recordsIn conventions)).map deduplicate).flatten := by
  rw [List.map_map]
  rfl

/-- **Every file settled, and then all files, is all records settled at once.** -/
theorem deduplicate_perFile (files : List File) (conventions : List (File → FileRoutes)) :
    deduplicate (perFile files conventions) = deduplicate (recordsOf files conventions) := by
  rw [perFile_eq, Endpoint.deduplicate_chunks]
  rfl

/-- All that is found when the framework is open: by the fluent convention if there is any, else by
    the two others. -/
def recordsOpenly (bundle : Bundle) (files : List File) : List Endpoint :=
  if fluent bundle files = [] then
    recordsOf files [Convention.Controller.routesOf bundle, Convention.Middleware.routesOf bundle]
  else fluent bundle files

/-- All that a framework's own convention finds. -/
def ownRecords (bundle : Bundle) (files : List File) : Framework → List Endpoint
  | .auto => recordsOpenly bundle files
  | .hono => fluent bundle files
  | .nestjs => recordsOf files [Convention.Controller.routesOf bundle]
  | .express => recordsOf files [Convention.Middleware.routesOf bundle]

/-- All that a survey finds: what the framework's own convention does, and when that is nothing, what
    there is when the framework is open. -/
def recordsBy (bundle : Bundle) (files : List File) (framework : Framework) : List Endpoint :=
  if ownRecords bundle files framework = [] then recordsOpenly bundle files
  else ownRecords bundle files framework

/-- With an open framework, the survey settles all records of the conventions that it tries. -/
theorem deduplicate_openly (bundle : Bundle) (files : List File) :
    deduplicate (openly bundle files).1 = deduplicate (recordsOpenly bundle files) := by
  unfold openly recordsOpenly
  cases fluent bundle files with
  | nil => exact (deduplicate_perFile ..).trans (congrArg _ (if_pos rfl).symm)
  | cons e found => exact congrArg _ (if_neg (List.cons_ne_nil e found)).symm

/-- With a given framework, it settles the records of that framework's convention. -/
theorem deduplicate_byFramework (bundle : Bundle) (files : List File) (framework : Framework) :
    deduplicate (byFramework bundle files framework).1
      = deduplicate (ownRecords bundle files framework) := by
  cases framework with
  | auto => exact deduplicate_openly bundle files
  | hono => rfl
  | nestjs => exact deduplicate_perFile files _
  | express => exact deduplicate_perFile files _

/-- A survey settles what it finds, as if nothing had been settled before.  Settling drops no
    endpoint altogether, so the two ways ask for a second, open reading in the same cases. -/
theorem endpoints_run (bundle : Bundle) (framework : Framework) :
    (run bundle framework).endpoints
      = deduplicate (recordsBy bundle (load bundle).1 framework) := by
  have hown := deduplicate_byFramework bundle (load bundle).1 framework
  have hopen := deduplicate_openly bundle (load bundle).1
  have hempty : (byFramework bundle (load bundle).1 framework).1 = [] ↔
      ownRecords bundle (load bundle).1 framework = [] := by
    rw [← deduplicate_eq_nil_iff, hown, deduplicate_eq_nil_iff]
  have hrun : (run bundle framework).endpoints = deduplicate
      (if ((byFramework bundle (load bundle).1 framework).1.isEmpty && framework != .auto) = true then
        openly bundle (load bundle).1 else byFramework bundle (load bundle).1 framework).1 := rfl
  rw [hrun, recordsBy]
  split
  · -- a given framework found nothing
    rename_i hretry
    have hnone := List.isEmpty_iff.mp (Bool.and_eq_true_iff.mp hretry).1
    rw [if_pos (hempty.mp hnone), hopen]
  · rename_i hretry
    rw [hown]
    split
    · -- nothing was found, and the framework was open already
      rename_i hnone
      have hauto : framework = .auto := by
        by_contra hne
        refine hretry (Bool.and_eq_true_iff.mpr ⟨List.isEmpty_iff.mpr (hempty.mpr hnone), ?_⟩)
        exact bne_iff_ne.mpr hne
      subst hauto
      rfl
    · rfl

/-- **Settling is the same in one pass or in two.**  Of the endpoints with one key, the last is kept
    at the place of the first; whoever settles parts of a list before the whole gets what settling
    the whole gives.  So a survey, which settles every file and then all of them, gives all records
    settled at once, in the order of the files, and never two endpoints with one key. -/
theorem settled_in_one_pass (endpoints : List Endpoint) (chunks : List (List Endpoint))
    (bundle : Bundle) (framework : Framework) :
    Endpoint.IsSettled endpoints (deduplicate endpoints) ∧
    deduplicate (chunks.map deduplicate).flatten = deduplicate chunks.flatten ∧
    (∀ files conventions,
      deduplicate (perFile files conventions) = deduplicate (recordsOf files conventions)) ∧
    (run bundle framework).endpoints
      = deduplicate (recordsBy bundle (load bundle).1 framework) ∧
    ((run bundle framework).endpoints.map Endpoint.key).Nodup := by
  refine ⟨Endpoint.isSettled_deduplicate endpoints, Endpoint.deduplicate_chunks chunks,
    deduplicate_perFile, endpoints_run bundle framework, ?_⟩
  rw [endpoints_run]
  exact Endpoint.nodup_deduplicate _

end Survey

end RouteAtlas
