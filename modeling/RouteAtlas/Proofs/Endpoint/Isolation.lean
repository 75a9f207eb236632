/-
  What a file that cannot be read does to a survey.

  ==== Problem ====

  Some of the paths to be searched lead to nothing that can be read.  They are sorted among the others,
  and other files may import what is behind them.  All the same the survey is to be what it would be
  without them, and each of them is to be reported.

  ==== Program ====

  1. **Searching** - `searching` gives a bundle other paths to be searched.  What its files say, and
     what they lead to, does not depend on the paths (`byFramework_searching`).

  2. **Loading** - the files to be searched, the faults and the warnings are read off the paths
     (`load_fst`, `errors_load`, `warnings_load`).  Files come in the order of their places, and a
     path that cannot be read adds none (`loaded_searching`).

  3. **The survey** - so it has the same endpoints, framework and warnings, and one more error for
     each path that was added (`undisturbed_by_unreadable`).

  ==== The crux ====

  Nothing is asked of the paths themselves.  They may come twice, be imported by others, be missing or
  be there and closed; for what is found only what can be read counts.
-/
import RouteAtlas.Proofs.Endpoint.Closure
import RouteAtlas.Proofs.Source.Order

namespace RouteAtlas.Survey

open Source (File Bundle Location ReadError)
open Convention (FileRoutes)

/-! ## Searching other paths

A survey looks at the paths once, to load files.  After that only the bundle and the loaded files
matter, which is checked part by part. -/

/-- The same files with other paths to be searched: each in its one spelling, and in order. -/
def searching (bundle : Bundle) (paths : List Location) : Bundle :=
  ⟨Location.sort (paths.map Location.tidy), bundle.files⟩

section

variable (bundle : Bundle) (paths : List Location)

theorem visit_searching (routes : FileRoutes) (g : RouterGraph) :
    g.visit (searching bundle paths) routes = g.visit bundle routes := rfl

theorem settle_searching (pending : List FileRoutes) (g : RouterGraph) :
    RouterGraph.settle (searching bundle paths) pending g = RouterGraph.settle bundle pending g := by
  induction pending, g using RouterGraph.settle.induct bundle with
  | case1 g => rw [RouterGraph.settle, RouterGraph.settle]
  | case2 routes pending g after ih =>
    rw [RouterGraph.settle_cons, RouterGraph.settle_cons, visit_searching]
    exact ih

theorem fluent_searching (files : List File) :
    fluent (searching bundle paths) files = fluent bundle files :=
  congrArg RouterGraph.endpoints (settle_searching bundle paths _ (givenGraph bundle files))

theorem openly_searching (files : List File) :
    openly (searching bundle paths) files = openly bundle files := by
  unfold openly
  rw [fluent_searching]
  rfl

/-- **What files say does not depend on the paths to be searched.** -/
theorem byFramework_searching (files : List File) (framework : Framework) :
    byFramework (searching bundle paths) files framework = byFramework bundle files framework := by
  cases framework with
  | auto => exact openly_searching bundle paths files
  | hono => exact congrArg (·, Framework.hono.word) (fluent_searching bundle paths files)
  | nestjs => rfl
  | express => rfl

end

/-! ## Loading

What loading reports, path by path.  A path that cannot be read gives one error, and a file that
cannot be parsed without errors one warning. -/

/-- Why a path cannot be read, if it cannot. -/
def faultAt? (bundle : Bundle) (path : Location) : Option (Location × ReadError) :=
  match bundle.read path with
  | .error fault => some (path, fault)
  | .ok _ => none

/-- What is said of a path that cannot be read. -/
def reported (fault : Location × ReadError) : String × String :=
  (fault.1.text, "could not read or parse: " ++ fault.2.message)

/-- What is said of a file that cannot be understood fully. -/
def doubt (file : File) : String := file.path.text ++ ": syntax errors, extraction may be incomplete"

/-- **Every path that cannot be read is an error.** -/
theorem errors_load (bundle : Bundle) :
    (load bundle).2.errors = (bundle.paths.filterMap (faultAt? bundle)).map reported := by
  rw [load, List.filterMap_eq_flatMap_toList, List.map_flatMap]
  refine foldl_part (fun found : List File × Diagnostics => found.2.errors) (fun found path => ?_)
    bundle.paths ([], {})
  obtain ⟨files, problems⟩ := found
  unfold faultAt?
  cases hread : bundle.read path with
  | error fault => rfl
  | ok file =>
    dsimp only
    split <;> exact (List.append_nil _).symm

/-- **Every file with errors is a warning.** -/
theorem warnings_load (bundle : Bundle) :
    (load bundle).2.warnings = ((load bundle).1.filter (·.hasErrors)).map doubt := by
  rw [load_fst, load, List.filterMap_eq_flatMap_toList, List.filter_flatMap, List.map_flatMap]
  refine foldl_part (fun found : List File × Diagnostics => found.2.warnings) (fun found path => ?_)
    bundle.paths ([], {})
  obtain ⟨files, problems⟩ := found
  unfold Bundle.read?
  cases hread : bundle.read path with
  | error fault => exact (List.append_nil _).symm
  | ok file =>
    have hpath : file.path = path :=
      (Bundle.read?_eq_some (b := bundle) (by rw [Bundle.read?, hread]; rfl)).1
    dsimp only [Except.toOption, Option.toList]
    rw [List.filter_singleton, ← hpath]
    cases file.hasErrors with
    | true => rfl
    | false => exact (List.append_nil _).symm

/-- The faults of some paths, each in its one spelling. -/
def faultsOf (bundle : Bundle) (paths : List Location) : List (Location × ReadError) :=
  (paths.map Location.tidy).filterMap (faultAt? bundle)

/-- Faults in the order of their paths. -/
def inOrder (faults : List (Location × ReadError)) : List (Location × ReadError) :=
  Location.sortBy Prod.fst faults

/-- The faults of the paths come in the order of their places. -/
theorem faults_searching (bundle : Bundle) (paths : List Location) :
    (searching bundle paths).paths.filterMap (faultAt? bundle) = inOrder (faultsOf bundle paths) := by
  refine Location.filterMap_sort (fun p fault h => ?_) _
  unfold faultAt? at h
  split at h
  · rw [← Option.some.inj h]
  · exact absurd h.symm (Option.some_ne_none _)

/-- **The files to be searched** come in the order of their places. -/
theorem loaded_searching (bundle : Bundle) (paths : List Location) :
    (load (searching bundle paths)).1
      = Location.sortBy File.path ((paths.map Location.tidy).filterMap bundle.read?) := by
  rw [load_fst]
  exact Location.filterMap_sort (fun p file h => (Bundle.read?_eq_some h).1) _

/-! ## The survey

Two surveys that differ in unreadable paths only. -/

section

variable {bundle : Bundle} {paths added : List Location} {fault : Location → ReadError}
  (hadded : ∀ path ∈ added, bundle.read path.tidy = .error (fault path))
include hadded

/-- What cannot be read adds no file. -/
theorem loaded_unreadable :
    (load (searching bundle (paths ++ added))).1 = (load (searching bundle paths)).1 := by
  have hnone : (added.map Location.tidy).filterMap bundle.read? = [] := by
    refine List.filterMap_eq_nil_iff.mpr fun place hplace => ?_
    obtain ⟨path, hpath, rfl⟩ := List.mem_map.mp hplace
    rw [Bundle.read?, hadded path hpath]
    rfl
  rw [loaded_searching, loaded_searching, List.map_append, List.filterMap_append, hnone,
    List.append_nil]

/-- What cannot be read adds its fault. -/
theorem faultsOf_unreadable : faultsOf bundle (paths ++ added)
    = faultsOf bundle paths ++ added.map fun path => (path.tidy, fault path) := by
  have hall : faultsOf bundle added = added.map fun path => (path.tidy, fault path) := by
    rw [faultsOf, List.filterMap_map, ← List.filterMap_eq_map]
    refine List.filterMap_congr fun path hpath => ?_
    show faultAt? bundle path.tidy = _
    rw [faultAt?, hadded path hpath]
    rfl
  rw [← hall, faultsOf, List.map_append, List.filterMap_append]
  rfl

end

/-- Two surveys have found the same, and warn of the same. -/
structure SameFindings (before after : Survey) : Prop where
  endpoints_eq : after.endpoints = before.endpoints
  framework_eq : after.framework = before.framework
  warnings_eq : after.diagnostics.warnings = before.diagnostics.warnings

/-- A survey is what another one was that met some known faults, and reports some more. -/
structure Undisturbed (before after : Survey) (known more : List (Location × ReadError)) : Prop
    extends SameFindings before after where
  /-- Every known fault is reported, in the order of the paths. -/
  errors_before : before.diagnostics.errors = (inOrder known).map reported
  /-- So are the others, each at the place of its path. -/
  errors_after : after.diagnostics.errors = (inOrder (known ++ more)).map reported

/-- The errors of a survey are those of loading. -/
theorem errors_run (bundle : Bundle) (framework : Framework) :
    (run bundle framework).diagnostics.errors = (load bundle).2.errors := by
  rw [run]
  dsimp only
  split <;> rfl

/-- **The files that were loaded are all that matters for what is found.** -/
theorem sameFindings_run (bundle : Bundle) {paths others : List Location}
    (hfiles : (load (searching bundle others)).1 = (load (searching bundle paths)).1)
    (framework : Framework) : SameFindings (run (searching bundle paths) framework)
      (run (searching bundle others) framework) := by
  have hwarnings : (load (searching bundle others)).2.warnings
      = (load (searching bundle paths)).2.warnings := by
    rw [warnings_load, warnings_load, hfiles]
  constructor
  case endpoints_eq => simp only [run, byFramework_searching, openly_searching, hfiles]
  case framework_eq => simp only [run, byFramework_searching, openly_searching, hfiles]
  case warnings_eq =>
    simp only [run, byFramework_searching, hfiles]
    split
    · simp only [hwarnings]
    · exact hwarnings

/-- **What cannot be read does not affect the rest.**  Where paths that cannot be read are searched
    besides others, by whatever framework, the survey has the same endpoints in the same order, the
    same framework and the same warnings as without them.  Its errors are those that there were and
    one for each path that was added, all in the order of the paths. -/
theorem undisturbed_by_unreadable (bundle : Bundle) (framework : Framework)
    (paths added : List Location) (fault : Location → ReadError)
    (hadded : ∀ path ∈ added, bundle.read path.tidy = .error (fault path)) :
    Undisturbed (run (searching bundle paths) framework)
      (run (searching bundle (paths ++ added)) framework) (faultsOf bundle paths)
      (added.map fun path => (path.tidy, fault path)) where
  toSameFindings := sameFindings_run bundle (loaded_unreadable hadded) framework
  errors_before := by rw [errors_run, errors_load, ← faults_searching]; rfl
  errors_after := by
    rw [errors_run, errors_load, ← faultsOf_unreadable hadded, ← faults_searching]
    rfl

/-- A file that mounts two routers it imports, of which the second is behind a closed door. -/
def closedDoor : Bundle where
  paths := []
  files := [
    (⟨"", ["main.ts"]⟩, .ok (RouterGraph.sourceFile "main.ts"
      [("Hono", ⟨"hono", "Hono"⟩), ("users", ⟨"./users", "users"⟩), ("audit", ⟨"./locked", "audit"⟩)]
      [] ["app"] [mounting "/users" "users", mounting "/audit" "audit"])),
    (⟨"", ["users.ts"]⟩, .ok (RouterGraph.sourceFile "users.ts" [("Hono", ⟨"hono", "Hono"⟩)]
      [("users", "users")] ["users"] [RouterGraph.callOn "users" "get" [RouterGraph.quoted "/all"]])),
    (⟨"", ["locked.ts"]⟩, .error (.refused "permission denied"))]
where
  /-- A call that mounts the child at a path. -/
  mounting (path child : String) : Syntax.Node :=
    RouterGraph.callOn "app" "route"
      [RouterGraph.quoted path, Syntax.Node.leaf "identifier" "" child]

/-- The reasons why the paths added to `closedDoor` cannot be read. -/
def closedBy (path : Location) : ReadError :=
  if path.names = ["locked.ts"] then .refused "permission denied" else .missing path.tidy

/-- Two paths are added that cannot be read, one of them with `..` on its way: two errors more, in
    order. -/
theorem undisturbed_by_closedDoor :
    (∀ path ∈ [(⟨"", ["locked.ts"]⟩ : Location), ⟨"", ["src", "..", "gone.ts"]⟩],
      closedDoor.read path.tidy = .error (closedBy path)) ∧
    Undisturbed (run (searching closedDoor [⟨"", ["main.ts"]⟩, ⟨"", ["lost.ts"]⟩]) .auto)
      (run (searching closedDoor ([⟨"", ["main.ts"]⟩, ⟨"", ["lost.ts"]⟩]
        ++ [⟨"", ["locked.ts"]⟩, ⟨"", ["src", "..", "gone.ts"]⟩])) .auto)
      (faultsOf closedDoor [⟨"", ["main.ts"]⟩, ⟨"", ["lost.ts"]⟩])
      ([(⟨"", ["locked.ts"]⟩ : Location), ⟨"", ["src", "..", "gone.ts"]⟩].map
        fun path => (path.tidy, closedBy path)) := by
  have hadded : ∀ path ∈ [(⟨"", ["locked.ts"]⟩ : Location), ⟨"", ["src", "..", "gone.ts"]⟩],
      closedDoor.read path.tidy = .error (closedBy path) := by
    intro path hpath
    rcases List.mem_cons.mp hpath with rfl | hpath
    · rfl
    · obtain rfl := List.mem_singleton.mp hpath
      rfl
  exact ⟨hadded, undisturbed_by_unreadable closedDoor .auto _ _ closedBy hadded⟩

-- the router that can be read is found all the same
example : ((run (searching closedDoor [⟨"", ["main.ts"]⟩]) .auto).endpoints.map (·.path),
    (run (searching closedDoor [⟨"", ["main.ts"]⟩]) .auto).framework) = (["/users/all"], "hono") := by
  rw [searching, List.map_singleton, Location.sort, List.mergeSort_singleton]
  decide +kernel

end RouteAtlas.Survey
