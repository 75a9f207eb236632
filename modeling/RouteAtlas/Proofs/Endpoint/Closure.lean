/-
  Which files are read for the routers of some paths.

  ==== Problem ====

  Reading starts from the given paths and goes on to the files behind imported receivers and mounted
  names.  Such a file is met while another one is visited, imports may lead back to files that were
  read long ago, and a file that is met late has mounts of its own.

  ==== Program ====

  1. **Specification** - `Leads` says which files a file leads to, `ImportClosed` that a set of files
     has the given ones and all that its files lead to.  The files to read are the least such set.

  2. **Nothing more** - a look-up finds the file behind an imported name (`fileBehind?_eq`), so every
     step stays within any closed set (`within_visit`), and so does the whole reading
     (`within_ofFiles`).

  3. **Nothing less** - a finished reading has the given files and has followed every name.  What is
     known of a file is the text of its path; in a bundle whose paths were cleaned this tells files
     apart, so the files that were read are a closed set (`importClosed_files`).

  4. **Each once** - `Visits` is the working off of the pending files, one after the other; that there
     is one means that it comes to an end.  The visited files are those that were read
     (`visits_settle`, `visited_values`).

  ==== The crux ====

  `Within` speaks of the table of what was read and not of the pending files: these are always entries
  of the table, the new ones those behind the entries that were there before the visit.
-/
import Mathlib.Data.List.Nodup
import Mathlib.Data.List.Perm.Subperm
import Mathlib.Order.Bounds.Basic
import RouteAtlas.Proofs.Endpoint.Receiver
import RouteAtlas.Proofs.Source.Location

namespace RouteAtlas.Survey

open Source (File Bundle Location)
open Convention (FileRoutes)
open Convention.Fluent (routesOf)

/-! ## The files to read

What is read is told without the reading: the least set with the given files and everything imported
from a file of it. -/

/-- Every file of the bundle is kept under the one spelling of its place, as paths are whenever they
    are cleaned before files are put there. -/
def Cleaned (bundle : Bundle) : Prop :=
  ∀ path ∈ bundle.files.map (·.1), ∃ text, Location.clean text = path

/-- The file behind a name that a file imports, if it can be read. -/
def fileBehind? (bundle : Bundle) (file : File) (name : String) : Option File :=
  (Dict.get? file.imports name).bind fun origin => bundle.importedFile? file origin.specifier

/-- A file leads to the file behind an imported receiver, and to the one behind a mounted name that is
    no router of its own. -/
def Leads (bundle : Bundle) (file target : File) : Prop :=
  ∃ name, (name ∈ (routesOf bundle file).imported ∨
      ∃ m ∈ (routesOf bundle file).mounts,
        m.child = name ∧ (routesOf bundle file).routerNamed? name = none) ∧
    fileBehind? bundle file name = some target

/-- A set of files that has the given ones, as far as they can be read, and all that its files lead
    to. -/
structure ImportClosed (bundle : Bundle) (s : Set File) : Prop where
  given : ∀ path ∈ bundle.paths, ∀ file, bundle.read? path = some file → file ∈ s
  leads : ∀ file ∈ s, ∀ target, Leads bundle file target → target ∈ s

/-- The pending files are worked off: these are the ones visited, one after the other, while the files
    that a visit reads are put behind those still pending. -/
inductive Visits (bundle : Bundle) :
    List FileRoutes → RouterGraph → List FileRoutes → RouterGraph → Prop
  | done (g : RouterGraph) : Visits bundle [] g [] g
  | visit {routes : FileRoutes} {pending visited : List FileRoutes} {g h : RouterGraph} :
      Visits bundle (pending ++ Dict.values ((g.visit bundle routes).read.drop g.read.length))
        (g.visit bundle routes) visited h →
      Visits bundle (routes :: pending) g (routes :: visited) h

/-- The graph that has read the given files and has visited none. -/
def givenGraph (bundle : Bundle) (files : List File) : RouterGraph :=
  files.foldl (fun g file => (g.add bundle file).2) {}

/-- These are the files that the reading for the paths of a bundle comes to. -/
structure IsClosure (bundle : Bundle) (files : List File) (g : RouterGraph) : Prop where
  /-- They are the least set with the given files and all that its files lead to. -/
  least : IsLeast {s | ImportClosed bundle s} {file | file ∈ files}
  /-- No file is read twice. -/
  once : (files.map (·.path)).Nodup
  read_eq : g.read = files.map fun file => (file.path.text, routesOf bundle file)
  /-- Each is visited once, in the order of reading, and then nothing is pending. -/
  visits : Visits bundle (Dict.values (givenGraph bundle (load bundle).1).read)
    (givenGraph bundle (load bundle).1) (files.map (routesOf bundle)) g
  /-- There are at most as many visits as files. -/
  bounded : files.length ≤ bundle.files.length
  /-- Each mount of each file is there once if its child is a router, and no other mount is. -/
  mounts_eq : g.mounts = files.flatMap fun file => mountsOf bundle g.read (routesOf bundle file)

variable {bundle : Bundle}

/-! ## The given files

The files that a run starts from, in the order of their paths. -/

/-- Where every step appends something to a part of what was found, the part is all of that in order. -/
theorem foldl_part {α β γ : Type} {step : α → β → α} (part : α → List γ) {more : β → List γ}
    (hstep : ∀ found x, part (step found x) = part found ++ more x) (l : List β) (found : α) :
    part (l.foldl step found) = part found ++ l.flatMap more := by
  induction l generalizing found with
  | nil => exact (List.append_nil _).symm
  | cons x l ih => rw [List.foldl_cons, ih, hstep, List.append_assoc, List.flatMap_cons]

/-- **The given files** are those of the given paths, as far as they can be read. -/
theorem load_fst (bundle : Bundle) : (load bundle).1 = bundle.paths.filterMap bundle.read? := by
  rw [load, List.filterMap_eq_flatMap_toList]
  refine foldl_part Prod.fst (fun found path => ?_) bundle.paths ([], ({} : Diagnostics))
  obtain ⟨files, problems⟩ := found
  unfold Bundle.read?
  cases hread : bundle.read path with
  | error fault => exact (List.append_nil _).symm
  | ok file => rfl

/-! ## Nothing more

Whatever set is closed, the reading stays within it.  Each step is checked: reading a file, looking
up a name, adding a mount, visiting. -/

/-- Where the paths were cleaned, a readable file is found by the text of its path. -/
theorem read?_clean (hclean : Cleaned bundle) {path : Location} {file : File}
    (h : bundle.read? path = some file) :
    bundle.read? (Location.clean file.path.text) = some file := by
  obtain ⟨hpath, hmem⟩ := Bundle.read?_eq_some h
  obtain ⟨text, rfl⟩ := hclean path hmem
  rw [hpath, Location.clean_text_clean, h]

/-- **A look-up finds the file behind an imported name.** -/
theorem fileBehind?_eq (hclean : Cleaned bundle) {path : Location} {file : File}
    (h : bundle.read? path = some file) (name : String) :
    fileBehind? bundle file name = (originOf? bundle (routesOf bundle file) name).map (·.1) := by
  unfold originOf? fileBehind?
  rw [(Convention.Fluent.owned_routesOf bundle file).file_eq, read?_clean hclean h]
  cases himport : Dict.get? file.imports name with
  | none => simp [himport]
  | some origin =>
    cases htarget : bundle.importedFile? file origin.specifier <;> simp [himport, htarget]

/-- The files of `s` are all that was read. -/
def Within (bundle : Bundle) (s : Set File) (read : Dict FileRoutes) : Prop :=
  ∀ e ∈ read, ∃ file ∈ s, e = (file.path.text, routesOf bundle file)

/-- The names that are followed in a file come from files of `s`. -/
structure StaysIn (bundle : Bundle) (s : Set File) (routes : FileRoutes) : Prop where
  imported : ∀ name ∈ routes.imported, ∀ target there,
    originOf? bundle routes name = some (target, there) → target ∈ s
  mounted : ∀ m ∈ routes.mounts, routes.routerNamed? m.child = none → ∀ target there,
    originOf? bundle routes m.child = some (target, there) → target ∈ s

/-- A file of a closed set follows names into this set. -/
theorem staysIn_routesOf (hclean : Cleaned bundle) {s : Set File} (hs : ImportClosed bundle s)
    {file : File} (hfile : file ∈ s) {path : Location} (hread : bundle.read? path = some file) :
    StaysIn bundle s (routesOf bundle file) := by
  have hbehind : ∀ {name target there},
      originOf? bundle (routesOf bundle file) name = some (target, there) →
      fileBehind? bundle file name = some target := by
    intro name target there h
    rw [fileBehind?_eq hclean hread, h]
    rfl
  constructor
  case imported =>
    intro name hname target there h
    exact hs.leads file hfile target ⟨name, .inl hname, hbehind h⟩
  case mounted =>
    intro m hm hlocal target there h
    exact hs.leads file hfile target ⟨m.child, .inr ⟨m, hm, rfl, hlocal⟩, hbehind h⟩

namespace RouterGraph

variable {s : Set File} {g : RouterGraph}

/-- Reading a file of the set stays within it. -/
theorem within_add {file : File} (hfile : file ∈ s) (hg : Within bundle s g.read) :
    Within bundle s (g.add bundle file).2.read := by
  unfold add
  cases Dict.get? g.read file.path.text with
  | some routes => exact hg
  | none =>
    intro e he
    rcases List.mem_append.mp he with he | he
    · exact hg e he
    · exact ⟨file, hfile, List.mem_singleton.mp he⟩

section

variable {routes : FileRoutes}

theorem within_resolveImported {name : String}
    (hname : ∀ target there, originOf? bundle routes name = some (target, there) → target ∈ s)
    (hg : Within bundle s g.read) :
    Within bundle s (g.resolveImported bundle routes name).2.read := by
  rw [resolveImported_eq]
  cases horigin : originOf? bundle routes name with
  | none => exact hg
  | some origin => exact within_add (hname origin.1 origin.2 horigin) hg

theorem within_addMount {m : Convention.LocalMount}
    (hm : routes.routerNamed? m.child = none → ∀ target there,
      originOf? bundle routes m.child = some (target, there) → target ∈ s)
    (hg : Within bundle s g.read) : Within bundle s (g.addMount bundle routes m).read := by
  have hchild : Within bundle s (g.resolveChild bundle routes m.child).2.read := by
    unfold resolveChild
    cases hlocal : routes.routerNamed? m.child with
    | some known => exact hg
    | none => exact within_resolveImported (hm hlocal) hg
  unfold addMount
  dsimp only
  cases (g.resolveChild bundle routes m.child).1 with
  | none => exact hchild
  | some child => exact hchild

/-- **A visit reads files of a closed set only.** -/
theorem within_visit (hroutes : StaysIn bundle s routes) (hg : Within bundle s g.read) :
    Within bundle s (g.visit bundle routes).read := by
  have himported : Within bundle s (routes.imported.foldl (addRedirect bundle routes) g).read :=
    List.foldlRecOn (motive := fun g : RouterGraph => Within bundle s g.read) routes.imported _ hg
      fun _ hg name hname => within_resolveImported (hroutes.imported name hname) hg
  exact List.foldlRecOn (motive := fun g : RouterGraph => Within bundle s g.read) routes.mounts _ himported
    fun _ hg m hm => within_addMount (hroutes.mounted m hm) hg

end

/-- The pending files are files of a closed set, since they are entries of what was read. -/
theorem within_settle (hs : ∀ file ∈ s, StaysIn bundle s (routesOf bundle file))
    {pending : List FileRoutes}
    (hpending : ∀ routes ∈ pending, ∃ file ∈ s, routes = routesOf bundle file)
    (hg : Within bundle s g.read) : Within bundle s (settle bundle pending g).read := by
  induction pending, g using settle.induct bundle with
  | case1 g =>
    rw [settle]
    exact hg
  | case2 routes pending g after ih =>
    obtain ⟨file, hfile, rfl⟩ := hpending routes (List.mem_cons_self ..)
    have hafter := within_visit (hs file hfile) hg
    rw [settle_cons]
    refine ih (fun other hother => ?_) hafter
    rcases List.mem_append.mp hother with hother | hnew
    · exact hpending other (List.mem_cons_of_mem _ hother)
    · obtain ⟨e, he, rfl⟩ := List.mem_map.mp hnew
      obtain ⟨found, hfound, rfl⟩ := hafter e (List.mem_of_mem_drop he)
      exact ⟨found, hfound, rfl⟩

/-- **The whole reading stays within a closed set** whose files can be read. -/
theorem within_ofFiles (hclean : Cleaned bundle) (hs : ImportClosed bundle s)
    (hread : ∀ file ∈ s, ∃ path, bundle.read? path = some file) :
    Within bundle s (ofFiles bundle (load bundle).1).read := by
  have hstays : ∀ file ∈ s, StaysIn bundle s (routesOf bundle file) := fun file hfile =>
    (hread file hfile).elim fun _ hpath => staysIn_routesOf hclean hs hfile hpath
  have hgiven : Within bundle s (givenGraph bundle (load bundle).1).read := by
    refine List.foldlRecOn (motive := fun g : RouterGraph => Within bundle s g.read) _ _ ?_ fun g hg file hfile => ?_
    · exact fun _ he => absurd he List.not_mem_nil
    · rw [load_fst] at hfile
      obtain ⟨path, hpath, hfound⟩ := List.mem_filterMap.mp hfile
      exact within_add (hs.given path hpath file hfound) hg
  refine within_settle hstays (fun routes hroutes => ?_) hgiven
  obtain ⟨e, he, rfl⟩ := List.mem_map.mp hroutes
  obtain ⟨file, hfile, rfl⟩ := hgiven e he
  exact ⟨file, hfile, rfl⟩

/-! ## Each once -/

/-- **The pending files are worked off**, and those that are read on the way. -/
theorem visits_settle (pending : List FileRoutes) (g : RouterGraph) :
    Visits bundle pending g (visited bundle pending g) (settle bundle pending g) := by
  induction pending, g using settle.induct bundle with
  | case1 g =>
    rw [visited_nil, settle]
    exact .done g
  | case2 routes pending g after ih =>
    rw [visited_cons, settle_cons]
    exact .visit ih

end RouterGraph

/-! ## Nothing less

The files that every closed set has are a closed set themselves.  What was read lies within it and
is closed, so it is this set. -/

/-- The files that every closed set has, as far as they can be read. -/
def neededFiles (bundle : Bundle) : Set File :=
  {file | (∃ path, bundle.read? path = some file) ∧ ∀ s, ImportClosed bundle s → file ∈ s}

/-- The file behind an imported name can be read. -/
theorem exists_of_fileBehind? {file target : File} {name : String}
    (h : fileBehind? bundle file name = some target) : ∃ path, bundle.read? path = some target := by
  obtain ⟨origin, -, htarget⟩ := Option.bind_eq_some_iff.mp h
  obtain ⟨path, -, hread⟩ := Option.bind_eq_some_iff.mp htarget
  exact ⟨path, hread⟩

/-- What every closed set has is a closed set. -/
theorem importClosed_neededFiles (bundle : Bundle) : ImportClosed bundle (neededFiles bundle) where
  given path hpath file hread := ⟨⟨path, hread⟩, fun _ hs => hs.given path hpath file hread⟩
  leads file hfile target hleads := by
    obtain ⟨name, hname, hbehind⟩ := hleads
    exact ⟨exists_of_fileBehind? hbehind, fun s hs =>
      hs.leads file (hfile.2 s hs) target ⟨name, hname, hbehind⟩⟩

/-- What was read is the routes of some files, in order. -/
theorem exists_files {s : Set File} {read : Dict FileRoutes} (h : Within bundle s read) :
    ∃ files : List File, (∀ file ∈ files, file ∈ s) ∧
      read = files.map fun file => (file.path.text, routesOf bundle file) := by
  induction read with
  | nil => exact ⟨[], fun _ h => absurd h List.not_mem_nil, rfl⟩
  | cons e read ih =>
    obtain ⟨file, hfile, he⟩ := h e (List.mem_cons_self ..)
    obtain ⟨files, hfiles, hread⟩ := ih fun other hother => h other (List.mem_cons_of_mem _ hother)
    refine ⟨file :: files, fun other hother => ?_, by rw [he, hread, List.map_cons]⟩
    rcases List.mem_cons.mp hother with rfl | hother
    · exact hfile
    · exact hfiles other hother

section

variable (hclean : Cleaned bundle) {files : List File} {read : Dict FileRoutes}
  (hfiles : ∀ file ∈ files, ∃ path, bundle.read? path = some file)
  (hread : read = files.map fun file => (file.path.text, routesOf bundle file))
include hclean hfiles hread

/-- **The text of a path tells which file was read.** -/
theorem mem_of_mem_keys {path : Location} {file : File} (h : bundle.read? path = some file)
    (hkey : file.path.text ∈ Dict.keys read) : file ∈ files := by
  rw [hread, Dict.keys, List.map_map] at hkey
  obtain ⟨other, hother, htext⟩ := List.mem_map.mp hkey
  obtain ⟨place, hplace⟩ := hfiles other hother
  have htext : other.path.text = file.path.text := htext
  have hfound := read?_clean hclean h
  rw [← htext, read?_clean hclean hplace] at hfound
  exact Option.some.inj hfound ▸ hother

/-- **The files that were read are a closed set.** A given file is among the listed ones that were
    read, and whatever a file that was read leads to has been followed, by the completeness of the
    reading. -/
theorem importClosed_files (hcomplete : Complete bundle (load bundle).1 read) :
    ImportClosed bundle {file | file ∈ files} := by
  constructor
  case given =>
    intro path hpath file hfile
    refine mem_of_mem_keys hclean hfiles hread hfile (hcomplete.given file ?_)
    rw [load_fst]
    exact List.mem_filterMap.mpr ⟨path, hpath, hfile⟩
  case leads =>
    rintro file hfile target ⟨name, hname, hbehind⟩
    obtain ⟨place, hplace⟩ := hfiles file hfile
    obtain ⟨path, htarget⟩ := exists_of_fileBehind? hbehind
    have hroutes : routesOf bundle file ∈ Dict.values read := by
      rw [hread, Dict.values, List.map_map]
      exact List.mem_map_of_mem hfile
    have hfollowed := hcomplete.followed _ hroutes
    have hknown : Known bundle read (routesOf bundle file) name := by
      rcases hname with himported | ⟨m, hm, rfl, hlocal⟩
      · exact hfollowed.imported name himported
      · exact hfollowed.mounted m hm hlocal
    rw [fileBehind?_eq hclean hplace, Option.map_eq_some_iff] at hbehind
    obtain ⟨⟨found, there⟩, horigin, rfl⟩ := hbehind
    exact mem_of_mem_keys hclean hfiles hread htarget (hknown found there horigin)

end

/-! ## The closure

The files that were read are the least set that has the given files and whatever they lead to; and
as none is read twice, there are no more of them than there are files. -/

/-- Files that bear different paths are no more than the bundle has. -/
theorem length_le_of_nodup {files : List File}
    (hfiles : ∀ file ∈ files, ∃ path, bundle.read? path = some file)
    (honce : (files.map (·.path)).Nodup) : files.length ≤ bundle.files.length := by
  have hsub : files.map (·.path) ⊆ bundle.files.map (·.1) := by
    intro path hpath
    obtain ⟨file, hfile, rfl⟩ := List.mem_map.mp hpath
    obtain ⟨place, hplace⟩ := hfiles file hfile
    obtain ⟨rfl, hmem⟩ := Bundle.read?_eq_some hplace
    exact hmem
  have hlength := (honce.subperm hsub).length_le
  rwa [List.length_map, List.length_map] at hlength

/-- **The files that are read are the least set with the given files and all that its files lead to**,
    also where imports go round in circles; each of them is read and visited once. -/
theorem isClosure_ofFiles (bundle : Bundle) (hclean : Cleaned bundle) :
    ∃ files, IsClosure bundle files (RouterGraph.ofFiles bundle (load bundle).1) := by
  have hfinished := RouterGraph.finished_ofFiles bundle (load bundle).1
  have hwithin := RouterGraph.within_ofFiles hclean (importClosed_neededFiles bundle) fun _ h => h.1
  obtain ⟨files, hneeded, hread⟩ := exists_files hwithin
  have hfiles : ∀ file ∈ files, ∃ path, bundle.read? path = some file :=
    fun file hfile => (hneeded file hfile).1
  have hvalues : Dict.values (RouterGraph.ofFiles bundle (load bundle).1).read
      = files.map (routesOf bundle) := by
    rw [hread, Dict.values, List.map_map]
    rfl
  -- two files with one path would stand under one key
  have honce : (files.map (·.path)).Nodup := by
    have hkeys := hfinished.complete.nodup
    rw [hread, Dict.keys, List.map_map] at hkeys
    refine List.Nodup.of_map Location.text ?_
    rw [List.map_map]
    exact hkeys
  refine ⟨files, ?_⟩
  constructor
  case least =>
    exact ⟨importClosed_files hclean hfiles hread hfinished.complete,
      fun s hs file hfile => (hneeded file hfile).2 s hs⟩
  case once => exact honce
  case read_eq => exact hread
  case visits =>
    rw [← hvalues]
    have hvisits : Visits bundle _ (givenGraph bundle (load bundle).1) _ _ :=
      RouterGraph.visits_settle (Dict.values (givenGraph bundle (load bundle).1).read) _
    rw [RouterGraph.visited_values] at hvisits
    exact hvisits
  case bounded => exact length_le_of_nodup hfiles honce
  case mounts_eq =>
    rw [hfinished.mounts_eq, hvalues, List.flatMap_map]

/-- Two files that mount each other's routers, one that the second of them mounts too, and one that
    none of them mentions.  Only the first is searched. -/
def importCircle : Bundle where
  paths := [⟨"", ["main.ts"]⟩, ⟨"", ["gone.ts"]⟩]
  files := [
    RouterGraph.sourceFile "main.ts" [("Hono", ⟨"hono", "Hono"⟩), ("users", ⟨"./users", "users"⟩)]
      [("app", "app")] ["app"] [mounting "app" "/users" "users"],
    RouterGraph.sourceFile "users.ts" [("Hono", ⟨"hono", "Hono"⟩), ("app", ⟨"./main", "app"⟩),
        ("audit", ⟨"./audit", "audit"⟩)]
      [("users", "users")] ["users"]
      [mounting "users" "/back" "app", mounting "users" "/audit" "audit"],
    RouterGraph.sourceFile "audit.ts" [("Hono", ⟨"hono", "Hono"⟩)] [("audit", "audit")] ["audit"] [],
    RouterGraph.sourceFile "other.ts" [("Hono", ⟨"hono", "Hono"⟩)] [] ["other"] []].map
      fun file => (file.path, .ok file)
where
  /-- A call that mounts the child at a path. -/
  mounting (parent path child : String) : Syntax.Node :=
    RouterGraph.callOn parent "route"
      [RouterGraph.quoted path, Syntax.Node.leaf "identifier" "" child]

/-- Two files that import each other are both read, once. -/
theorem isClosure_ofFiles_importCircle : Cleaned importCircle ∧
    ∃ files, IsClosure importCircle files
      (RouterGraph.ofFiles importCircle (load importCircle).1) := by
  have hclean : Cleaned importCircle := by
    have htexts : ∀ path ∈ importCircle.files.map (·.1), Location.clean path.text = path := by
      decide +kernel
    exact fun path hpath => ⟨path.text, htexts path hpath⟩
  exact ⟨hclean, isClosure_ofFiles importCircle hclean⟩

-- the mounts of `users.ts` are there, though it was read only on the way
example : (Dict.keys (RouterGraph.ofFiles importCircle (load importCircle).1).read,
      (RouterGraph.ofFiles importCircle (load importCircle).1).mounts.map
        fun m => (m.parent.name, m.child.name)) =
    (["main.ts", "users.ts", "audit.ts"],
      [("app", "users"), ("users", "app"), ("users", "audit")]) := by decide +kernel

end RouteAtlas.Survey
