/-
  What is read and noted when routers refer to each other across files.

  ==== Problem ====

  An imported receiver or a mounted name may stand for a router of another file.  That file is read
  when the name is met, and then its own imports and mounts have to be followed too.  What a name
  stands for is looked up while the reading still goes on.

  ==== Program ====

  1. **Specification** - given all that was read in the end, `definedRouter?` says which router an
     imported name is, `redirectsOf` and `mountsOf` what one file has to say.  They look at the end of
     the reading only, and at no order.

  2. **One step** - a receiver, a mount, a file (`noted_addRedirect`, `noted_addMount`, `noted_visit`):
     each notes what the specification says, for everything that may be read later.

  3. **The whole reading** - the files that are visited are the files that were read, each once and
     in order (`noted_settle`), so all redirects and mounts are those of the specification
     (`redirects_ofFiles`, `mounts_ofFiles`).

  ==== The crux ====

  `Noted`: a look-up reads the file that it leads to, and what was read stays as it is.  So an answer
  given early is the answer that the finished reading gives.
-/
import Mathlib.Data.List.Basic
import Mathlib.Logic.Relation
import RouteAtlas.Endpoint.Survey
import RouteAtlas.Proofs.Json.Dictionary

namespace RouteAtlas.Survey

open Source (File Bundle Location)
open Convention (FileRoutes LocalMount)

/-! ## What files say about each other

Read off the final table of files, without regard to the order in which they were read. -/

/-- The file that an imported name comes from, and the name it has there. -/
def originOf? (bundle : Bundle) (routes : FileRoutes) (name : String) : Option (File × String) := do
  let file ← bundle.read? (Location.clean routes.file)
  let origin ← Dict.get? file.imports name
  let target ← bundle.importedFile? file origin.specifier
  return (target, (Dict.get? target.exports origin.name).getD origin.name)

/-- A name comes from the file that an import of its own file leads to. -/
theorem exists_of_originOf? {bundle : Bundle} {routes : FileRoutes} {name there : String}
    {target : File} (h : originOf? bundle routes name = some (target, there)) :
    ∃ file origin, bundle.read? (Location.clean routes.file) = some file ∧
      Dict.get? file.imports name = some origin ∧
      bundle.importedFile? file origin.specifier = some target := by
  unfold originOf? at h
  simp only [Option.bind_eq_bind, Option.bind_eq_some_iff] at h
  obtain ⟨file, hfile, origin, horigin, found, hfound, hpair⟩ := h
  cases hpair
  exact ⟨file, origin, hfile, horigin, hfound⟩

section

variable (bundle : Bundle) (read : Dict FileRoutes) (routes : FileRoutes)

/-- The router that an imported name is in the file that defines it. -/
def definedRouter? (name : String) : Option RouterId := do
  let (target, there) ← originOf? bundle routes name
  let found ← Dict.get? read target.path.text
  (found.routerNamed? there).map (⟨found.file, ·⟩)

/-- The router that a mounted name stands for. -/
def mountedRouter? (name : String) : Option RouterId :=
  match routes.routerNamed? name with
  | some known => some ⟨routes.file, known⟩
  | none => definedRouter? bundle read routes name

/-- A mount of a file, if its child is a router. -/
def mountOf? (m : LocalMount) : Option (Route.Mount RouterId) :=
  (mountedRouter? bundle read routes m.child).map
    (⟨⟨routes.file, (routes.routerNamed? m.parent).getD m.parent⟩, ·, m.path⟩)

/-- The imported receivers of a file, and which routers they are. -/
def redirectsOf : List (RouterId × Option RouterId) :=
  routes.imported.map fun name => (⟨routes.file, name⟩, definedRouter? bundle read routes name)

/-- The mounts of a file whose children are routers. -/
def mountsOf : List (Route.Mount RouterId) := routes.mounts.filterMap (mountOf? bundle read routes)

/-- The file that a name comes from was read. -/
def Known (name : String) : Prop :=
  ∀ target there, originOf? bundle routes name = some (target, there) →
    target.path.text ∈ Dict.keys read

/-- The files behind all imported receivers and mounted names of a file were read. -/
structure Followed : Prop where
  imported : ∀ name ∈ routes.imported, Known bundle read routes name
  mounted : ∀ m ∈ routes.mounts, routes.routerNamed? m.child = none → Known bundle read routes m.child

end

/-! ## Reading files

The table of files only grows, at its end, and each file is read once. -/

/-- The files there are: some given ones, and those of the bundle. -/
def Available (bundle : Bundle) (files : List File) (file : File) : Prop :=
  file ∈ files ∨ ∃ path, bundle.read? path = some file

/-- One more file is read. -/
def ReadsOne (bundle : Bundle) (files : List File) (read later : Dict FileRoutes) : Prop :=
  ∃ file, Available bundle files file ∧ file.path.text ∉ Dict.keys read ∧
    later = read ++ [(file.path.text, Convention.Fluent.routesOf bundle file)]

/-- Some more files are read. -/
def Reads (bundle : Bundle) (files : List File) : Dict FileRoutes → Dict FileRoutes → Prop :=
  Relation.ReflTransGen (ReadsOne bundle files)

variable {bundle : Bundle} {files : List File}

/-- What was read stays in front. -/
theorem Reads.isPrefix {read later : Dict FileRoutes} (h : Reads bundle files read later) :
    read <+: later := by
  induction h with
  | refl => exact List.prefix_refl _
  | tail _ hone ih =>
    obtain ⟨file, -, -, rfl⟩ := hone
    exact ih.trans (List.prefix_append ..)

/-- **Every entry is what a file says**, under the path of the file, and each path is read once. -/
theorem Reads.faithful {read : Dict FileRoutes} (h : Reads bundle files [] read) :
    (Dict.keys read).Nodup ∧ ∀ e ∈ read, ∃ file, Available bundle files file ∧
      e = (file.path.text, Convention.Fluent.routesOf bundle file) := by
  induction h with
  | refl => exact ⟨List.nodup_nil, fun _ h => absurd h List.not_mem_nil⟩
  | tail _ hone ih =>
    obtain ⟨file, havailable, hfresh, rfl⟩ := hone
    constructor
    · rw [Dict.keys, List.map_append]
      refine List.nodup_append.mpr ⟨ih.1, by simp, fun key hkey other hother h => ?_⟩
      obtain rfl : other = file.path.text := List.mem_singleton.mp hother
      exact hfresh (h ▸ hkey)
    · intro e he
      rcases List.mem_append.mp he with he | he
      · exact ih.2 e he
      · exact ⟨file, havailable, List.mem_singleton.mp he⟩

/-- What was found is found later. -/
theorem get?_of_isPrefix {read later : Dict FileRoutes} (h : read <+: later) {key : String}
    {routes : FileRoutes} (hget : Dict.get? read key = some routes) :
    Dict.get? later key = some routes := by
  obtain ⟨rest, rfl⟩ := h
  rw [Dict.get?_append, hget]
  rfl

namespace RouterGraph

/-- A file that is read is found. -/
theorem get?_add (bundle : Bundle) (file : File) (g : RouterGraph) :
    Dict.get? (g.add bundle file).2.read file.path.text = some (g.add bundle file).1 := by
  unfold add
  cases hget : Dict.get? g.read file.path.text with
  | some routes => exact hget
  | none =>
    show Dict.get? (g.read ++ [_]) _ = _
    rw [Dict.get?_append, hget, Dict.get?_cons, if_pos (beq_self_eq_true _)]
    rfl

/-- Reading a file reads one more at most. -/
theorem reads_add {file : File} (h : Available bundle files file) (g : RouterGraph) :
    Reads bundle files g.read (g.add bundle file).2.read := by
  unfold add
  cases hget : Dict.get? g.read file.path.text with
  | some routes => exact .refl
  | none => exact .single ⟨file, h, Dict.get?_eq_none_iff.mp hget, rfl⟩

@[simp] theorem redirects_add (bundle : Bundle) (file : File) (g : RouterGraph) :
    (g.add bundle file).2.redirects = g.redirects := by
  unfold add
  split <;> rfl

@[simp] theorem mounts_add (bundle : Bundle) (file : File) (g : RouterGraph) :
    (g.add bundle file).2.mounts = g.mounts := by
  unfold add
  split <;> rfl

/-- A look-up reads the file that the name comes from. -/
theorem resolveImported_eq (bundle : Bundle) (routes : FileRoutes) (name : String) (g : RouterGraph) :
    g.resolveImported bundle routes name =
      match originOf? bundle routes name with
      | none => (none, g)
      | some (target, there) =>
        (((g.add bundle target).1.routerNamed? there).map (⟨(g.add bundle target).1.file, ·⟩),
          (g.add bundle target).2) := by
  unfold resolveImported originOf?
  cases bundle.read? (Location.clean routes.file) with
  | none => rfl
  | some file =>
    dsimp only
    cases himport : Dict.get? file.imports name with
    | none => simp [himport]
    | some origin =>
      cases htarget : bundle.importedFile? file origin.specifier with
      | none => simp [himport, htarget]
      | some target => simp [himport, htarget]

/-- The file that a name comes from is one there is. -/
theorem available_of_originOf? {routes : FileRoutes} {name there : String} {target : File}
    (h : originOf? bundle routes name = some (target, there)) : Available bundle files target := by
  obtain ⟨file, origin, -, -, htarget⟩ := exists_of_originOf? h
  obtain ⟨path, -, hread⟩ := Option.bind_eq_some_iff.mp htarget
  exact .inr ⟨path, hread⟩

end RouterGraph

/-! ## Taking notes

The graph notes redirects and mounts while files are being read.  `Noted` says what is noted in
terms of the final table, so that notes taken early and late add up. -/

/-- On the way from one graph to another some files are read, some redirects and mounts noted, and
    something becomes known.  What that is may be told by anything read later. -/
structure Noted (bundle : Bundle) (files : List File) (g h : RouterGraph)
    (redirects : Dict FileRoutes → List (RouterId × Option RouterId))
    (mounts : Dict FileRoutes → List (Route.Mount RouterId)) (known : Dict FileRoutes → Prop) :
    Prop where
  reads : Reads bundle files g.read h.read
  redirects_eq : ∀ read, h.read <+: read →
    h.redirects = Dict.putAll g.redirects (redirects read)
  mounts_eq : ∀ read, h.read <+: read → h.mounts = g.mounts ++ mounts read
  known : ∀ read, h.read <+: read → known read

namespace Noted

variable {g h i : RouterGraph}
  {redirects redirects' : Dict FileRoutes → List (RouterId × Option RouterId)}
  {mounts mounts' : Dict FileRoutes → List (Route.Mount RouterId)}
  {known known' : Dict FileRoutes → Prop}

/-- Doing nothing notes nothing. -/
theorem refl (bundle : Bundle) (files : List File) (g : RouterGraph) :
    Noted bundle files g g (fun _ => []) (fun _ => []) (fun _ => True) where
  reads := .refl
  redirects_eq _ _ := rfl
  mounts_eq _ _ := (List.append_nil _).symm
  known _ _ := trivial

/-- Notes add up. -/
theorem trans (first : Noted bundle files g h redirects mounts known)
    (second : Noted bundle files h i redirects' mounts' known') :
    Noted bundle files g i (fun read => redirects read ++ redirects' read)
      (fun read => mounts read ++ mounts' read) (fun read => known read ∧ known' read) where
  reads := first.reads.trans second.reads
  redirects_eq read hread := by
    have hearlier := second.reads.isPrefix.trans hread
    rw [second.redirects_eq read hread, first.redirects_eq read hearlier, Dict.putAll_append]
  mounts_eq read hread := by
    have hearlier := second.reads.isPrefix.trans hread
    rw [second.mounts_eq read hread, first.mounts_eq read hearlier, List.append_assoc]
  known read hread := ⟨first.known read (second.reads.isPrefix.trans hread), second.known read hread⟩

/-- The same notes in other words. -/
theorem congr (hnoted : Noted bundle files g h redirects mounts known)
    (hredirects : ∀ read, redirects read = redirects' read)
    (hmounts : ∀ read, mounts read = mounts' read) (hknown : ∀ read, known read → known' read) :
    Noted bundle files g h redirects' mounts' known' where
  reads := hnoted.reads
  redirects_eq read hread := hredirects read ▸ hnoted.redirects_eq read hread
  mounts_eq read hread := hmounts read ▸ hnoted.mounts_eq read hread
  known read hread := hknown read (hnoted.known read hread)

/-- **Many steps** note what each of them notes, in order. -/
theorem foldl {β : Type} {step : RouterGraph → β → RouterGraph}
    {redirects : β → Dict FileRoutes → List (RouterId × Option RouterId)}
    {mounts : β → Dict FileRoutes → List (Route.Mount RouterId)}
    {known : β → Dict FileRoutes → Prop}
    (l : List β)
    (hstep : ∀ g, ∀ x ∈ l, Noted bundle files g (step g x) (redirects x) (mounts x) (known x))
    (g : RouterGraph) :
    Noted bundle files g (l.foldl step g) (fun read => l.flatMap (redirects · read))
      (fun read => l.flatMap (mounts · read)) (fun read => ∀ x ∈ l, known x read) := by
  induction l generalizing g with
  | nil => exact (refl bundle files g).congr (fun _ => rfl) (fun _ => rfl) fun _ _ _ hx => by cases hx
  | cons x l ih =>
    have hhead := hstep g x (List.mem_cons_self ..)
    have htail := ih (fun g y hy => hstep g y (List.mem_cons_of_mem _ hy)) (step g x)
    refine (hhead.trans htail).congr (fun _ => rfl) (fun _ => rfl) ?_
    intro read hknown y hy
    rcases List.mem_cons.mp hy with rfl | hy
    · exact hknown.1
    · exact hknown.2 y hy

end Noted

namespace RouterGraph

variable (bundle files) (routes : FileRoutes)

/-- **A look-up gives the router that the finished reading defines**, and has read its file.  What
    is added to the files that were read stays there, so a later reading finds the same router. -/
theorem resolveImported_spec (name : String) (g : RouterGraph) :
    let resolved := g.resolveImported bundle routes name
    Reads bundle files g.read resolved.2.read ∧ resolved.2.redirects = g.redirects ∧
      resolved.2.mounts = g.mounts ∧
      ∀ read, resolved.2.read <+: read →
        resolved.1 = definedRouter? bundle read routes name ∧ Known bundle read routes name := by
  dsimp only
  rw [resolveImported_eq]
  unfold definedRouter? Known
  cases horigin : originOf? bundle routes name with
  | none => exact ⟨.refl, rfl, rfl, fun _ _ => ⟨rfl, fun _ _ h => absurd h.symm (Option.some_ne_none _)⟩⟩
  | some origin =>
    obtain ⟨target, there⟩ := origin
    refine ⟨reads_add (available_of_originOf? horigin) g, redirects_add .., mounts_add ..,
      fun read hread => ?_⟩
    have hget := get?_of_isPrefix hread (get?_add bundle target g)
    constructor
    · show _ = (Dict.get? read target.path.text).bind _
      rw [hget]
      rfl
    · intro target' there' h
      cases h
      exact Dict.mem_keys_of_get? hget

/-- **An imported receiver** is noted with the router it is. -/
theorem noted_addRedirect (g : RouterGraph) (name : String) :
    Noted bundle files g (g.addRedirect bundle routes name)
      (fun read => [(⟨routes.file, name⟩, definedRouter? bundle read routes name)]) (fun _ => [])
      (fun read => Known bundle read routes name) := by
  obtain ⟨hreads, hredirects, hmounts, hspec⟩ := resolveImported_spec bundle files routes name g
  constructor
  case reads => exact hreads
  case redirects_eq =>
    intro read hread
    show Dict.put _ _ _ = Dict.put _ _ _
    rw [hredirects, (hspec read hread).1]
  case mounts_eq => exact fun _ _ => hmounts.trans (List.append_nil _).symm
  case known => exact fun read hread => (hspec read hread).2

/-- **A mounted name** is looked up in its file first. -/
theorem resolveChild_spec (name : String) (g : RouterGraph) :
    let resolved := g.resolveChild bundle routes name
    Reads bundle files g.read resolved.2.read ∧ resolved.2.redirects = g.redirects ∧
      resolved.2.mounts = g.mounts ∧
      ∀ read, resolved.2.read <+: read →
        resolved.1 = mountedRouter? bundle read routes name ∧
        (routes.routerNamed? name = none → Known bundle read routes name) := by
  unfold resolveChild mountedRouter?
  cases routes.routerNamed? name with
  | some known => exact ⟨.refl, rfl, rfl, fun _ _ => ⟨rfl, fun h => absurd h (Option.some_ne_none _)⟩⟩
  | none =>
    obtain ⟨hreads, hredirects, hmounts, hspec⟩ := resolveImported_spec bundle files routes name g
    exact ⟨hreads, hredirects, hmounts, fun read hread =>
      ⟨(hspec read hread).1, fun _ => (hspec read hread).2⟩⟩

/-- **A mount** is noted if its child is a router.

    Whether the child is a router is settled by the finished reading, and looking it up is all that
    is done besides. -/
theorem noted_addMount (g : RouterGraph) (m : LocalMount) :
    Noted bundle files g (g.addMount bundle routes m) (fun _ => [])
      (fun read => (mountOf? bundle read routes m).toList)
      (fun read => routes.routerNamed? m.child = none → Known bundle read routes m.child) := by
  obtain ⟨hreads, hredirects, hmounts, hspec⟩ := resolveChild_spec bundle files routes m.child g
  unfold addMount mountOf?
  dsimp only
  cases hchild : (g.resolveChild bundle routes m.child).1 with
  | none =>
    constructor
    case reads => exact hreads
    case redirects_eq => exact fun _ _ => hredirects
    case mounts_eq =>
      intro read hread
      rw [← (hspec read hread).1, hchild]
      exact hmounts.trans (List.append_nil _).symm
    case known => exact fun read hread => (hspec read hread).2
  | some child =>
    constructor
    case reads => exact hreads
    case redirects_eq => exact fun _ _ => hredirects
    case mounts_eq =>
      intro read hread
      rw [← (hspec read hread).1, hchild]
      exact congrArg (· ++ _) hmounts
    case known => exact fun read hread => (hspec read hread).2

/-- **A file** is noted with all its receivers and mounts. -/
theorem noted_visit (g : RouterGraph) :
    Noted bundle files g (g.visit bundle routes) (redirectsOf bundle · routes) (mountsOf bundle · routes)
      (Followed bundle · routes) := by
  have himported := Noted.foldl routes.imported
    (fun g name _ => noted_addRedirect bundle files routes g name) g
  have hmounted := Noted.foldl routes.mounts
    (fun g m _ => noted_addMount bundle files routes g m)
    (routes.imported.foldl (addRedirect bundle routes) g)
  refine (himported.trans hmounted).congr (fun read => ?_) (fun read => ?_) fun read hknown => ?_
  · rw [List.flatMap_eq_nil_iff.mpr fun _ _ => rfl, List.append_nil]
    exact List.map_eq_flatMap.symm
  · rw [List.flatMap_eq_nil_iff.mpr fun _ _ => rfl, List.nil_append]
    exact (List.filterMap_eq_flatMap_toList _ _).symm
  · exact ⟨hknown.1, hknown.2⟩

/-- Visiting the first pending file, and putting what it made known behind the others. -/
theorem settle_cons (bundle : Bundle) (routes : FileRoutes) (pending : List FileRoutes)
    (g : RouterGraph) :
    settle bundle (routes :: pending) g =
      settle bundle (pending ++ Dict.values ((g.visit bundle routes).read.drop g.read.length))
        (g.visit bundle routes) := by
  rw [settle]

/-- Working off pending files reads some more. -/
theorem reads_settle (pending : List FileRoutes) (g : RouterGraph) :
    Reads bundle files g.read (settle bundle pending g).read := by
  induction pending, g using settle.induct bundle with
  | case1 g =>
    rw [settle]
    exact .refl
  | case2 routes pending g after ih =>
    rw [settle_cons]
    exact (noted_visit bundle files routes g).reads.trans ih

/-- The files that are visited: the pending ones, and those read on the way. -/
def visited (pending : List FileRoutes) (g : RouterGraph) : List FileRoutes :=
  pending ++ Dict.values ((settle bundle pending g).read.drop g.read.length)

/-- Where nothing is pending, nothing is visited. -/
theorem visited_nil (g : RouterGraph) : visited bundle [] g = [] := by
  simp [visited, settle, Dict.values]

/-- One file is visited, and then the pending ones with those that it added. -/
theorem visited_cons (pending : List FileRoutes) (g : RouterGraph) :
    visited bundle (routes :: pending) g =
      routes :: visited bundle
        (pending ++ Dict.values ((g.visit bundle routes).read.drop g.read.length))
        (g.visit bundle routes) := by
  unfold visited
  rw [settle_cons]
  generalize hpending : pending ++ Dict.values ((g.visit bundle routes).read.drop g.read.length)
    = pending'
  obtain ⟨added, hadded⟩ := (noted_visit bundle [] routes g).reads.isPrefix
  obtain ⟨more, hmore⟩ := (reads_settle bundle [] pending' (g.visit bundle routes)).isPrefix
  rw [← hmore, List.drop_left, ← hpending, ← hadded, List.append_assoc, List.drop_left,
    List.drop_left]
  simp [Dict.values]

/-- Where all that was read is pending, all that is read in the end is visited. -/
theorem visited_values (g : RouterGraph) : visited bundle (Dict.values g.read) g =
    Dict.values (settle bundle (Dict.values g.read) g).read := by
  obtain ⟨added, hadded⟩ := (reads_settle bundle [] (Dict.values g.read) g).isPrefix
  unfold visited
  rw [← hadded, List.drop_left]
  exact List.map_append.symm

/-- **The whole reading** notes what the visited files have to say. -/
theorem noted_settle (pending : List FileRoutes) (g : RouterGraph) :
    Noted bundle files g (settle bundle pending g)
      (fun read => (visited bundle pending g).flatMap (redirectsOf bundle read))
      (fun read => (visited bundle pending g).flatMap (mountsOf bundle read))
      (fun read => ∀ routes ∈ visited bundle pending g, Followed bundle read routes) := by
  induction pending, g using settle.induct bundle with
  | case1 g =>
    rw [visited_nil, settle]
    exact (Noted.refl bundle files g).congr (fun _ => rfl) (fun _ => rfl) fun _ _ _ h =>
      absurd h List.not_mem_nil
  | case2 routes pending g after ih =>
    rw [settle_cons, visited_cons]
    refine ((noted_visit bundle files routes g).trans ih).congr (fun _ => rfl) (fun _ => rfl) ?_
    intro read hknown other hother
    rcases List.mem_cons.mp hother with rfl | hother
    · exact hknown.1
    · exact hknown.2 other hother

end RouterGraph

/-! ## From some files on

A reading begins with the given files, in their order, and follows what each of them mentions.  The
invariant says what has been noted so far and that nothing is missing that was asked for. -/

/-- All that some files lead to was read, each file once and as it is. -/
structure Complete (bundle : Bundle) (files : List File) (read : Dict FileRoutes) : Prop where
  nodup : (Dict.keys read).Nodup
  faithful : ∀ e ∈ read, ∃ file, Available bundle files file ∧
    e = (file.path.text, Convention.Fluent.routesOf bundle file)
  given : ∀ file ∈ files, file.path.text ∈ Dict.keys read
  followed : ∀ routes ∈ Dict.values read, Followed bundle read routes

/-- A graph that is complete, with the redirects and mounts of all that was read. -/
structure Finished (bundle : Bundle) (files : List File) (g : RouterGraph) : Prop where
  complete : Complete bundle files g.read
  redirects_eq : g.redirects = Dict.ofList ((Dict.values g.read).flatMap (redirectsOf bundle g.read))
  mounts_eq : g.mounts = (Dict.values g.read).flatMap (mountsOf bundle g.read)

namespace RouterGraph

variable (bundle files)

/-- Reading a file notes nothing but the file. -/
theorem noted_add {file : File} (hfile : Available bundle files file) (g : RouterGraph) :
    Noted bundle files g (g.add bundle file).2 (fun _ => []) (fun _ => [])
      (fun read => file.path.text ∈ Dict.keys read) := by
  constructor
  case reads => exact reads_add hfile g
  case redirects_eq => exact fun _ _ => redirects_add bundle file g
  case mounts_eq => exact fun _ _ => (mounts_add bundle file g).trans (List.append_nil _).symm
  case known =>
    intro read hread
    exact Dict.mem_keys_of_get? (get?_of_isPrefix hread (get?_add bundle file g))

/-- **From some files on**, every file that is read is visited. -/
theorem noted_ofFiles :
    Noted bundle files {} (ofFiles bundle files)
      (fun read => (Dict.values (ofFiles bundle files).read).flatMap (redirectsOf bundle read))
      (fun read => (Dict.values (ofFiles bundle files).read).flatMap (mountsOf bundle read))
      (fun read => (∀ file ∈ files, file.path.text ∈ Dict.keys read) ∧
        ∀ routes ∈ Dict.values (ofFiles bundle files).read, Followed bundle read routes) := by
  have hgiven := Noted.foldl files
    (fun g file hfile => noted_add bundle files (.inl hfile) g) ({} : RouterGraph)
  unfold ofFiles
  generalize files.foldl (fun g file => (g.add bundle file).2) ({} : RouterGraph) = start at *
  dsimp only
  have hsettled := noted_settle bundle files (Dict.values start.read) start
  rw [visited_values] at hsettled
  refine (hgiven.trans hsettled).congr (fun read => ?_) (fun read => ?_) fun _ h => h
  · rw [List.flatMap_eq_nil_iff.mpr fun _ _ => rfl, List.nil_append]
  · rw [List.flatMap_eq_nil_iff.mpr fun _ _ => rfl, List.nil_append]

/-- **The graph of some files is finished.** -/
theorem finished_ofFiles : Finished bundle files (ofFiles bundle files) := by
  have hnoted := noted_ofFiles bundle files
  have hknown := hnoted.known _ (List.prefix_refl _)
  obtain ⟨hnodup, hfaithful⟩ := hnoted.reads.faithful
  exact ⟨⟨hnodup, hfaithful, hknown.1, hknown.2⟩, hnoted.redirects_eq _ (List.prefix_refl _),
    hnoted.mounts_eq _ (List.prefix_refl _)⟩

end RouterGraph

end RouteAtlas.Survey
