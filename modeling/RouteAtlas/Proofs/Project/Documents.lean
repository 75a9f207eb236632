/-
  The documents of a project over many runs.

  ==== Problem ====

  What is proved of merging is proved of documents, one merged into the other.  The program has files:
  a run reads two of them, merges what it synthesizes into each, and writes them again.  From one run to
  the next anything else may change, the sources above all.

  ==== Program ====

  1. **One file** - a document is read from the text of a file (`Tree.documentAt?`), and `update` merges
     into the one that is read and writes what comes out (`update_run`).

  2. **One run** - the endpoints are gathered, each key once (`nodup_keys_of_gather`), both documents are
     updated (`documents_of_updates`), and last the collection is sent.  Sending touches no file, so
     the documents are written whatever comes of it (`tree_sync`).

  3. **Many runs** - each begins with the documents that the one before has written (`Runs`), so the
     files go through the merges one after the other: those of `Postman.syncs` in the one, those of
     `Insomnia.syncs` in the other (`Runs.syncs`).

  ==== The crux ====

  Neither document gets into the other's way.  Writing the collection may make directories, and the
  export is read after that; but a path that does not go up leads to the file under it, and no
  directory changes that (`Tree.file?_of_plain`).

  That the text of a document is read back as the document is asked of the documents that are written
  (`ReadsBack`).
-/
import RouteAtlas.Project.Sync
import RouteAtlas.Proofs.Endpoint.Deduplication
import RouteAtlas.Proofs.Insomnia.Run
import RouteAtlas.Proofs.Postman.Run
import RouteAtlas.Proofs.Project.Tree

namespace RouteAtlas.Project

open Source (Location)

/-! ## The document in a file

A run reads the document that it wrote the time before, and a file that holds no object counts as
none. -/

/-- The document that a file's text is, if it is one. -/
def Entry.document? (entry : Entry) : Option (Dict Json) :=
  match entry.text with
  | .error _ => none
  | .ok text =>
    match Json.read (Text.unifyLines text).toList with
    | .ok (.obj fields) => some fields
    | _ => none

/-- The document in the file that a path leads to. -/
def Tree.documentAt? (t : Tree) (path : Location) : Option (Dict Json) :=
  (t.file? path).bind Entry.document?

/-- The document that a run merges into is the one in the file. -/
theorem existingDocument_fst (t : Tree) (path : Location) :
    (existingDocument t path).1 = t.documentAt? path := by
  unfold existingDocument Tree.read? Tree.documentAt?
  cases t.file? path with
  | none => cases t.isDir path <;> rfl
  | some entry =>
    obtain ⟨text, tree, settings⟩ := entry
    cases text with
    | error fault => rfl
    | ok text =>
      show _ = Entry.document? ⟨.ok text, tree, settings⟩
      unfold Entry.document?
      dsimp only
      cases Json.read (Text.unifyLines text).toList with
      | error fault => rfl
      | ok value => cases value <;> rfl

/-- The text of a document is read back as the document. -/
def ReadsBack (document : Dict Json) : Prop :=
  Json.read (Text.unifyLines (documentText document)).toList = .ok (.obj document)

/-- A file with the text of a document holds the document. -/
theorem document?_of_readsBack {document : Dict Json} (h : ReadsBack document) :
    Entry.document? { text := .ok (documentText document) } = some document := by
  rw [ReadsBack] at h
  rw [Entry.document?]
  dsimp only
  rw [h]

/-! ## Steps of a run

A run keeps the files, and what it has sent, as a state, and may stop with a fault at any step. -/

namespace Run

variable {α β : Type} {world after : World}

/-- A step that fails ends the run; after one that succeeds the next one begins in the world it
    left. -/
theorem run_bind (x : Run α) (f : α → Run β) (world : World) :
    (x >>= f).run.run world = match x.run.run world with
      | (.ok a, mid) => (f a).run.run mid
      | (.error failure, mid) => (.error failure, mid) := by
  rw [ExceptT.run_bind, StateT.run_bind]
  obtain ⟨result, mid⟩ := x.run.run world
  cases result <;> rfl

theorem get_bind (f : World → Run β) (world : World) :
    (get >>= f).run.run world = (f world).run.run world := rfl

theorem ofExcept_bind (a : α) (f : α → Run β) : (Run.ofExcept (.ok a) >>= f) = f a := rfl

/-- A step and then another one: both have to succeed, and the second begins where the first one
    ends. -/
theorem bind_eq_ok_iff {x : Run α} {f : α → Run β} {b : β} :
    (x >>= f).run.run world = (.ok b, after) ↔
      ∃ a mid, x.run.run world = (.ok a, mid) ∧ (f a).run.run mid = (.ok b, after) := by
  rw [run_bind]
  obtain ⟨result, mid⟩ := x.run.run world
  cases result with
  | error failure =>
    refine ⟨fun h => ?_, ?_⟩
    · cases h
    · rintro ⟨a, mid', h, -⟩
      cases h
  | ok a =>
    refine ⟨fun h => ⟨a, mid, rfl, h⟩, ?_⟩
    rintro ⟨a', mid', h, hrest⟩
    cases h
    exact hrest

/-- A step that only computes leaves the world as it was. -/
theorem ofExcept_eq_ok_iff {value : Except Failure α} {a : α} :
    (Run.ofExcept value).run.run world = (.ok a, after) ↔ value = .ok a ∧ world = after := by
  show (value, world) = (Except.ok a, after) ↔ _
  rw [Prod.mk.injEq]

end Run

/-! ## One document

What an update does to the tree of files: it reads the document, merges, and writes. -/

/-- What a report says after an update: the warnings about the file that was there, and the file that was
    written. -/
def Report.updated (report : Report) (warnings : List String) (path : Location) : Report :=
  let report := warnings.foldl Report.warn report
  { report with written := report.written ++ [path.text] }

/-- Warnings say nothing of the endpoints. -/
theorem Report.endpoints_updated (report : Report) (warnings : List String) (path : Location) :
    (report.updated warnings path).endpoints = report.endpoints := by
  show (warnings.foldl Report.warn report).endpoints = report.endpoints
  induction warnings generalizing report with
  | nil => rfl
  | cons warning warnings ih => exact ih (report.warn warning)

/-- **All that an update does.**  It merges into the document in the file and writes what comes out.  When
    either fails, the world is as it was. -/
theorem update_run (path : Location) (report : Report)
    (merge : Option (Dict Json) → Except Persisted.Fault (Dict Json)) (world : World) :
    (update path report merge).run.run world =
      match merge (world.tree.documentAt? path) with
      | .error fault => (.error (.document fault), world)
      | .ok document =>
        match world.tree.write path (documentText document) with
        | .error fault => (.error (.path fault), world)
        | .ok tree =>
          (.ok (document, report.updated (existingDocument world.tree path).2 path),
            { world with tree }) := by
  rw [← existingDocument_fst, update, Run.get_bind]
  obtain ⟨existing, warnings⟩ := existingDocument world.tree path
  dsimp only
  cases merge existing with
  | error fault => rfl
  | ok document =>
    dsimp only [Except.mapError]
    rw [Run.ofExcept_bind, Run.get_bind]
    cases world.tree.write path (documentText document) <;> rfl

/-- What an update that succeeds leaves behind. -/
structure Updated (path : Location) (merge : Option (Dict Json) → Except Persisted.Fault (Dict Json))
    (report : Report) (world : World) (document : Dict Json) (later : Report) (after : World) : Prop where
  merged : merge (world.tree.documentAt? path) = .ok document
  written : world.tree.write path (documentText document) = .ok after.tree
  sent_eq : after.sent = world.sent
  endpoints_eq : later.endpoints = report.endpoints

/-- An update that succeeds has written what was merged. -/
theorem updated_of_update {path : Location} {report later : Report}
    {merge : Option (Dict Json) → Except Persisted.Fault (Dict Json)} {world after : World}
    {document : Dict Json}
    (h : (update path report merge).run.run world = (.ok (document, later), after)) :
    Updated path merge report world document later after := by
  rw [update_run] at h
  split at h
  · cases h
  · rename_i document' hmerge
    split at h
    · cases h
    · rename_i tree hwrite
      cases h
      exact ⟨hmerge, hwrite, rfl, report.endpoints_updated _ path⟩

/-! ## The endpoints of a run -/

/-- **The endpoints of a run have keys of their own**, as the merges ask of fresh requests.  Where the
    files are makes no difference to a key. -/
theorem nodup_keys_of_gather {t : Tree} {root : Location} {settings : Settings} {asked : Option String}
    {report : Report} (h : gather t root settings asked = .ok report) :
    (report.endpoints.map Endpoint.key).Nodup := by
  obtain ⟨found, hfound, h⟩ := Persisted.bind_eq_ok_iff.mp h
  split at h
  · cases h
    exact List.nodup_nil
  · obtain ⟨framework, hframework, h⟩ := Persisted.bind_eq_ok_iff.mp h
    cases h
    rw [List.map_map]
    show ((Survey.run (t.bundle found.files) framework).endpoints.map Endpoint.key).Nodup
    rw [Survey.endpoints_run]
    exact Endpoint.nodup_deduplicate _

/-! ## One run -/

section

variable {around : Surroundings} {root : Location} {settings : Settings} {world after : World}
  {report later : Report}

/-- The collection is updated if it is wanted, and else nothing is done. -/
theorem of_updatePostman {sent : Option (Dict Json)}
    (h : (updatePostman around root settings report).run.run world = (.ok (sent, later), after)) :
    (settings.postman.enabled = false ∧ sent = none ∧ later = report ∧ after = world) ∨
    ∃ document, sent = some document ∧
      Updated (root.join (Location.ofText settings.postman.path))
        (fun existing => Postman.merge (Postman.document around.newId settings report.endpoints)
          existing settings.markDeprecated) report world document later after := by
  rw [updatePostman] at h
  cases hwanted : settings.postman.enabled with
  | false =>
    rw [hwanted] at h
    cases h
    exact .inl ⟨rfl, rfl, rfl, rfl⟩
  | true =>
    rw [hwanted] at h
    obtain ⟨⟨document, later'⟩, mid, hupdate, hpure⟩ := Run.bind_eq_ok_iff.mp h
    cases hpure
    exact .inr ⟨document, rfl, updated_of_update hupdate⟩

/-- The export is updated if it is wanted, and else nothing is done. -/
theorem of_updateInsomnia
    (h : (updateInsomnia around root settings report).run.run world = (.ok later, after)) :
    (settings.insomnia.enabled = false ∧ later = report ∧ after = world) ∨
    ∃ document, Updated (root.join (Location.ofText settings.insomnia.path))
      (fun existing => Insomnia.merge (Insomnia.document around.today settings report.endpoints)
        existing settings.markDeprecated) report world document later after := by
  rw [updateInsomnia] at h
  cases hwanted : settings.insomnia.enabled with
  | false =>
    rw [hwanted] at h
    cases h
    exact .inl ⟨rfl, rfl, rfl⟩
  | true =>
    rw [hwanted] at h
    obtain ⟨⟨document, later'⟩, mid, hupdate, hpure⟩ := Run.bind_eq_ok_iff.mp h
    cases hpure
    exact .inr ⟨document, updated_of_update hupdate⟩

/-- A run up to the point where the collection is sent. -/
def updates (around : Surroundings) (root : Location) (settings : Settings)
    (framework : Option String) : Run (Option (Dict Json) × Report) := do
  let report ← Run.ofExcept (gather (← get).tree root settings framework)
  let (document, report) ← updatePostman around root settings report
  return (document, ← updateInsomnia around root settings report)

/-- A run updates the documents, and then it sends the collection. -/
theorem sync_eq (framework key id : Option String) :
    sync around root settings framework key id =
      updates around root settings framework >>= fun (document, report) =>
        push around (firstGiven key settings.postman.apiKey)
          (firstGiven id settings.postman.collectionId) document report := by
  simp only [sync, updates, bind_assoc, pure_bind]

/-- Sending touches no file, whatever comes of it. -/
theorem tree_push (key id : String) (document : Option (Dict Json)) :
    ((push around key id document report).run.run world).2.tree = world.tree := by
  unfold push
  split
  · rfl
  · split
    · rfl
    · cases document with
      | none => rfl
      | some document =>
        dsimp only
        cases Cloud.read around.reply <;> rfl

/-- **The documents are written whatever comes of sending**: the files are those that the updates have
    left. -/
theorem tree_sync {framework key id : Option String} {result : Option (Dict Json) × Report}
    (h : (updates around root settings framework).run.run world = (.ok result, after)) :
    ((sync around root settings framework key id).run.run world).2.tree = after.tree := by
  rw [sync_eq, Run.run_bind, h]
  exact tree_push ..

/-- A run that succeeds has updated the documents. -/
theorem exists_updates_of_sync {framework key id : Option String}
    (h : (sync around root settings framework key id).run.run world = (.ok report, after)) :
    ∃ result mid, (updates around root settings framework).run.run world = (.ok result, mid) ∧
      after.tree = mid.tree := by
  have hsync := h
  rw [sync_eq] at hsync
  obtain ⟨result, mid, hupdates, -⟩ := Run.bind_eq_ok_iff.mp hsync
  refine ⟨result, mid, hupdates, ?_⟩
  rw [← tree_sync hupdates, h]

end

/-! ## Many runs

From one run to the next the document in the file goes through a merge.  By induction on the runs it
goes through all of them, which is what the merges of several documents are about. -/

/-- What the program is called with: its surroundings, the settings, and what was asked for. -/
structure Invocation where
  around : Surroundings
  settings : Settings
  framework : Option String := none
  key : Option String := none
  id : Option String := none

namespace Invocation

/-- The run up to the point where the collection is sent. -/
def updates (i : Invocation) (root : Location) : Run (Option (Dict Json) × Report) :=
  Project.updates i.around root i.settings i.framework

/-- The run. -/
def sync (i : Invocation) (root : Location) : Run Report :=
  Project.sync i.around root i.settings i.framework i.key i.id

/-- The collection that is synthesized from these endpoints. -/
def collection (i : Invocation) (endpoints : List Endpoint) : Dict Json :=
  Postman.document i.around.newId i.settings endpoints

/-- What the export is synthesized from. -/
def synthesis (i : Invocation) (endpoints : List Endpoint) : Insomnia.Synthesis :=
  ⟨i.around.today, i.settings, endpoints⟩

/-- Both documents are wanted, the collection at the one path and the export at the other, with the mark
    for what is gone or without it. -/
structure Keeps (root collectionAt exportAt : Location) (mark : Bool) (i : Invocation) : Prop where
  collection_wanted : i.settings.postman.enabled = true
  export_wanted : i.settings.insomnia.enabled = true
  collection_eq : root.join (Location.ofText i.settings.postman.path) = collectionAt
  export_eq : root.join (Location.ofText i.settings.insomnia.path) = exportAt
  mark_eq : i.settings.markDeprecated = mark

end Invocation

/-- Two paths that lead to two files, without going up. -/
structure Apart (collectionAt exportAt : Location) : Prop where
  collection_plain : ".." ∉ collectionAt.names
  export_plain : ".." ∉ exportAt.names
  ne : collectionAt ≠ exportAt

section

variable {root collectionAt exportAt : Location} {mark : Bool}

/-- **One run**: the endpoints have keys of their own, each document is merged with the one that was in its
    file, and both files have what comes out, as text. -/
theorem documents_of_updates (hapart : Apart collectionAt exportAt) {i : Invocation}
    (hkeeps : i.Keeps root collectionAt exportAt mark) {world after : World}
    {sent : Option (Dict Json)} {report : Report}
    (h : (i.updates root).run.run world = (.ok (sent, report), after)) :
    (report.endpoints.map Endpoint.key).Nodup ∧ ∃ collection exported,
      Postman.merge (i.collection report.endpoints) (world.tree.documentAt? collectionAt) mark
        = .ok collection ∧
      Insomnia.merge (i.synthesis report.endpoints).document (world.tree.documentAt? exportAt) mark
        = .ok exported ∧
      after.tree.file? collectionAt = some { text := .ok (documentText collection) } ∧
      after.tree.file? exportAt = some { text := .ok (documentText exported) } := by
  obtain ⟨hcollection, hexport, rfl, rfl, rfl⟩ := hkeeps
  rw [Invocation.updates, Project.updates, Run.get_bind] at h
  obtain ⟨gathered, world', hgathered, h⟩ := Run.bind_eq_ok_iff.mp h
  obtain ⟨hgather, rfl⟩ := Run.ofExcept_eq_ok_iff.mp hgathered
  obtain ⟨⟨sent', between⟩, mid, hpostman, h⟩ := Run.bind_eq_ok_iff.mp h
  obtain ⟨later, after', hinsomnia, hpure⟩ := Run.bind_eq_ok_iff.mp h
  cases hpure
  obtain ⟨hno, -⟩ | ⟨collection, -, hfirst⟩ := of_updatePostman hpostman
  · rw [hno] at hcollection
    cases hcollection
  obtain ⟨hno, -⟩ | ⟨exported, hsecond⟩ := of_updateInsomnia hinsomnia
  · rw [hno] at hexport
    cases hexport
  have hwrote := Tree.wrote_of_plain hapart.collection_plain hfirst.written
  have hwrote' := Tree.wrote_of_plain hapart.export_plain hsecond.written
  -- the export is read when the collection is written already
  have hbefore : mid.tree.documentAt? (root.join (Location.ofText i.settings.insomnia.path)) =
      world.tree.documentAt? (root.join (Location.ofText i.settings.insomnia.path)) := by
    rw [Tree.documentAt?, Tree.documentAt?, Tree.file?_of_plain hapart.export_plain,
      Tree.file?_of_plain hapart.export_plain, hwrote.kept _ hapart.ne.symm]
  refine ⟨?_, collection, exported, ?_, ?_, ?_, ?_⟩
  · rw [hsecond.endpoints_eq, hfirst.endpoints_eq]
    exact nodup_keys_of_gather hgather
  · rw [hsecond.endpoints_eq, hfirst.endpoints_eq]
    exact hfirst.merged
  · rw [← hbefore, hsecond.endpoints_eq]
    exact hsecond.merged
  · rw [Tree.file?_of_plain hapart.collection_plain, hwrote'.kept _ hapart.ne]
    exact hwrote.there
  · rw [Tree.file?_of_plain hapart.export_plain]
    exact hwrote'.there

/-- Runs one after the other, with the endpoints that each has found.  In between anything may change but
    the two documents; those that are written are read back. -/
inductive Runs (root collectionAt exportAt : Location) (mark : Bool) :
    World → List (Invocation × List Endpoint) → World → Prop
  | nil (world) : Runs root collectionAt exportAt mark world [] world
  | cons {world mid next last i sent report rest}
      (kept : Invocation.Keeps root collectionAt exportAt mark i)
      (updated : (i.updates root).run.run world = (.ok (sent, report), mid))
      (collection_readsBack : ∀ d, Postman.merge (i.collection report.endpoints)
        (world.tree.documentAt? collectionAt) mark = .ok d → ReadsBack d)
      (export_readsBack : ∀ d, Insomnia.merge (i.synthesis report.endpoints).document
        (world.tree.documentAt? exportAt) mark = .ok d → ReadsBack d)
      (same_collection : next.tree.documentAt? collectionAt =
        ((i.sync root).run.run world).2.tree.documentAt? collectionAt)
      (same_export : next.tree.documentAt? exportAt =
        ((i.sync root).run.run world).2.tree.documentAt? exportAt)
      (later : Runs root collectionAt exportAt mark next rest last) :
      Runs root collectionAt exportAt mark world ((i, report.endpoints) :: rest) last

/-- **The files go through the merges.**  Over any runs of the program the collection goes through the
    merges of `Postman.syncs`, and the export through those of `Insomnia.syncs`, each beginning with the
    document that was there at first. -/
theorem Runs.syncs (hapart : Apart collectionAt exportAt) {world last : World}
    {runs : List (Invocation × List Endpoint)}
    (h : Runs root collectionAt exportAt mark world runs last) :
    Postman.syncs mark (world.tree.documentAt? collectionAt)
        (runs.map fun run => run.1.collection run.2)
      = .ok (last.tree.documentAt? collectionAt) ∧
    Insomnia.syncs mark (world.tree.documentAt? exportAt)
        (runs.map fun run => run.1.synthesis run.2)
      = .ok (last.tree.documentAt? exportAt) := by
  induction h with
  | nil world => exact ⟨rfl, rfl⟩
  | @cons world mid next last i sent report rest kept updated hcollection hexport hsame hsame' _ ih =>
    obtain ⟨-, collection, exported, hmerge, hmerge', hfile, hfile'⟩ :=
      documents_of_updates hapart kept updated
    have htree : ((i.sync root).run.run world).2.tree = mid.tree := tree_sync updated
    have hnext : next.tree.documentAt? collectionAt = some collection := by
      rw [hsame, htree, Tree.documentAt?, hfile, Option.bind_some]
      exact document?_of_readsBack (hcollection collection hmerge)
    have hnext' : next.tree.documentAt? exportAt = some exported := by
      rw [hsame', htree, Tree.documentAt?, hfile', Option.bind_some]
      exact document?_of_readsBack (hexport exported hmerge')
    obtain ⟨hrun, hrun'⟩ := ih
    rw [hnext] at hrun
    rw [hnext'] at hrun'
    constructor
    · rw [List.map_cons, Postman.syncs, List.foldlM_cons, hmerge]
      exact hrun
    · exact Insomnia.syncs_cons.mpr ⟨exported, hmerge', hrun'⟩

end

end RouteAtlas.Project
