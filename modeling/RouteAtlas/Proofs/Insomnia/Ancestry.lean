/-
  From a request up to the workspace.

  ==== Problem ====

  An export is a flat list.  Where a request stands is told by its parent, and by the parent of that,
  up to the workspace; a reader of the list expects to have met a folder before anything that is in
  it.

  ==== Spec ====

  `Leads` follows parents and collects the names of folders.  In a fresh export a request leads to the
  folders of its endpoint, and nowhere else (`leads_iff`); every folder and every request is listed
  behind its parent (`parent_before`).

  ==== The crux ====

  Folders are listed on the way to a request, outermost first, unless they are known.  The induction
  of `inOrder_entries` is on the endpoints, and for one of them on the way to it: what is around a
  folder is known, or was listed just before (`inOrder_around`).
-/
import RouteAtlas.Proofs.Insomnia.Placement
import RouteAtlas.Proofs.Insomnia.Resync

namespace RouteAtlas.Insomnia

open Resource (isA ofKind)

/-! ## Following parents

The parent of a resource is named by an identifier.  Identifiers of places are apart, so following
them from a place leads through the folders on the way to it and nowhere else. -/

/-- Following parents from an identifier leads to a workspace, through folders with the given names,
    outermost first. -/
inductive Leads (rs : List Resource) : Json → List String → Prop
  | workspace {w : Resource} {id : Json} (hw : w ∈ rs) (hkind : isA "workspace" w = true)
      (hid : Dict.get? w "_id" = some id) : Leads rs id []
  | folder {f : Resource} {id parent : Json} {name : String} {path : List String} (hf : f ∈ rs)
      (hkind : isA "request_group" f = true) (hid : Dict.get? f "_id" = some id)
      (hparent : Dict.get? f "parentId" = some parent)
      (hname : Dict.get? f "name" = some (.str name)) (habove : Leads rs parent path) :
      Leads rs id (path ++ [name])

section

variable {settings : Settings} {endpoints : List Endpoint}

/-- There is one workspace. -/
theorem eq_workspace_of_mem {w : Resource} (hw : w ∈ resources settings endpoints)
    (hkind : isA "workspace" w = true) : w = workspaceAt settings (freshId settings []) := by
  have hmem : w ∈ ofKind "workspace" (resources settings endpoints) := List.mem_filter.mpr ⟨hw, hkind⟩
  rw [frame_fresh (by decide) (by decide)] at hmem
  exact List.mem_singleton.mp hmem

/-- A folder is listed exactly for each place. -/
theorem folder_mem_iff {f : Resource} : (f ∈ resources settings endpoints ∧
    isA "request_group" f = true) ↔
    ∃ p ∈ placesOf settings endpoints, f = folderAt (freshId settings) p := by
  rw [← List.mem_filter (p := isA "request_group"), ← ofKind, folders_fresh, List.mem_map]
  exact exists_congr fun p => and_congr_right fun _ => eq_comm

/-- The identifier of a place leads to that place at most.  Going up from a folder and dropping the
    last name of the place go together, and distinct identifiers leave one place to have meant on
    each step. -/
theorem eq_of_leads (h : DistinctFolders settings endpoints) {p : List String}
    (hp : p ∈ [] :: placesOf settings endpoints) {path : List String}
    (hleads : Leads (resources settings endpoints) (freshId settings p) path) : path = p := by
  have hrooted := rooted_allEntries settings endpoints
  have hinjective : ∀ {p}, p ∈ [] :: placesOf settings endpoints →
      ∀ q ∈ [] :: placesOf settings endpoints, freshId settings q = freshId settings p → q = p :=
    fun hp q hq heq => h q hq _ hp (Json.str.inj heq)
  generalize hid : freshId settings p = id at hleads
  induction hleads generalizing p with
  | «workspace» hw hkind hw' =>
    obtain rfl := eq_workspace_of_mem hw hkind
    have heq : freshId settings [] = freshId settings p := by
      rw [hid]
      exact Option.some.inj hw'
    exact hinjective hp [] (List.mem_cons_self ..) heq
  | @folder f id parent name path hf hkind hf' hparent hname _ ih =>
    obtain ⟨q, hq, rfl⟩ := folder_mem_iff.mp ⟨hf, hkind⟩
    obtain rfl : q = p := by
      refine hinjective hp q (List.mem_cons_of_mem _ hq) ?_
      rw [hid]
      exact Option.some.inj hf'
    have hne : q ≠ [] := fun hnil => hrooted.not_root (hnil ▸ hq)
    have hpath : path = q.dropLast := ih (hrooted.dropLast_mem hp) (Option.some.inj hparent)
    have hlast : q.getLastD "" = name := Json.str.inj (Option.some.inj hname)
    rw [hpath, ← hlast, List.getLastD_eq_getLast?, List.getLast?_eq_some_getLast hne, Option.getD_some,
      List.dropLast_append_getLast]

/-- The identifier of a place leads there: the folders on the way are listed.  The induction takes
    the last name off, since the parent of a place is the place without it. -/
theorem leads_self {p : List String} (hp : p ∈ [] :: placesOf settings endpoints) :
    Leads (resources settings endpoints) (freshId settings p) p := by
  induction p using List.reverseRecOn with
  | nil =>
    have hw : workspaceAt settings (freshId settings []) ∈ resources settings endpoints := by
      rw [resources_eq]
      exact List.mem_cons_self ..
    exact .workspace hw rfl rfl
  | append_singleton path name ih =>
    have hplace : path ++ [name] ∈ placesOf settings endpoints :=
      (List.mem_cons.mp hp).resolve_left (List.append_ne_nil_of_right_ne_nil _ (List.cons_ne_nil _ _))
    obtain ⟨hmem, hkind⟩ := folder_mem_iff.mpr ⟨_, hplace, rfl⟩
    have habove : path ∈ [] :: placesOf settings endpoints := by
      have hdrop := (rooted_allEntries settings endpoints).dropLast_mem hp
      rwa [List.dropLast_concat] at hdrop
    have hparent : Dict.get? (folderAt (freshId settings) (path ++ [name])) "parentId"
        = some (freshId settings path) := by
      show some (freshId settings (path ++ [name]).dropLast) = _
      rw [List.dropLast_concat]
    have hname : Dict.get? (folderAt (freshId settings) (path ++ [name])) "name"
        = some (.str name) := by
      show some (Json.str ((path ++ [name]).getLastD "")) = _
      rw [List.getLastD_concat]
    exact .folder hmem hkind rfl hparent hname (ih habove)

/-- **A place leads to itself only.** -/
theorem leads_iff (h : DistinctFolders settings endpoints) {p : List String}
    (hp : p ∈ [] :: placesOf settings endpoints) {path : List String} :
    Leads (resources settings endpoints) (freshId settings p) path ↔ path = p := by
  constructor
  · exact eq_of_leads h hp
  · rintro rfl
    exact leads_self hp

end

/-! ## The order of the list

Resources are listed with folders before what is in them.  `known` are the folders that stand before
the entries, as in the recursion that lists them. -/

namespace Entry

/-- The place that an entry is in. -/
def parent : Entry → List String
  | .folder path => path.dropLast
  | .request path _ => path

end Entry

/-- Every entry is in the workspace or in a folder that is known or stands before it. -/
def InOrder : (known : List (List String)) → List Entry → Prop
  | _, [] => True
  | known, entry :: rest =>
    (entry.parent = [] ∨ entry.parent ∈ known) ∧ InOrder (known ++ entry.folder?.toList) rest

/-- Entries behind others are in order if they are, with the folders of the others known too. -/
theorem inOrder_append (known : List (List String)) (es es' : List Entry) :
    InOrder known (es ++ es') ↔ InOrder known es ∧ InOrder (known ++ foldersAmong es) es' := by
  induction es generalizing known with
  | nil =>
    rw [List.nil_append, foldersAmong, List.filterMap_nil, List.append_nil]
    exact (and_iff_right trivial).symm
  | cons entry es ih =>
    have hfolders : foldersAmong (entry :: es) = entry.folder?.toList ++ foldersAmong es := by
      cases entry <;> rfl
    rw [List.cons_append, InOrder, InOrder, ih, and_assoc, hfolders, List.append_assoc]

/-- What is around a folder is around what is in it, and the folder is the last one around that. -/
theorem foldersAround_concat (path : List String) (name : String) :
    foldersAround (path ++ [name]) = foldersAround path ++ [path ++ [name]] := by
  rw [foldersAround, List.length_append, List.length_singleton, List.range_succ, List.map_append,
    foldersAround, List.map_singleton]
  congr 1
  · refine List.map_congr_left fun n hn => ?_
    rw [List.mem_range] at hn
    exact List.take_append_of_le_length hn
  · rw [List.take_of_length_le (by rw [List.length_append, List.length_singleton])]

/-- **The folders around something** are in order: each is known, or behind those around it. -/
theorem inOrder_around (known : List (List String)) (path : List String) :
    InOrder known (((foldersAround path).filter fun p => !known.contains p).map .folder) := by
  induction path using List.reverseRecOn with
  | nil => trivial
  | append_singleton path name ih =>
    rw [foldersAround_concat, List.filter_append, List.map_append, inOrder_append,
      foldersAmong_folders]
    refine ⟨ih, ?_⟩
    rw [List.filter_singleton]
    cases !known.contains (path ++ [name]) with
    | false => trivial
    | true =>
      refine ⟨?_, trivial⟩
      show (path ++ [name]).dropLast = [] ∨ (path ++ [name]).dropLast ∈ _
      rw [List.dropLast_concat]
      exact known_or_new known (List.prefix_refl path)

/-- **What is listed is listed behind its parent.** -/
theorem inOrder_entries (grouping : Grouping) (apps : List String) (known : List (List String))
    (endpoints : List Endpoint) : InOrder known (entries grouping apps known endpoints) := by
  induction endpoints generalizing known with
  | nil => trivial
  | cons e rest ih =>
    rw [entries, inOrder_append, foldersAmong_folders]
    refine ⟨inOrder_around known _, known_or_new known (List.prefix_refl _), ?_⟩
    show InOrder (_ ++ []) _
    rw [List.append_nil]
    exact ih _

/-- What is in order has its parent in front of it. -/
theorem InOrder.parent_mem {known : List (List String)} {before after : List Entry} {entry : Entry}
    (h : InOrder known (before ++ entry :: after)) :
    entry.parent = [] ∨ entry.parent ∈ known ++ foldersAmong before :=
  ((inOrder_append known before (entry :: after)).mp h).2.1

/-! ## Fresh exports

The two together: parents come first, and the way up from a request is the path of its endpoint. -/

section

variable {settings : Settings} {endpoints : List Endpoint}

/-- A resource names its parent by the parent's place. -/
theorem parentId_fresh (apps : List String) (entry : Entry) :
    Dict.get? (entry.fresh apps (workspaceOf settings)) "parentId"
      = some (freshId settings entry.parent) := by
  cases entry <;> rfl

/-- **Every folder and every request is listed behind its parent.** The entries are listed in order,
    and a parent that is not the workspace is a folder entry before its own entry. -/
theorem parent_before {before after : List Resource} {r : Resource}
    (hsplit : resources settings endpoints = before ++ r :: after)
    (hkind : isA "request_group" r = true ∨ isA "request" r = true) :
    ∃ p ∈ before, (isA "workspace" p = true ∨ isA "request_group" p = true) ∧
      ∃ id, Dict.get? p "_id" = some id ∧ Dict.get? r "parentId" = some id := by
  rw [resources_eq] at hsplit
  match before with
  -- the workspace and its environment come first and are neither folder nor request
  | [] =>
    obtain ⟨rfl, -⟩ := List.cons.inj hsplit
    exact hkind.elim (absurd · Bool.false_ne_true) (absurd · Bool.false_ne_true)
  | [_] =>
    obtain ⟨rfl, -⟩ := List.cons.inj (List.cons.inj hsplit).2
    exact hkind.elim (absurd · Bool.false_ne_true) (absurd · Bool.false_ne_true)
  | w :: environment :: before =>
    obtain ⟨rfl, hrest⟩ := List.cons.inj hsplit
    obtain ⟨entriesBefore, entriesFrom, hentries, rfl, hfrom⟩ :=
      List.map_eq_append_iff.mp (List.cons.inj hrest).2
    obtain ⟨entry, entriesAfter, rfl, rfl, -⟩ := List.map_eq_cons_iff.mp hfrom
    -- the list of entries, split where the resource stands
    have hordered : InOrder [] (entriesBefore ++ entry :: entriesAfter) :=
      hentries ▸ inOrder_entries settings.grouping settings.serviceNames [] endpoints
    have hparent : Dict.get? (entry.fresh settings.serviceNames (workspaceOf settings)) "parentId"
        = some (freshId settings entry.parent) := parentId_fresh ..
    rcases hordered.parent_mem with hroot | habove
    · rw [hroot] at hparent
      exact ⟨_, List.mem_cons_self .., .inl rfl, _, rfl, hparent⟩
    · have hfolder : .folder entry.parent ∈ entriesBefore := mem_foldersAmong.mp habove
      have hne : entry.parent ≠ [] :=
        ne_root_of_folder_mem (hentries ▸ List.mem_append_left _ hfolder)
      refine ⟨_, List.mem_cons_of_mem _ (List.mem_cons_of_mem _ (List.mem_map_of_mem hfolder)),
        .inr rfl, _, ?_, hparent⟩
      rw [Entry.fresh, folderOf_eq hne]
      rfl

/-- An endpoint's request is listed at its place. -/
theorem request_mem_entries (grouping : Grouping) (apps : List String) (known : List (List String))
    {e : Endpoint} (he : e ∈ endpoints) : .request (Folder.placement grouping apps e) e
      ∈ entries grouping apps known endpoints := by
  induction endpoints generalizing known with
  | nil => exact absurd he (List.not_mem_nil)
  | cons e' rest ih =>
    rw [entries, List.mem_append, List.mem_cons]
    rcases List.mem_cons.mp he with rfl | he
    · exact .inr (.inl rfl)
    · exact .inr (.inr (ih _ he))

/-- The requests of entries are those of the endpoints, in their order. -/
theorem requests_entries (grouping : Grouping) (apps : List String) (workspace : String)
    (known : List (List String)) (endpoints : List Endpoint) :
    ofKind "request" ((entries grouping apps known endpoints).map (Entry.fresh apps workspace))
      = endpoints.map fun e =>
        requestOf apps (parentIn workspace (Folder.placement grouping apps e)) e := by
  induction endpoints generalizing known with
  | nil => rfl
  | cons e rest ih =>
    rw [entries, List.map_append, List.map_cons, ofKind_append, ofKind_cons_of_isA rfl, ih,
      ofKind_eq_nil, List.nil_append]
    · rfl
    · intro r hr
      obtain ⟨entry, hentry, rfl⟩ := List.mem_map.mp hr
      obtain ⟨p, -, rfl⟩ := List.mem_map.mp hentry
      rfl

/-- **The folders of an export** are those around its endpoints' requests. -/
theorem mem_placesOf {p : List String} : p ∈ placesOf settings endpoints ↔ p ≠ [] ∧
    ∃ e ∈ endpoints, p <+: Folder.placement settings.grouping settings.serviceNames e := by
  have hlisted := mem_foldersAmong_entries settings.grouping settings.serviceNames [] endpoints p
  refine hlisted.trans ⟨fun ⟨_, e, he, haround⟩ => ?_, fun ⟨hne, e, he, hp⟩ => ?_⟩
  · obtain ⟨hne, hp⟩ := mem_foldersAround.mp haround
    exact ⟨hne, e, he, hp⟩
  · exact ⟨List.not_mem_nil, e, he, mem_foldersAround.mpr ⟨hne, hp⟩⟩

/-- **An endpoint's request** leads to the endpoint's folders. -/
theorem leads_placement (h : DistinctFolders settings endpoints) {e : Endpoint} (he : e ∈ endpoints)
    (path : List String) : Leads (resources settings endpoints)
      (freshId settings (Folder.placement settings.grouping settings.serviceNames e)) path
        ↔ path = Folder.placement settings.grouping settings.serviceNames e :=
  leads_iff h (entries_placed (request_mem_entries _ _ [] he))

end

end RouteAtlas.Insomnia
