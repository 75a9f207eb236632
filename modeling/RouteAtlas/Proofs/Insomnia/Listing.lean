/-
  What a fresh export lists, and where.

  ==== Program ====

  `listed` goes through the endpoints and writes, for each of them, the folders around it that are
  not there yet, and then its request.  Identifiers and parents are written into the resources at
  once.

  ==== Spec ====

  The identifiers hide what matters about the order, so the list is taken apart first: `entries` says
  which folder or request stands at each place, and `listed_eq` that the resources are made of the
  entries one by one.  Of the folders three things are needed (`Rooted`): no folder is listed twice,
  none is the workspace itself, and the folder around a folder is listed too.  Requests are in listed
  folders (`entries_placed`).

  The crux is the invariant over `known`, the folders listed already: all folders around an endpoint
  are in `known` or new, and the folder around one of them is again around the endpoint.
-/
import Mathlib.Data.List.Induction
import Mathlib.Data.List.Nodup
import RouteAtlas.Insomnia.Document

namespace RouteAtlas.Insomnia

/-- One line of an export below the workspace and its environment. -/
inductive Entry where
  /-- A folder. -/
  | folder (path : List String)
  /-- The request of an endpoint in a folder. -/
  | request (path : List String) (endpoint : Endpoint)

namespace Entry

/-- The path of a folder. -/
def folder? : Entry → Option (List String)
  | .folder path => some path
  | .request _ _ => none

/-- The endpoint of a request. -/
def endpoint? : Entry → Option Endpoint
  | .folder _ => none
  | .request _ e => some e

/-- The fresh resource of an entry. -/
def fresh (apps : List String) (workspace : String) : Entry → Dict Json
  | .folder path => folderOf workspace (parentIn workspace path.dropLast) path
  | .request path e => requestOf apps (parentIn workspace path) e

end Entry

/-- The entries that endpoints make; `known` holds the paths of the folders listed already. -/
def entries (grouping : Grouping) (apps : List String) :
    (known : List (List String)) → List Endpoint → List Entry
  | _, [] => []
  | known, e :: rest =>
    let path := Folder.placement grouping apps e
    let new := (foldersAround path).filter fun p => !known.contains p
    new.map .folder ++ .request path e :: entries grouping apps (known ++ new) rest

/-- The folders among entries. -/
def foldersAmong (es : List Entry) : List (List String) := es.filterMap Entry.folder?

/-- What is listed is made of the entries, one resource for each. -/
theorem listed_eq (grouping : Grouping) (apps : List String) (workspace : String)
    (known : List (List String)) (endpoints : List Endpoint) :
    listed grouping apps workspace known endpoints
      = (entries grouping apps known endpoints).map (Entry.fresh apps workspace) := by
  induction endpoints generalizing known with
  | nil => rfl
  | cons e rest ih =>
    rw [listed, entries, List.map_append, List.map_map, List.map_cons, ih]
    rfl

/-- The requests are those of the endpoints, in their order. -/
theorem endpoints_entries (grouping : Grouping) (apps : List String) (known : List (List String))
    (endpoints : List Endpoint) :
    (entries grouping apps known endpoints).filterMap Entry.endpoint? = endpoints := by
  induction endpoints generalizing known with
  | nil => rfl
  | cons e rest ih =>
    rw [entries, List.filterMap_append, List.filterMap_map, List.filterMap_cons, ih]
    have hfolders : ∀ new : List (List String),
        new.filterMap (Entry.endpoint? ∘ Entry.folder) = [] := by
      intro new
      exact List.filterMap_eq_nil_iff.mpr fun _ _ => rfl
    rw [hfolders]
    rfl

/-! ## Folders around something

The folders around a request are the non-empty prefixes of its path, outermost first. -/

/-- The folders around a path are its non-empty prefixes. -/
theorem mem_foldersAround {path p : List String} :
    p ∈ foldersAround path ↔ p ≠ [] ∧ p <+: path := by
  rw [foldersAround, List.mem_map]
  constructor
  · rintro ⟨n, hn, rfl⟩
    rw [List.mem_range] at hn
    refine ⟨?_, List.take_prefix _ _⟩
    intro hnil
    rw [List.take_eq_nil_iff] at hnil
    rcases hnil with h | h
    · omega
    · rw [h] at hn
      exact absurd hn (Nat.not_lt_zero n)
  · rintro ⟨hne, hprefix⟩
    have hlen := hprefix.length_le
    have hpos := List.length_pos_iff.mpr hne
    refine ⟨p.length - 1, List.mem_range.mpr (by omega), ?_⟩
    rw [Nat.sub_add_cancel hpos]
    exact (List.prefix_iff_eq_take.mp hprefix).symm

theorem nodup_foldersAround (path : List String) : (foldersAround path).Nodup := by
  refine List.Nodup.map_on ?_ List.nodup_range
  intro m hm n hn heq
  rw [List.mem_range] at hm hn
  have hlen := congrArg List.length heq
  rw [List.length_take, List.length_take] at hlen
  omega

/-- What is new is around something and not known. -/
theorem mem_new_iff {known : List (List String)} {path p : List String} :
    p ∈ (foldersAround path).filter (fun p => !known.contains p) ↔
      p ∈ foldersAround path ∧ p ∉ known := by
  rw [List.mem_filter, Bool.not_eq_true', ← Bool.not_eq_true, List.contains_iff_mem]

/-- A folder around something is known or new. -/
theorem known_or_new (known : List (List String)) {p path : List String} (hp : p <+: path) :
    p = [] ∨ p ∈ known ++ (foldersAround path).filter fun p => !known.contains p := by
  by_cases hne : p = []
  · exact .inl hne
  · refine .inr (List.mem_append.mpr ?_)
    by_cases hk : p ∈ known
    · exact .inl hk
    · exact .inr (mem_new_iff.mpr ⟨mem_foldersAround.mpr ⟨hne, hp⟩, hk⟩)

/-- The folders among two lists of entries are those of either. -/
theorem foldersAmong_append (es es' : List Entry) :
    foldersAmong (es ++ es') = foldersAmong es ++ foldersAmong es' := List.filterMap_append ..

/-- Entries of folders only: these folders. -/
theorem foldersAmong_folders (paths : List (List String)) :
    foldersAmong (paths.map .folder) = paths := by
  rw [foldersAmong, List.filterMap_map]
  exact List.filterMap_some

/-- The folders that one endpoint lists stand before those of the others. -/
theorem foldersAmong_entries_cons (grouping : Grouping) (apps : List String)
    (known : List (List String)) (e : Endpoint) (rest : List Endpoint) :
    foldersAmong (entries grouping apps known (e :: rest))
      = ((foldersAround (Folder.placement grouping apps e)).filter fun p => !known.contains p)
        ++ foldersAmong (entries grouping apps
          (known ++ (foldersAround (Folder.placement grouping apps e)).filter
            fun p => !known.contains p) rest) := by
  rw [entries, foldersAmong_append, foldersAmong_folders]
  rfl

/-! ## The folders of an export

By induction on the endpoints: each lists the folders around it that are not known yet, so that
altogether no folder is listed twice, and every folder stands in one that is listed. -/

/-- Folders that hang together: each once, below the workspace or below another one of them. -/
structure Rooted (paths : List (List String)) : Prop where
  nodup : paths.Nodup
  not_root : [] ∉ paths
  closed : ∀ p ∈ paths, p.dropLast = [] ∨ p.dropLast ∈ paths

/-- The workspace and the folders are places of their own. -/
theorem Rooted.nodup_places {paths : List (List String)} (h : Rooted paths) : ([] :: paths).Nodup :=
  List.nodup_cons.mpr ⟨h.not_root, h.nodup⟩

/-- All folders on the way to a folder are there. -/
theorem Rooted.mem_of_prefix {paths : List (List String)} (h : Rooted paths) {p q : List String}
    (hp : p ∈ paths) (hq : q <+: p) (hne : q ≠ []) : q ∈ paths := by
  induction p using List.reverseRecOn with
  | nil => exact absurd (List.prefix_nil.mp hq) hne
  | append_singleton p name ih =>
    rcases List.prefix_concat_iff.mp hq with rfl | hq
    · exact hp
    · have hclosed := h.closed _ hp
      rw [List.dropLast_concat] at hclosed
      rcases hclosed with rfl | hmem
      · exact absurd (List.prefix_nil.mp hq) hne
      · exact ih hmem hq

/-- What is above has a place, too. -/
theorem Rooted.dropLast_mem {paths : List (List String)} (h : Rooted paths) {p : List String}
    (hp : p ∈ [] :: paths) : p.dropLast ∈ [] :: paths := by
  rcases List.mem_cons.mp hp with rfl | hp
  · exact List.mem_cons_self ..
  · rcases h.closed p hp with hnil | hmem
    · exact hnil ▸ List.mem_cons_self ..
    · exact List.mem_cons_of_mem _ hmem

/-- The invariant of listing: what is listed after `known` is new, and hangs together with it. -/
structure ListedAfter (known : List (List String)) (es : List Entry) : Prop where
  nodup : (foldersAmong es).Nodup
  new : ∀ p ∈ foldersAmong es, p ∉ known
  closed : ∀ p ∈ foldersAmong es,
    p ≠ [] ∧ (p.dropLast = [] ∨ p.dropLast ∈ known ∨ p.dropLast ∈ foldersAmong es)
  placed : ∀ path e, .request path e ∈ es →
    path = [] ∨ path ∈ known ∨ path ∈ foldersAmong es

/-- A place that one endpoint lists is one of all. -/
theorem place_of_new {known new later : List (List String)} {p : List String}
    (h : p = [] ∨ p ∈ known ∨ p ∈ new) : p = [] ∨ p ∈ known ∨ p ∈ new ++ later :=
  h.imp_right (Or.imp_right (List.mem_append_left _))

/-- A place that the later endpoints find listed, or list, is one of all. -/
theorem place_of_later {known new later : List (List String)} {p : List String}
    (h : p = [] ∨ p ∈ known ++ new ∨ p ∈ later) : p = [] ∨ p ∈ known ∨ p ∈ new ++ later := by
  rcases h with h | h | h
  · exact .inl h
  · exact place_of_new (.inr (List.mem_append.mp h))
  · exact .inr (.inr (List.mem_append_right _ h))

/-- **What is listed after `known`** is new, stands once, and hangs together with what is
    known.  The induction is on the endpoints; what the first one lists counts as known for the
    others. -/
theorem listedAfter_entries (grouping : Grouping) (apps : List String) (known : List (List String))
    (endpoints : List Endpoint) : ListedAfter known (entries grouping apps known endpoints) := by
  induction endpoints generalizing known with
  | nil =>
    exact ⟨List.nodup_nil, fun _ hp => absurd hp (List.not_mem_nil),
      fun _ hp => absurd hp (List.not_mem_nil), fun _ _ he => absurd he (List.not_mem_nil)⟩
  | cons e rest ih =>
    let path := Folder.placement grouping apps e
    let new := (foldersAround path).filter fun p => !known.contains p
    have ih : ListedAfter (known ++ new) (entries grouping apps (known ++ new) rest) := ih _
    have hfolders : foldersAmong (entries grouping apps known (e :: rest))
        = new ++ foldersAmong (entries grouping apps (known ++ new) rest) :=
      foldersAmong_entries_cons ..
    have hnew : ∀ {p : List String}, p ∈ new ↔ p ∈ foldersAround path ∧ p ∉ known := mem_new_iff
    -- a folder around the endpoint is known already or new
    have haround : ∀ p, p <+: path → p = [] ∨ p ∈ known ∨ p ∈ new :=
      fun p hp => (known_or_new known hp).imp_right List.mem_append.mp
    constructor
    case nodup =>
      rw [hfolders]
      refine List.nodup_append.mpr ⟨(nodup_foldersAround path).filter _, ih.nodup, ?_⟩
      rintro p hp _ hq rfl
      exact ih.new p hq (List.mem_append_right _ hp)
    case new =>
      rw [hfolders]
      intro p hp
      rcases List.mem_append.mp hp with hp | hp
      · exact (hnew.mp hp).2
      · exact fun hk => ih.new p hp (List.mem_append_left _ hk)
    case closed =>
      rw [hfolders]
      intro p hp
      rcases List.mem_append.mp hp with hp | hp
      · obtain ⟨hne, hpath⟩ := mem_foldersAround.mp (hnew.mp hp).1
        exact ⟨hne, place_of_new (haround p.dropLast ((List.dropLast_prefix p).trans hpath))⟩
      · obtain ⟨hne, hclosed⟩ := ih.closed p hp
        exact ⟨hne, place_of_later hclosed⟩
    case placed =>
      rw [hfolders]
      intro q e' he
      rw [entries, List.mem_append, List.mem_cons] at he
      rcases he with he | he | he
      · obtain ⟨_, -, heq⟩ := List.mem_map.mp he
        exact absurd heq (by simp)
      · obtain ⟨rfl, rfl⟩ := Entry.request.inj he
        exact place_of_new (haround _ (List.prefix_refl path))
      · exact place_of_later (ih.placed q e' he)

/-- The entries of a whole export. -/
def allEntries (settings : Settings) (endpoints : List Endpoint) : List Entry :=
  entries settings.grouping settings.serviceNames [] endpoints

/-- The folders of an export hang together: nothing is known before the first endpoint. -/
theorem rooted_allEntries (settings : Settings) (endpoints : List Endpoint) :
    Rooted (foldersAmong (allEntries settings endpoints)) := by
  have h := listedAfter_entries settings.grouping settings.serviceNames [] endpoints
  refine ⟨h.nodup, fun hnil => (h.closed _ hnil).1 rfl, fun p hp => ?_⟩
  rcases (h.closed p hp).2 with h | h | h
  · exact .inl h
  · exact absurd h (List.not_mem_nil)
  · exact .inr h

/-- **The folders that are listed** are those around an endpoint that are not known already. -/
theorem mem_foldersAmong_entries (grouping : Grouping) (apps : List String)
    (known : List (List String)) (endpoints : List Endpoint) (p : List String) :
    p ∈ foldersAmong (entries grouping apps known endpoints) ↔
      p ∉ known ∧ ∃ e ∈ endpoints, p ∈ foldersAround (Folder.placement grouping apps e) := by
  induction endpoints generalizing known with
  | nil => exact ⟨fun h => absurd h (List.not_mem_nil), fun h => by simpa using h.2⟩
  | cons e rest ih =>
    rw [foldersAmong_entries_cons, List.mem_append, ih, List.mem_append, mem_new_iff]
    constructor
    · rintro (⟨haround, hno⟩ | ⟨hno, e', he', haround⟩)
      · exact ⟨hno, e, List.mem_cons_self .., haround⟩
      · exact ⟨fun hk => hno (.inl hk), e', List.mem_cons_of_mem _ he', haround⟩
    · rintro ⟨hno, e', he', haround⟩
      by_cases hfirst : p ∈ foldersAround (Folder.placement grouping apps e)
      · exact .inl ⟨hfirst, hno⟩
      · -- the endpoint that it is around is a later one
        have hlater : e' ∈ rest := (List.mem_cons.mp he').resolve_left fun heq =>
          hfirst (heq ▸ haround)
        exact .inr ⟨fun h => h.elim hno fun h => hfirst h.1, e', hlater, haround⟩

/-- The folders among entries are those with an entry of their own. -/
theorem mem_foldersAmong {es : List Entry} {path : List String} :
    path ∈ foldersAmong es ↔ .folder path ∈ es := by
  rw [foldersAmong, List.mem_filterMap]
  constructor
  · rintro ⟨entry, hentry, hsome⟩
    cases entry with
    | folder path' =>
      obtain rfl := Option.some.inj hsome
      exact hentry
    | request _ _ => exact absurd hsome (by simp [Entry.folder?])
  · exact fun h => ⟨_, h, rfl⟩

/-- The workspace is not listed as a folder. -/
theorem ne_root_of_folder_mem {settings : Settings} {endpoints : List Endpoint} {path : List String}
    (h : .folder path ∈ allEntries settings endpoints) : path ≠ [] := by
  rintro rfl
  exact (rooted_allEntries settings endpoints).not_root (mem_foldersAmong.mpr h)

/-- A request is in the workspace or in a folder that is listed. -/
theorem entries_placed {settings : Settings} {endpoints : List Endpoint} {path : List String}
    {e : Endpoint} (he : .request path e ∈ allEntries settings endpoints) :
    path ∈ [] :: foldersAmong (allEntries settings endpoints) := by
  have h := listedAfter_entries settings.grouping settings.serviceNames [] endpoints
  rcases h.placed path e he with rfl | h | h
  · exact List.mem_cons_self ..
  · exact absurd h (List.not_mem_nil)
  · exact List.mem_cons_of_mem _ h

end RouteAtlas.Insomnia
