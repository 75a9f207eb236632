/-
  Two formats, one placement.

  ==== Problem ====

  A collection is a tree of folders, an export a flat list whose parts name their parents.  One is
  grown by looking for folders on every level and sorted at last; the other one is written in one go,
  with the folders that were listed already in hand.  A request should be in the same folders in both.

  ==== Spec ====

  Where an endpoint goes is `Folder.placement`.  `Postman.Filed` says of a tree, and `Insomnia.Filed`
  of a list, that all endpoints are there, once each and where they go, and nothing else;
  `filed_documents`: so it is in every collection and in every export that is synthesized.

  ==== What it takes ====

  1. **Different digests** - the folders of an export are told by their identifiers, so these have to
     differ (`DistinctFolders`).  A tree needs nothing of the kind.

  2. **Different services** - the top level is sorted by names without regard to case.  Where two
     services differ in nothing else, the configuration does not decide which is first
     (`services_alike_swapped`).
-/
import RouteAtlas.Proofs.Insomnia.Ancestry
import RouteAtlas.Proofs.Postman.Resync
import RouteAtlas.Proofs.Postman.ServiceOrder
import RouteAtlas.Proofs.Postman.Tidy

namespace RouteAtlas

/-- Where an endpoint goes, as configured. -/
def Settings.placement (settings : Settings) (e : Endpoint) : List String :=
  Folder.placement settings.grouping settings.serviceNames e

/-! ## Trees -/

namespace Postman

/-- Items that hold the requests of endpoints, each where it goes, and nothing else. -/
structure Filed (settings : Settings) (endpoints : List Endpoint) (items : List Item) : Prop where
  /-- Every endpoint has its request in its folder, once. -/
  once : (flatten items).Perm (endpoints.map fun e =>
    ((settings.placement e).map .str, itemOf settings.serviceNames e))
  /-- In each folder, requests are in the order of the endpoints. -/
  ordered : ∀ path, within path items = (endpoints.filter fun e => settings.placement e == path).map
    fun e => (path.map .str, itemOf settings.serviceNames e)
  /-- Sibling folders have different names, and none is empty. -/
  tidy : Tidy items
  /-- Grouped by folder, services come first, as configured, and the others after them by name. -/
  services : settings.grouping = .folder → settings.serviceNames ≠ [] →
    (serviceOrder settings.serviceNames).Nodup →
      (items.map itemName).Pairwise (Follows (serviceOrder settings.serviceNames))

/-- **The items of a collection** hold the requests of the endpoints where they go.

    Reading the built tree back does not change it, so what was shown of the items while they were
    built holds of the document. -/
theorem filed_document (id : String) (settings : Settings) (endpoints : List Endpoint) :
    Filed settings endpoints (itemsOf (document id settings endpoints)) := by
  have hread := readable_of_built (built_items settings endpoints)
  obtain ⟨htidy, hwithin⟩ := within_items settings endpoints
  constructor
  case once =>
    rw [flatten_document]
    exact flatten_items_perm settings endpoints
  case ordered =>
    intro path
    rw [within, flatten_document]
    refine (hwithin path).trans (List.map_congr_left fun e he => ?_)
    have hplace : settings.placement e = path := beq_iff_eq.mp (List.mem_filter.mp he).2
    rw [← hplace]
    rfl
  case tidy =>
    rw [itemsOf_document]
    exact tidy_readBack htidy hread
  case services =>
    intro hgrouping hsome hdistinct
    rw [itemsOf_document, names_readBack hread, items, hgrouping]
    exact pairwise_follows hsome hdistinct _

end Postman

/-! ## Lists -/

namespace Insomnia

open Resource (isA ofKind)

/-- Resources that hold the requests of endpoints, each where it goes, and the folders around them. -/
structure Filed (settings : Settings) (endpoints : List Endpoint) (rs : List Resource) : Prop where
  /-- Every endpoint has its request, once, and following parents leads to its folder. -/
  requests : List.Forall₂ (fun e r => ∃ parent,
      r = requestOf settings.serviceNames parent e ∧
      ∀ path, Leads rs (.str parent) path ↔ path = settings.placement e)
    endpoints (ofKind "request" rs)
  /-- Every folder around a request is listed, once. -/
  folders : ∃ paths : List (List String), paths.Nodup ∧
    (∀ p, p ∈ paths ↔ p ≠ [] ∧ ∃ e ∈ endpoints, p <+: settings.placement e) ∧
    List.Forall₂ (fun p f => ∃ id, Dict.get? f "_id" = some id ∧ ∀ path, Leads rs id path ↔ path = p)
      paths (ofKind "request_group" rs)
  /-- What is listed is listed behind its parent. -/
  behind : ∀ before r after, rs = before ++ r :: after →
    isA "request_group" r = true ∨ isA "request" r = true →
      ∃ p ∈ before, (isA "workspace" p = true ∨ isA "request_group" p = true) ∧
        ∃ id, Dict.get? p "_id" = some id ∧ Dict.get? r "parentId" = some id

/-- **The resources of an export** hold the requests of the endpoints where they go. -/
theorem filed_document (date : String) {settings : Settings} {endpoints : List Endpoint}
    (h : DistinctFolders settings endpoints) :
    Filed settings endpoints (resourcesOf (document date settings endpoints)) := by
  have hresources : resourcesOf (document date settings endpoints) = resources settings endpoints :=
    resourcesOf_of_get? rfl
  rw [hresources]
  constructor
  case requests =>
    rw [requests_fresh, allEntries, requests_entries, List.forall₂_map_right_iff, List.forall₂_same]
    exact fun e he => ⟨_, rfl, leads_placement h he⟩
  case folders =>
    refine ⟨_, (rooted_allEntries settings endpoints).nodup, fun p => mem_placesOf, ?_⟩
    rw [folders_fresh, List.forall₂_map_right_iff, List.forall₂_same]
    exact fun p hp => ⟨_, rfl, fun _ => leads_iff h (List.mem_cons_of_mem _ hp)⟩
  case behind => exact fun _ _ _ => parent_before

end Insomnia

/-! ## Both formats -/

/-- **Both formats hold the same requests in the same folders.** -/
theorem filed_documents (settings : Settings) (endpoints : List Endpoint) :
    (∀ id : String, Postman.Filed settings endpoints
      (Postman.itemsOf (Postman.document id settings endpoints))) ∧
    (Insomnia.DistinctFolders settings endpoints → ∀ date : String,
      Insomnia.Filed settings endpoints
        (Insomnia.resourcesOf (Insomnia.document date settings endpoints))) :=
  ⟨fun id => Postman.filed_document id settings endpoints,
    fun h date => Insomnia.filed_document date h⟩

/-- Two services, the later name configured first. -/
def shopSettings : Settings :=
  { sources := { serviceUrls := [("users", "http://localhost:1"), ("orders", "http://localhost:2")] } }

/-- Endpoints of two services by turns, the last one in a folder of the folder of the first one. -/
def shopEndpoints : List Endpoint :=
  [{ method := .get, path := "/bills", sourceFile := "apps/orders/bills/all.ts" },
    { method := .get, path := "/users", sourceFile := "apps/users/all.ts" },
    { method := .get, path := "/refunds", sourceFile := "apps/orders/bills/refunds/all.ts" }]

/-- Users are configured first, and orders come first among the endpoints.  The export lists its
    folders as they come up, each once. -/
theorem filed_documents_shop :
    (Postman.serviceOrder shopSettings.serviceNames).Nodup ∧
    Postman.Filed shopSettings shopEndpoints
      (Postman.itemsOf (Postman.document "" shopSettings shopEndpoints)) ∧
    Insomnia.placesOf shopSettings shopEndpoints = [["Orders"], ["Orders", "Bills"], ["Users"],
      ["Users", "All"], ["Orders", "Bills", "Refunds"]] ∧
    Insomnia.DistinctFolders shopSettings shopEndpoints ∧
    Insomnia.Filed shopSettings shopEndpoints
      (Insomnia.resourcesOf (Insomnia.document "" shopSettings shopEndpoints)) := by
  have hservices : (Postman.serviceOrder shopSettings.serviceNames).Nodup := by decide +kernel
  have hplaces : Insomnia.placesOf shopSettings shopEndpoints = [["Orders"], ["Orders", "Bills"],
      ["Users"], ["Users", "All"], ["Orders", "Bills", "Refunds"]] := by decide +kernel
  have hfolders : Insomnia.DistinctFolders shopSettings shopEndpoints := by
    refine Insomnia.distinctFolders_of_nodup ?_
    rw [hplaces]
    decide +kernel
  obtain ⟨hpostman, hinsomnia⟩ := filed_documents shopSettings shopEndpoints
  exact ⟨hservices, hpostman "", hplaces, hfolders, hinsomnia hfolders ""⟩

/-- Two services whose names differ in the case of a letter only: the first one begins with the sign
    for kelvin, which is a `k` in small letters. -/
def kelvinSettings : Settings :=
  { sources := { serviceUrls := [("\u212Aelvin", "http://h/0"), ("kelvin", "http://h/1")] } }

/-- One endpoint of each service. -/
def kelvinEndpoints : List Endpoint :=
  [{ method := .get, path := "/p0", sourceFile := "apps/\u212Aelvin/index.ts" },
    { method := .get, path := "/p1", sourceFile := "apps/kelvin/index.ts" }]

/-- **Services alike but for case** are sorted by name and not as configured, however their names as
    folders differ. -/
theorem services_alike_swapped : kelvinSettings.grouping = .folder ∧
    kelvinSettings.serviceNames.map Label.clean = ["\u212Aelvin", "Kelvin"] ∧
    (kelvinSettings.serviceNames.map Label.clean).Nodup ∧
    (Postman.itemsOf (Postman.document "" kelvinSettings kelvinEndpoints)).map Postman.itemName
      = ["Kelvin", "\u212Aelvin"] := by
  have hnames : kelvinSettings.serviceNames.map Label.clean = ["\u212Aelvin", "Kelvin"] := by
    decide +kernel
  have hsome : kelvinSettings.serviceNames ≠ [] := by decide +kernel
  have hplaced : (Postman.placed .folder kelvinSettings.serviceNames kelvinEndpoints).map
      Postman.itemName = ["\u212Aelvin", "Kelvin"] := by decide +kernel
  refine ⟨rfl, hnames, hnames ▸ by decide, ?_⟩
  have hread := Postman.readable_of_built (Postman.built_items kelvinSettings kelvinEndpoints)
  have hgrouping : kelvinSettings.grouping = .folder := rfl
  rw [Postman.itemsOf_document, Postman.names_readBack hread, Postman.items, hgrouping,
    Postman.names_inServiceOrder hsome, hplaced]
  -- both have the rank of the second one, so the names themselves decide
  rw [Postman.mergeSort_pair, if_neg (by decide +kernel)]

end RouteAtlas
