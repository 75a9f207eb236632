/-
  Where the identifiers of a merged export come from.

  ==== Spec ====

  A fresh resource takes over the identifier of a persisted one (`takenOver?`): a request from the
  one with its key, the others from what they are renamed to.  One that finds none keeps its own.
  Behind them come the requests that are put aside, and what passes through, under the identifiers
  that they have.

  `Parts.ids_refreshed` and `Parts.ids_left` say this of the resources one by one, when the
  persisted ones have identifiers of their own.  From there `ids_of_mergeResources` gives the
  identifiers of the whole export as a list, computed from the two exports alone.

  ==== The crux ====

  A merge goes other ways: it renames first, and looks environments up by their new names.  That the
  environment has the identifier that it takes over is not read off the program but follows from
  identifiers being apart (`Parts.environment_id`).
-/
import RouteAtlas.Proofs.Insomnia.Merged

namespace RouteAtlas.Insomnia

open Persisted (given)
open Resource (isA ofKind fieldOrNull)

/-- The identifier that a fresh resource takes over from a persisted one: a request from the one with
    its key, any other from the one that it is renamed to. -/
def takenOver? (fresh existing : List Resource) (f : Resource) : Option Json :=
  if isA "request" f then
    ((given key? f).bind (persistedRequest? existing)).map (fieldOrNull · "_id")
  else (newNames fresh existing).toOption.bind fun names => Dict.get? names (fieldOrNull f "_id")

/-- The identifier of a fresh resource once it is merged. -/
def idAfter (fresh existing : List Resource) (f : Resource) : Json :=
  (takenOver? fresh existing f).getD (fieldOrNull f "_id")

/-- A fresh resource gets the identifier that it takes over. -/
theorem idAfter_of_some {fresh existing : List Resource} {f : Resource} {i : Json}
    (h : takenOver? fresh existing f = some i) : idAfter fresh existing f = i := by
  rw [idAfter, h]
  rfl

theorem idAfter_of_none {fresh existing : List Resource} {f : Resource}
    (h : takenOver? fresh existing f = none) : idAfter fresh existing f = fieldOrNull f "_id" := by
  rw [idAfter, h]
  rfl

/-- The identifiers of the persisted requests that are put aside, if they are. -/
def asideIds (settings : Settings) (endpoints : List Endpoint) (existing : List Resource)
    (mark : Bool) : List Json :=
  if mark then idsOf (Dict.values (gone settings endpoints existing)) else []

/-- The identifiers of what is merged, before anything passes through. -/
def keptIds (settings : Settings) (endpoints : List Endpoint) (existing : List Resource)
    (mark : Bool) : List Json :=
  (resources settings endpoints).map (idAfter (resources settings endpoints) existing)
    ++ asideIds settings endpoints existing mark

section

variable {settings : Settings} {endpoints : List Endpoint} {existing : List Resource}

/-! ## The identifier of one fresh resource

A request takes over the identifier of the persisted request with its key, anything else the new
name of its own identifier. -/

/-- A request takes over the identifier of the persisted request that counts for its key. -/
theorem takenOver?_requestOf (fresh : List Resource) (parent : String) (e : Endpoint) :
    takenOver? fresh existing (requestOf settings.serviceNames parent e)
      = (persistedRequest? existing (requestKey settings.serviceNames e)).map
        (fieldOrNull · "_id") := by
  have hkey : given key? (requestOf settings.serviceNames parent e)
      = some (requestKey settings.serviceNames e) :=
    Persisted.given_eq_some_iff.mpr (key?_requestOf ..)
  rw [takenOver?, if_pos (isA_requestOf ..), hkey, Option.bind_some]

theorem takenOver?_of_not_request {fresh : List Resource} {names : List (Json × Json)}
    (hnames : newNames fresh existing = .ok names) {f : Resource} (hf : isA "request" f = false) :
    takenOver? fresh existing f = Dict.get? names (fieldOrNull f "_id") := by
  rw [takenOver?, if_neg (by rw [hf]; exact Bool.false_ne_true), hnames]
  rfl

/-- **What is taken over**: by a request, the identifier of the persisted one with its key; by any
    other resource, its new name. -/
theorem takenOver?_cases (hfresh : DistinctIds (resources settings endpoints))
    (hexisting : DistinctIds existing) {f : Resource} (hf : f ∈ resources settings endpoints) {i : Json}
    (h : takenOver? (resources settings endpoints) existing f = some i) :
    (isA "request" f = true ∧ ∃ key old, given key? f = some key ∧
      persistedRequest? existing key = some old ∧ Dict.get? old "_id" = some i) ∨
    Renames settings existing f i := by
  rw [takenOver?] at h
  split at h
  · rename_i hrequest
    obtain ⟨old, hold, rfl⟩ := Option.map_eq_some_iff.mp h
    obtain ⟨key, hkey, hold⟩ := Option.bind_eq_some_iff.mp hold
    have hmem := mem_existing_of_persistedRequest? hold
    exact .inl ⟨hrequest, key, old, hkey, hold, hexisting.get?_eq hmem⟩
  · obtain ⟨names, hnames, hget⟩ := Option.bind_eq_some_iff.mp h
    have hnames : newNames (resources settings endpoints) existing = .ok names := by
      cases hresult : newNames (resources settings endpoints) existing with
      | error fault =>
        rw [hresult] at hnames
        exact absurd hnames (by simp [Except.toOption])
      | ok names' =>
        rw [hresult] at hnames
        exact congrArg _ (Option.some.inj hnames)
    exact .inr (renames_of_newNames hfresh hexisting hnames hf hget)

/-- It is the identifier of a persisted resource of its kind. -/
theorem exists_of_takenOver? (hfresh : DistinctIds (resources settings endpoints))
    (hexisting : DistinctIds existing) {f : Resource} (hf : f ∈ resources settings endpoints) {i : Json}
    (h : takenOver? (resources settings endpoints) existing f = some i) :
    ∃ r ∈ existing, Dict.get? r "_id" = some i ∧ Dict.get? r "_type" = Dict.get? f "_type" := by
  rcases takenOver?_cases hfresh hexisting hf h with ⟨hrequest, key, old, -, hold, hid⟩ | hrenames
  · obtain ⟨hmem, hkind⟩ := List.mem_filter.mp (mem_of_persistedRequest? hold).1
    exact ⟨old, hmem, hid, (isA_iff.mp hkind).trans (isA_iff.mp hrequest).symm⟩
  · exact hrenames.kind.2

/-! ## All identifiers

The identifiers of a merged export, resource by resource: of what is refreshed, of what is left
over, and of what passes through. -/

/-- The identifiers of resources that are said one by one. -/
theorem idsOf_of_forall₂ {α : Type} {id : α → Json} {xs : List α} {rs : List Resource}
    (h : List.Forall₂ (fun x r => Dict.get? r "_id" = some (id x)) xs rs) : idsOf rs = xs.map id := by
  induction h with
  | nil => rfl
  | cons hr _ ih =>
    rw [idsOf, List.map_cons, fieldOrNull_of_get? hr]
    exact congrArg _ ih

namespace Parts

variable {mark : Bool} {merged : List Resource}
  (parts : Parts settings endpoints existing mark merged) (hexisting : DistinctIds existing)
include hexisting

/-- **What refreshing makes of identifiers.** All but requests are renamed, so only for a request
    does it matter whether one was persisted. -/
theorem ids_refreshed :
    List.Forall₂ (fun f r => Dict.get? r "_id" = some (idAfter (resources settings endpoints) existing f))
      (resources settings endpoints) parts.refreshed := by
  have hrenamed : ∀ {f : Resource}, isA "request" f = false →
      idAfter (resources settings endpoints) existing f
        = newName parts.known.names (fieldOrNull f "_id") := fun hf => by
    rw [idAfter, takenOver?_of_not_request parts.names hf, newName]
  have hmem := (List.forall₂_and_left _ _).mpr
    ⟨fun entry (hentry : entry ∈ allEntries settings endpoints) => hentry, parts.rest_from⟩
  rw [resources_eq settings endpoints]
  refine .cons ?_ (.cons ?_ (List.forall₂_map_left_iff.mpr (hmem.imp fun entry r hr => ?_)))
  · rw [← resources_eq, hrenamed rfl]
    rfl
  · rw [← resources_eq, hrenamed rfl, parts.environment_id (hexisting.ofKind _)]
    rfl
  · rw [← resources_eq]
    obtain ⟨hentry, hfrom⟩ := hr
    cases hfrom with
    -- a folder is renamed
    | folder p =>
      rw [Entry.fresh, folderOf_eq (ne_root_of_folder_mem hentry), hrenamed rfl]
      rfl
    -- a request has the identifier of a persisted one, or its own
    | request stands parent origin =>
      rw [Entry.fresh, idAfter, takenOver?_requestOf]
      rcases origin with ⟨old, hold, hid⟩ | ⟨hnone, hid⟩
      · rw [hid, hold, hexisting.get?_eq (mem_existing_of_persistedRequest? hold)]
        rfl
      · rw [hid, hnone]
        rfl

/-- What is left over keeps its identifiers. -/
theorem ids_left : List.Forall₂ (fun (g : String × Resource) l =>
    Dict.get? l "_id" = some (fieldOrNull g.2 "_id"))
    (if mark then gone settings endpoints existing else []) parts.left := by
  have hold : ∀ g ∈ (if mark then gone settings endpoints existing else []), g.2 ∈ existing :=
    fun g hg => (List.mem_filter.mp (mem_of_mem_left hg)).1
  refine ((List.forall₂_and_left _ _).mpr ⟨hold, parts.putAside⟩).imp fun g l hl => ?_
  rw [hl.2.get?_eq (by decide) (by decide), hexisting.get?_eq hl.1]

/-- The identifiers of all that does not pass through are computed from the two exports alone. -/
theorem idsOf_front : idsOf parts.front = keptIds settings endpoints existing mark := by
  have happend : idsOf parts.front = idsOf parts.refreshed ++ idsOf parts.left := List.map_append ..
  rw [happend, idsOf_of_forall₂ (parts.ids_refreshed hexisting), idsOf_of_forall₂ (parts.ids_left hexisting),
    keptIds, asideIds, idsOf, Dict.values, List.map_map]
  cases mark <;> rfl

/-- In front of what passes through, every resource has an identifier. -/
theorem get?_id_front {r : Resource} (hr : r ∈ parts.front) :
    Dict.get? r "_id" = some (fieldOrNull r "_id") := by
  rcases List.mem_append.mp hr with hr | hr
  · obtain ⟨f, -, hid⟩ := Persisted.exists_of_forall₂_right (parts.ids_refreshed hexisting) hr
    rw [fieldOrNull_of_get? hid, hid]
  · obtain ⟨g, -, hid⟩ := Persisted.exists_of_forall₂_right (parts.ids_left hexisting) hr
    rw [fieldOrNull_of_get? hid, hid]

end Parts

/-- **The identifiers of a merged export**, each of which equals itself.  What is refreshed, put
    aside and passed through are listed in this order, and so are the identifiers. -/
theorem ids_of_mergeResources (hfresh : DistinctIds (resources settings endpoints))
    (hexisting : DistinctIds existing) {merged : List Resource} {mark : Bool}
    (h : mergeResources ((resources settings endpoints).map .obj) existing mark = .ok merged) :
    (∀ i ∈ keptIds settings endpoints existing mark, i.kind.isKey = true) ∧
    idsOf merged = keptIds settings endpoints existing mark
      ++ idsOf (existing.filter (passesBeside (keptIds settings endpoints existing mark))) ∧
    ∀ r ∈ merged, ∃ id, Dict.get? r "_id" = some id ∧ (id == id) = true := by
  obtain ⟨parts⟩ := parts_of_merge h
  have hids := parts.idsOf_front hexisting
  refine ⟨fun i hi => ?_, ?_, fun r hr => ?_⟩
  · rw [← hids] at hi
    obtain ⟨r, hr, rfl⟩ := List.mem_map.mp hi
    exact parts.keys r hr
  · have hsplit : idsOf merged = idsOf parts.front ++ idsOf parts.passed :=
      (congrArg idsOf parts.eq_front).trans (List.map_append ..)
    have hpassed : parts.passed = existing.filter (passesBeside (idsOf parts.front)) :=
      parts.passed_eq
    rw [← hids, hsplit, hpassed]
  · rw [parts.eq_front] at hr
    rcases List.mem_append.mp hr with hr | hr
    · rcases List.mem_append.mp hr with hr | hr
      · obtain ⟨f, hf, hid⟩ := Persisted.exists_of_forall₂_right (parts.ids_refreshed hexisting) hr
        refine ⟨_, hid, ?_⟩
        -- an identifier that is kept is a fresh one, one that is taken over was persisted
        cases htaken : takenOver? (resources settings endpoints) existing f with
        | none =>
          rw [idAfter_of_none htaken]
          exact hfresh.beq_self hf
        | some i =>
          rw [idAfter_of_some htaken]
          obtain ⟨r', hr', hid', -⟩ := exists_of_takenOver? hfresh hexisting hf htaken
          have hself := hexisting.beq_self hr'
          rwa [fieldOrNull_of_get? hid'] at hself
      · obtain ⟨g, hg, hid⟩ := Persisted.exists_of_forall₂_right (parts.ids_left hexisting) hr
        exact ⟨_, hid, hexisting.beq_self (List.mem_filter.mp (mem_of_mem_left hg)).1⟩
    · exact hexisting.has r (parts.mem_passed.mp hr).1

/-! ## Whose an identifier is

The other way round: an identifier that is kept belongs to a fresh resource that found none, or to a
persisted one of a kind that is merged. -/

/-- A fresh resource is of one of the kinds that a synthesis makes. -/
theorem kind_of_mem_resources {f : Resource} (hf : f ∈ resources settings endpoints) :
    ∃ kind ∈ ownKinds, isA kind f = true := by
  rcases mem_resources.mp hf with rfl | rfl | ⟨p, -, rfl⟩ | ⟨path, e, -, rfl⟩
  · exact ⟨"workspace", by decide, rfl⟩
  · exact ⟨"environment", by decide, rfl⟩
  · exact ⟨"request_group", by decide, rfl⟩
  · exact ⟨"request", by decide, rfl⟩

/-- An identifier that is put aside belongs to a persisted request that is gone. -/
theorem mem_asideIds {mark : Bool} {i : Json} (h : i ∈ asideIds settings endpoints existing mark) :
    ∃ key old, (key, old) ∈ gone settings endpoints existing ∧
      old ∈ ofKind "request" existing ∧ i = fieldOrNull old "_id" := by
  rw [asideIds] at h
  cases mark with
  | false => exact absurd h (List.not_mem_nil)
  | true =>
    obtain ⟨old, hold, rfl⟩ := List.mem_map.mp h
    obtain ⟨⟨key, old⟩, hgone, rfl⟩ := List.mem_map.mp hold
    exact ⟨key, old, hgone, (mem_of_mem_gone hgone).1, rfl⟩

/-- An identifier of what is merged is a fresh one, or belongs to a persisted resource of one of the
    kinds that a synthesis makes. -/
theorem owner_of_mem_keptIds (hfresh : DistinctIds (resources settings endpoints))
    (hexisting : DistinctIds existing) {mark : Bool} {i : Json}
    (hi : i ∈ keptIds settings endpoints existing mark) :
    (∃ f ∈ resources settings endpoints,
      takenOver? (resources settings endpoints) existing f = none ∧ i = fieldOrNull f "_id") ∨
    ∃ s ∈ existing, Dict.get? s "_id" = some i ∧ ∃ kind ∈ ownKinds, isA kind s = true := by
  rcases List.mem_append.mp hi with hfront | haside
  · obtain ⟨f, hf, rfl⟩ := List.mem_map.mp hfront
    cases htaken : takenOver? (resources settings endpoints) existing f with
    | none => exact .inl ⟨f, hf, htaken, idAfter_of_none htaken⟩
    | some j =>
      obtain ⟨s, hs, hid, htype⟩ := exists_of_takenOver? hfresh hexisting hf htaken
      obtain ⟨kind, hown, hkind⟩ := kind_of_mem_resources hf
      rw [idAfter_of_some htaken]
      exact .inr ⟨s, hs, hid, kind, hown, isA_iff.mpr (htype.trans (isA_iff.mp hkind))⟩
  · obtain ⟨key, old, -, hold, rfl⟩ := mem_asideIds haside
    obtain ⟨hmem, hkind⟩ := List.mem_filter.mp hold
    exact .inr ⟨old, hmem, hexisting.get?_eq hmem, "request", by decide, hkind⟩

end

end RouteAtlas.Insomnia
