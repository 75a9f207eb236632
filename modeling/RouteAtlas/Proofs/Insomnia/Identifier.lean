/-
  Identifiers of a merged export.

  ==== Problem ====

  An export tells its resources by their identifiers.  A merge takes some over from what was
  persisted and makes others from what a fresh resource stands for; users rename folders and edit
  URLs meanwhile, so what an identifier was made of and what it stands for drift apart.

  ==== Program ====

  A fresh resource takes over the identifier of the persisted one that it finds: by key, by path, or
  as the first of its kind (`takenOver?`).  One that finds none keeps its own.  Behind them come the
  requests put aside and what passes through, under the identifiers that they have.

  ==== Spec ====

  The persisted identifiers are all different, and so are the fresh ones.  Then those of the merged
  export are (`distinctIds_merge_iff`) exactly when

  * no two endpoints with one key find a persisted request, and
  * no fresh identifier that is kept is a persisted one that lasts.

  Neither holds of all exports (`merge_repeats_id`).  A request whose URL was edited is put aside,
  and the request of the endpoint that it was made of comes back under the same identifier.  A folder
  that was renamed becomes the folder with its new name, and the one with its old name comes back.

  ==== The crux ====

  Every identifier of the merged export that is not fresh belongs to a persisted resource, and no
  persisted resource gives it away twice, but for requests that two endpoints find: folders are
  told by their paths (`Renames.injective`), what is put aside has a key that no endpoint has, and
  what passes through is of another kind or looked for among the identifiers that are there.
-/
import RouteAtlas.Proofs.Insomnia.TakenOver

namespace RouteAtlas.Insomnia

open Persisted (given)
open Resource (isA ofKind fieldOrNull)

/-- The persisted resources of kinds that no synthesis makes. -/
def otherKinds (existing : List Resource) : List Resource :=
  existing.filter fun r => !ownKinds.any fun k => isA k r

/-- The persisted identifiers that a merged export has in any case. -/
def lastingIds (settings : Settings) (endpoints : List Endpoint) (existing : List Resource)
    (mark : Bool) : List Json :=
  (resources settings endpoints).filterMap (takenOver? (resources settings endpoints) existing)
    ++ asideIds settings endpoints existing mark ++ idsOf (otherKinds existing)

/-- Identifiers do not come together. -/
structure KeptApart (settings : Settings) (endpoints : List Endpoint) (existing : List Resource)
    (mark : Bool) : Prop where
  /-- Of several endpoints with one key, none finds a persisted request. -/
  found_once : endpoints.Pairwise fun e e' =>
    requestKey settings.serviceNames e = requestKey settings.serviceNames e' →
      persistedRequest? existing (requestKey settings.serviceNames e) = none
  /-- A fresh identifier that is kept is none that lasts. -/
  fresh_new : ∀ f ∈ resources settings endpoints,
    takenOver? (resources settings endpoints) existing f = none →
      ∀ i ∈ lastingIds settings endpoints existing mark, (fieldOrNull f "_id" == i) = false

instance (settings : Settings) (endpoints : List Endpoint) (existing : List Resource) (mark : Bool) :
    Decidable (KeptApart settings endpoints existing mark) :=
  decidable_of_iff ((endpoints.Pairwise fun e e' =>
      requestKey settings.serviceNames e = requestKey settings.serviceNames e' →
        persistedRequest? existing (requestKey settings.serviceNames e) = none) ∧
      ∀ f ∈ resources settings endpoints,
        takenOver? (resources settings endpoints) existing f = none →
          ∀ i ∈ lastingIds settings endpoints existing mark, (fieldOrNull f "_id" == i) = false)
    ⟨fun h => ⟨h.1, h.2⟩, fun h => ⟨h.found_once, h.fresh_new⟩⟩

section

variable {settings : Settings} {endpoints : List Endpoint} {existing : List Resource}

/-! ## The keys of fresh requests

An identifier is taken over from a persisted request by a fresh one with its key.  Keys of fresh
requests are those of the endpoints, each of them once. -/

/-- The keys of the fresh requests are those of the endpoints. -/
theorem given_key?_resources (settings : Settings) (endpoints : List Endpoint) :
    (ofKind "request" (resources settings endpoints)).map (given key?)
      = endpoints.map fun e => some (requestKey settings.serviceNames e) :=
  ((Persisted.mapM_given_eq_ok_iff.mp (keys_fresh settings endpoints)).2).symm

/-- The key of a fresh request is that of an endpoint. -/
theorem key_mem_of_request {f : Resource} (hf : f ∈ resources settings endpoints)
    (hrequest : isA "request" f = true) {key : String} (hkey : given key? f = some key) :
    key ∈ endpoints.map (requestKey settings.serviceNames) := by
  have hmem : given key? f ∈ (ofKind "request" (resources settings endpoints)).map (given key?) :=
    List.mem_map_of_mem (List.mem_filter.mpr ⟨hf, hrequest⟩)
  rw [given_key?_resources, hkey] at hmem
  obtain ⟨e, he, heq⟩ := List.mem_map.mp hmem
  exact Option.some.inj heq ▸ List.mem_map_of_mem he

/-- The requests of endpoints with one key, read in the fresh export. -/
theorem found_once_iff : (endpoints.Pairwise fun e e' =>
      requestKey settings.serviceNames e = requestKey settings.serviceNames e' →
        persistedRequest? existing (requestKey settings.serviceNames e) = none) ↔
    (resources settings endpoints).Pairwise fun f g =>
      isA "request" f = true → isA "request" g = true → ∀ key, given key? f = some key →
        given key? g = some key → persistedRequest? existing key = none := by
  let Once : Option String → Option String → Prop := fun a b =>
    ∀ key, a = some key → b = some key → persistedRequest? existing key = none
  have honce : (endpoints.map fun e => some (requestKey settings.serviceNames e)).Pairwise Once ↔
      endpoints.Pairwise fun e e' =>
        requestKey settings.serviceNames e = requestKey settings.serviceNames e' →
          persistedRequest? existing (requestKey settings.serviceNames e) = none := by
    rw [List.pairwise_map]
    refine List.Pairwise.iff fun {e e'} => ⟨fun h heq => h _ rfl (congrArg some heq.symm), ?_⟩
    rintro h key hkey hkey'
    obtain rfl := Option.some.inj hkey
    exact h (Option.some.inj hkey').symm
  rw [← honce, ← given_key?_resources, List.pairwise_map, ofKind, List.pairwise_filter]

/-- **An identifier is taken over once**, but for requests with one key.  A persisted resource is of
    one kind and has one key, so two fresh resources that take it over are of that kind, and either
    have its key or are the place it stands for. -/
theorem eq_of_takenOver? (hfresh : DistinctIds (resources settings endpoints))
    (hexisting : DistinctIds existing) {f g : Resource} (hf : f ∈ resources settings endpoints)
    (hg : g ∈ resources settings endpoints) {i j : Json}
    (hi : takenOver? (resources settings endpoints) existing f = some i)
    (hj : takenOver? (resources settings endpoints) existing g = some j)
    (hkey : i.kind.isKey = true) (heq : (i == j) = true) :
    f = g ∨ isA "request" f = true ∧ isA "request" g = true ∧ ∃ key old, given key? f = some key ∧
      given key? g = some key ∧ persistedRequest? existing key = some old := by
  -- the two persisted resources are one, so they are of one kind
  obtain ⟨r, hr, hri, hrf⟩ := exists_of_takenOver? hfresh hexisting hf hi
  obtain ⟨s, hs, hsj, hsg⟩ := exists_of_takenOver? hfresh hexisting hg hj
  obtain rfl := hexisting.eq_of_get? hr hs hri hsj hkey heq
  have hkinds : isA "request" f = true ↔ isA "request" g = true := by
    rw [isA_iff, isA_iff, ← hrf, ← hsg]
  rcases takenOver?_cases hfresh hexisting hf hi with ⟨hrequest, key, old, hkf, hold, hoi⟩ | hrenames
  · rcases takenOver?_cases hfresh hexisting hg hj with ⟨hrequest', key', old', hkg, hold', hoj⟩ | hno
    · obtain rfl := hexisting.eq_of_get? (mem_existing_of_persistedRequest? hold)
        (mem_existing_of_persistedRequest? hold') hoi hoj hkey heq
      obtain rfl := Option.some.inj (Except.ok.inj
        ((mem_of_persistedRequest? hold).2.symm.trans (mem_of_persistedRequest? hold').2))
      exact .inr ⟨hrequest, hrequest', key, old, hkf, hkg, hold⟩
    · exact absurd (hno.kind.1.symm.trans (hkinds.mp hrequest)) (by decide)
  · rcases takenOver?_cases hfresh hexisting hg hj with ⟨hrequest', -⟩ | hrenames'
    · exact absurd (hrenames.kind.1.symm.trans (hkinds.mpr hrequest')) (by decide)
    · exact .inl (hrenames.injective hexisting hrenames' hkey heq)

/-- What is put aside is apart: no two persisted requests have one identifier.  They have different
    keys and are therefore different resources, and different resources have different identifiers. -/
theorem pairwise_asideIds (hexisting : DistinctIds existing) {mark : Bool}
    (hkeys : ∀ i ∈ asideIds settings endpoints existing mark, i.kind.isKey = true) :
    (asideIds settings endpoints existing mark).Pairwise fun i j => (i == j) = false := by
  have hone : ∀ {g : String × Resource}, g ∈ gone settings endpoints existing →
      g.2 ∈ existing ∧ key? g.2 = .ok (some g.1) := by
    intro g hg
    obtain ⟨hmem, hkey⟩ := mem_of_mem_gone hg
    exact ⟨(List.mem_filter.mp hmem).1, hkey⟩
  cases mark with
  | false => exact List.Pairwise.nil
  | true =>
    have hkeys : ∀ g ∈ gone settings endpoints existing, (fieldOrNull g.2 "_id").kind.isKey = true :=
      fun g hg => hkeys _ (List.mem_map_of_mem (List.mem_map_of_mem (f := Prod.snd) hg))
    show (((gone settings endpoints existing).map Prod.snd).map (fieldOrNull · "_id")).Pairwise _
    rw [List.pairwise_map, List.pairwise_map]
    have hnodup : (gone settings endpoints existing).Pairwise fun g g' => g.1 ≠ g'.1 :=
      List.pairwise_map.mp (nodup_keys_gone settings endpoints existing)
    refine hnodup.imp_of_mem fun {g g'} hg hg' hne => Bool.eq_false_iff.mpr fun heq => hne ?_
    obtain ⟨hmem, hkey⟩ := hone hg
    obtain ⟨hmem', hkey'⟩ := hone hg'
    rw [hexisting.eq_of_beq hmem hmem' (hkeys g hg) heq] at hkey
    exact Option.some.inj (Except.ok.inj (hkey.symm.trans hkey'))

section

variable {mark : Bool} (hfresh : DistinctIds (resources settings endpoints))
  (hexisting : DistinctIds existing)
  (hkeys : ∀ i ∈ keptIds settings endpoints existing mark, i.kind.isKey = true)
include hkeys

/-- An identifier that is taken over was looked up by before. -/
theorem isKey_of_takenOver? {f : Resource} (hf : f ∈ resources settings endpoints) {i : Json}
    (h : takenOver? (resources settings endpoints) existing f = some i) : i.kind.isKey = true := by
  rw [← idAfter_of_some h]
  exact hkeys _ (List.mem_append_left _ (List.mem_map_of_mem hf))

include hfresh hexisting

/-- The fresh resources are apart once they are merged.  A fresh resource keeps its own identifier
    or takes one over, so that there are four cases for two of them. -/
theorem pairwise_idAfter (h : KeptApart settings endpoints existing mark) :
    ((resources settings endpoints).map (idAfter (resources settings endpoints) existing)).Pairwise
      fun i j => (i == j) = false := by
  have hlasting : ∀ {f : Resource} {i : Json}, f ∈ resources settings endpoints →
      takenOver? (resources settings endpoints) existing f = some i →
      i ∈ lastingIds settings endpoints existing mark := fun hf hi =>
    List.mem_append_left _ (List.mem_append_left _ (List.mem_filterMap.mpr ⟨_, hf, hi⟩))
  have honce := found_once_iff.mp h.found_once
  rw [List.pairwise_map]
  refine (hfresh.differ.and honce).imp_of_mem fun {f g} hf hg hpair => ?_
  obtain ⟨hne, honce⟩ := hpair
  rw [idAfter, idAfter]
  -- two that are kept are fresh ones, a kept one is none that lasts, and one is taken over once
  cases hi : takenOver? (resources settings endpoints) existing f with
  | none =>
    cases hj : takenOver? (resources settings endpoints) existing g with
    | none => exact hne
    | some j => exact h.fresh_new f hf hi j (hlasting hg hj)
  | some i =>
    cases hj : takenOver? (resources settings endpoints) existing g with
    | none =>
      show (i == fieldOrNull g "_id") = false
      rw [Json.beq_comm_of_key (isKey_of_takenOver? hkeys hf hi)]
      exact h.fresh_new g hg hj i (hlasting hf hi)
    | some j =>
      refine Bool.eq_false_iff.mpr fun heq => ?_
      have hkey := isKey_of_takenOver? hkeys hf hi
      rcases eq_of_takenOver? hfresh hexisting hf hg hi hj hkey heq with
        rfl | ⟨hf, hg, key, old, hk, hk', hold⟩
      · exact absurd ((hfresh.beq_self hf).symm.trans hne) (by decide)
      · exact absurd ((honce hf hg key hk hk').symm.trans hold) (by simp)

/-- What is put aside is apart from the merged fresh resources.  An identifier that is taken over
    and put aside would be that of a request with a key of the endpoints and without one. -/
theorem idAfter_ne_asideIds (h : KeptApart settings endpoints existing mark) {f : Resource}
    (hf : f ∈ resources settings endpoints) {i : Json}
    (hi : i ∈ asideIds settings endpoints existing mark) :
    (idAfter (resources settings endpoints) existing f == i) = false := by
  rw [idAfter]
  cases hj : takenOver? (resources settings endpoints) existing f with
  | none => exact h.fresh_new f hf hj i (List.mem_append_left _ (List.mem_append_right _ hi))
  | some j =>
    refine Bool.eq_false_iff.mpr fun heq => ?_
    have hkey := isKey_of_takenOver? hkeys hf hj
    obtain ⟨key, old, hgone, hold, rfl⟩ := mem_asideIds hi
    obtain ⟨hmem, hkind⟩ := List.mem_filter.mp hold
    obtain ⟨r, hr, hrj, hrf⟩ := exists_of_takenOver? hfresh hexisting hf hj
    obtain rfl := hexisting.eq_of_get? hr hmem hrj (hexisting.get?_eq hmem) hkey heq
    -- so it is a request, whose key an endpoint has
    rcases takenOver?_cases hfresh hexisting hf hj with
      ⟨hrequest, key', found, hk, hfound, hfid⟩ | hrenames
    · have hself : (j == j) = true := by
        rw [← fieldOrNull_of_get? hrj]
        exact hexisting.beq_self hr
      obtain rfl :=
        hexisting.eq_of_get? hr (mem_existing_of_persistedRequest? hfound) hrj hfid hkey hself
      obtain ⟨hpersisted, hno⟩ := mem_gone.mp hgone
      obtain rfl := Option.some.inj (Except.ok.inj
        ((mem_of_persistedRequest? hpersisted).2.symm.trans (mem_of_persistedRequest? hfound).2))
      exact hno (key_mem_of_request hf hrequest hk)
    · have hrequest : isA "request" f = true := isA_iff.mpr (hrf.symm.trans (isA_iff.mp hkind))
      exact absurd (hrenames.kind.1.symm.trans hrequest) (by decide)

/-- What passes through is apart from all that is merged.  An environment passes only if its
    identifier is not kept.  Anything else that passes is of another kind than what has a kept
    identifier. -/
theorem keptIds_ne_passing (h : KeptApart settings endpoints existing mark)
    {i : Json} (hi : i ∈ keptIds settings endpoints existing mark) {r : Resource} (hr : r ∈ existing)
    (hpass : passesBeside (keptIds settings endpoints existing mark) r = true) :
    (i == fieldOrNull r "_id") = false := by
  cases hany : ownKinds.any fun k => isA k r with
  | true =>
    -- an environment, looked for among the identifiers that are there
    rw [Json.beq_comm_of_key (hkeys i hi)]
    rw [passesBeside, hany] at hpass
    split at hpass
    · exact absurd ‹(!true) = true› (by decide)
    · split at hpass
      · rw [Bool.not_eq_true', List.contains_eq_any_beq, List.any_eq_false] at hpass
        exact Bool.eq_false_iff.mpr (hpass i hi)
      · exact absurd hpass Bool.false_ne_true
  | false =>
    rcases owner_of_mem_keptIds hfresh hexisting hi with ⟨f, hf, hnone, rfl⟩ | ⟨s, hs, hid, hkind⟩
    · refine h.fresh_new f hf hnone _ (List.mem_append_right _ (List.mem_map_of_mem ?_))
      exact List.mem_filter.mpr ⟨hr, by rw [hany]; rfl⟩
    · obtain ⟨kind, hown, hkind⟩ := hkind
      refine Bool.eq_false_iff.mpr fun heq => ?_
      obtain rfl := hexisting.eq_of_get? hs hr hid (hexisting.get?_eq hr) (hkeys i hi) heq
      exact absurd ((any_ownKinds hown hkind).symm.trans hany) (by decide)

omit hfresh in
/-- What comes together is seen in the merged export.  This is the converse: from the identifiers of
    the merged export, each condition is read off the pair that it is about. -/
theorem keptApart_of_pairwise (h : (keptIds settings endpoints existing mark ++ idsOf (existing.filter
      (passesBeside (keptIds settings endpoints existing mark)))).Pairwise
    fun i j => (i == j) = false) : KeptApart settings endpoints existing mark := by
  obtain ⟨hkept, -, hpassing⟩ := List.pairwise_append.mp h
  obtain ⟨hfront, -, haside⟩ := List.pairwise_append.mp hkept
  rw [List.pairwise_map] at hfront
  constructor
  case found_once =>
    rw [found_once_iff]
    refine hfront.imp_of_mem fun {f g} _ _ hne hf hg key hkf hkg => ?_
    -- both would take over the identifier of the one that is found
    cases hold : persistedRequest? existing key with
    | none => rfl
    | some old =>
      have hafter : ∀ {f : Resource}, isA "request" f = true → given key? f = some key →
          idAfter (resources settings endpoints) existing f = fieldOrNull old "_id" := by
        intro f hf hkf
        rw [idAfter, takenOver?, if_pos hf, hkf, Option.bind_some, hold]
        rfl
      rw [hafter hf hkf, hafter hg hkg] at hne
      have hmem := mem_existing_of_persistedRequest? hold
      exact absurd ((hexisting.beq_self hmem).symm.trans hne) (by decide)
  case fresh_new =>
    intro f hf hnone i hi
    have hmem : idAfter (resources settings endpoints) existing f ∈ _ := List.mem_map_of_mem hf
    rw [← idAfter_of_none hnone]
    rcases List.mem_append.mp hi with hi | hi
    · rcases List.mem_append.mp hi with hi | hi
      · obtain ⟨g, hg, htaken⟩ := List.mem_filterMap.mp hi
        rw [← idAfter_of_some htaken]
        refine Json.apart_of_pairwise hfront hf hg (hkeys _ (List.mem_append_left _ hmem)) ?_
        rintro rfl
        exact absurd (hnone.symm.trans htaken) (by simp)
      · exact haside _ hmem i hi
    · obtain ⟨r, hr, rfl⟩ := List.mem_map.mp hi
      obtain ⟨hr, hother⟩ := List.mem_filter.mp hr
      refine hpassing _ (List.mem_append_left _ hmem) _ (List.mem_map_of_mem ?_)
      exact List.mem_filter.mpr ⟨hr, by rw [passesBeside, if_pos hother]⟩

/-- **Identifiers are apart exactly when they do not come together**, in one of two ways. -/
theorem pairwise_ids_iff : ((keptIds settings endpoints existing mark ++ idsOf (existing.filter
      (passesBeside (keptIds settings endpoints existing mark)))).Pairwise
    fun i j => (i == j) = false) ↔ KeptApart settings endpoints existing mark := by
  refine ⟨keptApart_of_pairwise hexisting hkeys, fun h => ?_⟩
  refine List.pairwise_append.mpr ⟨List.pairwise_append.mpr ⟨?_, ?_, ?_⟩, ?_, ?_⟩
  · exact pairwise_idAfter hfresh hexisting hkeys h
  · exact pairwise_asideIds hexisting fun i hi => hkeys i (List.mem_append_right _ hi)
  · intro a ha i hi
    obtain ⟨f, hf, rfl⟩ := List.mem_map.mp ha
    exact idAfter_ne_asideIds hfresh hexisting hkeys h hf hi
  · exact (hexisting.sublist List.filter_sublist).pairwise
  · intro i hi j hj
    obtain ⟨r, hr, rfl⟩ := List.mem_map.mp hj
    obtain ⟨hmem, hpass⟩ := List.mem_filter.mp hr
    exact keptIds_ne_passing hfresh hexisting hkeys h hi hmem hpass

end

/-- Nothing persisted, nothing to come together with. -/
theorem keptApart_nil (hfresh : DistinctIds (resources settings endpoints)) (mark : Bool) :
    KeptApart settings endpoints [] mark := by
  have hnil : DistinctIds [] := ⟨fun _ hr => absurd hr (List.not_mem_nil), List.Pairwise.nil⟩
  refine ⟨List.pairwise_of_forall fun _ _ _ => rfl, fun f _ _ i hi => ?_⟩
  rcases List.mem_append.mp hi with hi | hi
  · rcases List.mem_append.mp hi with hi | hi
    · obtain ⟨g, hg, htaken⟩ := List.mem_filterMap.mp hi
      obtain ⟨r, hr, -⟩ := exists_of_takenOver? hfresh hnil hg htaken
      exact absurd hr (List.not_mem_nil)
    · obtain ⟨_, old, -, hold, -⟩ := mem_asideIds hi
      exact absurd hold (List.not_mem_nil)
  · exact absurd hi (List.not_mem_nil)

/-- **The identifiers of a merged export are all different exactly when they are kept apart.** -/
theorem distinctIds_merge_iff {date : String} {before : Option (Dict Json)} {merged : Dict Json}
    {mark : Bool} (hfresh : DistinctIds (resources settings endpoints))
    (hexisting : DistinctIds (resourcesBefore before))
    (h : merge (document date settings endpoints) before mark = .ok merged) :
    DistinctIds (resourcesOf merged) ↔ KeptApart settings endpoints (resourcesBefore before) mark := by
  rcases merge_cases h with ⟨hnone, heq⟩ | hmerge
  · rw [hnone, heq]
    exact iff_of_true hfresh (keptApart_nil hfresh mark)
  · obtain ⟨hkeys, hids, hhas⟩ := ids_of_mergeResources hfresh hexisting hmerge
    rw [← pairwise_ids_iff hfresh hexisting hkeys, ← hids]
    constructor
    · exact DistinctIds.pairwise
    · exact fun hpairs => ⟨hhas, List.pairwise_map.mp hpairs⟩

end

/-- The request for users is a new one. -/
theorem distinctIds_merge_users : ∃ merged,
    merge (document "1" {} [sampleEndpoint]) (some sampleExport) true = .ok merged ∧
    DistinctIds (resourcesOf merged) := by
  have hfresh : DistinctIds (resources {} [sampleEndpoint]) := by decide +kernel
  have hexisting : DistinctIds (resourcesBefore (some sampleExport)) := by decide +kernel
  have hapart : KeptApart {} [sampleEndpoint] (resourcesBefore (some sampleExport)) true := by
    decide +kernel
  have hruns : (merge (document "1" {} [sampleEndpoint]) (some sampleExport) true).toOption.any
      (fun _ => true) = true := by
    decide +kernel
  obtain ⟨merged, hmerged, -⟩ := Persisted.exists_ok_of_any hruns
  exact ⟨merged, hmerged, (distinctIds_merge_iff hfresh hexisting hmerged).mpr hapart⟩

/-! ## Exports that were edited

Changing a URL or a folder's name leaves all identifiers alone, and is enough for one of them to be
written twice. -/

/-- A fresh export whose resources were edited one by one. -/
def editedExport (edit : Resource → Resource) (endpoints : List Endpoint) : Dict Json :=
  [("resources", .arr (((resources {} endpoints).map edit).map .obj))]

/-- Where edits leave identifiers alone, they stay different. -/
theorem distinctIds_editedExport {edit : Resource → Resource} {endpoints : List Endpoint}
    (hedit : ∀ r, Dict.get? (edit r) "_id" = Dict.get? r "_id")
    (h : DistinctIds (resources {} endpoints)) :
    DistinctIds (resourcesOf (editedExport edit endpoints)) := by
  rw [resourcesOf_of_get? rfl]
  refine ⟨fun r hr => ?_, List.pairwise_map.mpr (h.differ.imp fun {r s} hrs => ?_)⟩
  · obtain ⟨f, hf, rfl⟩ := List.mem_map.mp hr
    rw [hedit]
    exact h.has f hf
  · rw [fieldOrNull, fieldOrNull, hedit, hedit]
    exact hrs

/-- The request has another URL. -/
def withUrl (url : String) (r : Resource) : Resource :=
  if isA "request" r then Dict.put r "url" (.str url) else r

/-- The folder has another name. -/
def withFolderName (name : String) (r : Resource) : Resource :=
  if isA "request_group" r then Dict.put r "name" (.str name) else r

/-- An endpoint that lists people. -/
def otherEndpoint : Endpoint where
  method := .get
  path := "/people"

/-- **Edited resources have the identifiers of fresh ones.**  The URL of the request for users was
    edited: that request is put aside, and the one for users is new.  The folder of users was renamed
    to the one of people: it becomes that one, and the folder of users is new. -/
theorem merge_repeats_id :
    (DistinctIds (resources {} [sampleEndpoint]) ∧
      DistinctIds (resourcesOf (editedExport (withUrl "/people") [sampleEndpoint])) ∧ ∃ merged,
      merge (document "1" {} [sampleEndpoint])
        (some (editedExport (withUrl "/people") [sampleEndpoint])) true = .ok merged ∧
      ¬DistinctIds (resourcesOf merged)) ∧
    DistinctIds (resources {} [sampleEndpoint, otherEndpoint]) ∧
      DistinctIds (resourcesOf (editedExport (withFolderName "People") [sampleEndpoint])) ∧ ∃ merged,
      merge (document "1" {} [sampleEndpoint, otherEndpoint])
        (some (editedExport (withFolderName "People") [sampleEndpoint])) false = .ok merged ∧
      ¬DistinctIds (resourcesOf merged) := by
  have hsample : DistinctIds (resources {} [sampleEndpoint]) := by decide +kernel
  have hboth : DistinctIds (resources {} [sampleEndpoint, otherEndpoint]) := by decide +kernel
  have hurl : (merge (document "1" {} [sampleEndpoint])
      (some (editedExport (withUrl "/people") [sampleEndpoint])) true).toOption.any
      (fun merged => decide (¬DistinctIds (resourcesOf merged))) = true := by
    decide +kernel
  have hname : (merge (document "1" {} [sampleEndpoint, otherEndpoint])
      (some (editedExport (withFolderName "People") [sampleEndpoint])) false).toOption.any
      (fun merged => decide (¬DistinctIds (resourcesOf merged))) = true := by
    decide +kernel
  obtain ⟨merged, hmerged, hrepeats⟩ := Persisted.exists_ok_of_any hurl
  obtain ⟨merged', hmerged', hrepeats'⟩ := Persisted.exists_ok_of_any hname
  refine ⟨⟨hsample, distinctIds_editedExport (fun r => ?_) hsample, merged, hmerged,
    of_decide_eq_true hrepeats⟩, hboth, distinctIds_editedExport (fun r => ?_) hsample, merged',
    hmerged', of_decide_eq_true hrepeats'⟩
  · rw [withUrl]
    split
    · exact Dict.get?_put_of_ne (by decide) _ _
    · rfl
  · rw [withFolderName]
    split
    · exact Dict.get?_put_of_ne (by decide) _ _
    · rfl

end RouteAtlas.Insomnia
