/-
  A project's export over many merges.

  ==== Problem ====

  An export is merged again and again.  A fresh export brings an identifier of its own for every
  request; the project's members refer to requests by the identifiers they have seen first.

  ==== Program ====

  `syncs` merges one synthesized export after the other, beginning with any document or none.

  ==== Spec ====

  After the last merge (`syncs_identity`):

  * there is one request for every key there ever was;
  * marked are those requests whose key the last fresh export does not have;
  * from the document in which a key first appears, its request keeps its identifier, and every
    other field that is not synthesized anew each time.

  ==== The crux ====

  One merge keeps all three (`MergedRequests`), as long as what it merges into has each key once: of
  two requests with one key the earlier would be forgotten.  A merge of a fresh export that has each
  key once writes such a document (`wellKeyed_merged`), so the run goes on from there.
-/
import RouteAtlas.Proofs.Insomnia.Step

namespace RouteAtlas.Insomnia

open Persisted (Fault isMarked bind_eq_ok_iff)
open Resource (ofKind)

/-! ## Keys of requests

The invariant of a run: every request has a key and no two have the same one.  A merge keeps it, and
adds the keys of the endpoints. -/

/-- Every request has a key, and no two the same. -/
structure WellKeyed (rs : List Resource) : Prop where
  keyed : ∀ r ∈ ofKind "request" rs, ∃ key, key? r = .ok (some key)
  distinct : (requestKeys rs).Nodup

/-- Where keys are distinct, the request that counts for a key is the one that has it. -/
theorem persistedRequest?_eq_some_iff {rs : List Resource} (h : (requestKeys rs).Nodup) {key : String}
    {r : Resource} : persistedRequest? rs key = some r ↔
      r ∈ ofKind "request" rs ∧ key? r = .ok (some key) := by
  rw [persistedRequest?, Dict.ofList_eq_self h, ← mem_keyed]
  exact ⟨Dict.mem_of_get?, Dict.get?_of_mem h⟩

/-- Gone are the persisted keys that no endpoint has. -/
theorem mem_keys_gone {settings : Settings} {endpoints : List Endpoint} {existing : List Resource}
    {key : String} : key ∈ Dict.keys (gone settings endpoints existing) ↔
      key ∈ requestKeys existing ∧ key ∉ endpoints.map (requestKey settings.serviceNames) := by
  constructor
  · intro h
    obtain ⟨⟨k, old⟩, hmem, rfl⟩ := List.mem_map.mp h
    obtain ⟨hold, hno⟩ := mem_gone.mp hmem
    exact ⟨mem_requestKeys.mpr ⟨old, mem_of_persistedRequest? hold⟩, hno⟩
  · rintro ⟨hkey, hno⟩
    have hmem : key ∈ Dict.keys (Dict.ofList (requestEntries existing)) :=
      Dict.mem_keys_ofList.mpr hkey
    obtain ⟨⟨k, old⟩, hl, rfl⟩ := List.mem_map.mp hmem
    exact List.mem_map.mpr ⟨(k, old), mem_gone.mpr
      ⟨Dict.get?_of_mem (Dict.nodup_keys_ofList _) hl, hno⟩, rfl⟩

section

variable {settings : Settings} {endpoints : List Endpoint} {existing merged : List Resource}
  (h : MergedRequests settings endpoints existing true merged)
include h

/-- **A merge keeps keys apart.** -/
theorem wellKeyed_merged (hkeys : (endpoints.map (requestKey settings.serviceNames)).Nodup) :
    WellKeyed merged := by
  refine ⟨fun r hr => key?_of_mem_merged h hr, ?_⟩
  rw [requestKeys_merged h]
  refine List.nodup_append.mpr ⟨hkeys, nodup_keys_gone settings endpoints existing, ?_⟩
  rintro key hkey _ hgone rfl
  exact (mem_keys_gone.mp hgone).2 hkey

/-- **The keys after a merge** are the persisted ones and those of the endpoints. -/
theorem mem_requestKeys_merged {key : String} : key ∈ requestKeys merged ↔
    key ∈ requestKeys existing ∨ key ∈ endpoints.map (requestKey settings.serviceNames) := by
  rw [requestKeys_merged h, List.mem_append, mem_keys_gone]
  constructor
  · rintro (hfresh | ⟨hold, -⟩)
    · exact .inr hfresh
    · exact .inl hold
  · rintro (hold | hfresh)
    · by_cases hfresh : key ∈ endpoints.map (requestKey settings.serviceNames)
      · exact .inl hfresh
      · exact .inr ⟨hold, hfresh⟩
    · exact .inl hfresh

end

/-! ## Many merges

By induction on the exports that are merged one after the other. -/

/-- What an export is synthesized from. -/
structure Synthesis where
  date : String := ""
  settings : Settings := {}
  endpoints : List Endpoint

namespace Synthesis

/-- The fresh export. -/
def document (f : Synthesis) : Dict Json := Insomnia.document f.date f.settings f.endpoints

/-- The keys of its requests. -/
def keys (f : Synthesis) : List String := f.endpoints.map (requestKey f.settings.serviceNames)

/-- The keys are all different, and no request has the name of a marked one. -/
structure Usable (f : Synthesis) : Prop where
  distinct : f.keys.Nodup
  unmarked : ∀ e ∈ f.endpoints,
    Text.startsWith Persisted.deprecationMark (Wording.requestName e) = false

instance (f : Synthesis) : Decidable f.Usable :=
  decidable_of_iff (f.keys.Nodup ∧ ∀ e ∈ f.endpoints,
      Text.startsWith Persisted.deprecationMark (Wording.requestName e) = false)
    ⟨fun h => ⟨h.1, h.2⟩, fun h => ⟨h.distinct, h.unmarked⟩⟩

end Synthesis

/-- One synthesized export after the other, merged into the document before. -/
def syncs (mark : Bool) (existing : Option (Dict Json)) (freshes : List Synthesis) :
    Except Fault (Option (Dict Json)) :=
  freshes.foldlM (fun before f => (merge f.document before mark).map some) existing

/-- One merge of the run, in terms of resources. -/
theorem mergedRequests_of_merge_document {f : Synthesis} {before : Option (Dict Json)}
    {merged : Dict Json} {mark : Bool} (h : merge f.document before mark = .ok merged) :
    MergedRequests f.settings f.endpoints (resourcesBefore before) mark (resourcesOf merged) :=
  mergedRequests_of_merge h

/-- A run is a run up to some document, and one from there. -/
theorem syncs_append {mark : Bool} {existing last : Option (Dict Json)} {first later : List Synthesis} :
    syncs mark existing (first ++ later) = .ok last ↔
      ∃ mid, syncs mark existing first = .ok mid ∧ syncs mark mid later = .ok last := by
  rw [syncs, List.foldlM_append]
  exact bind_eq_ok_iff

/-- A run is one merge and a run from there. -/
theorem syncs_cons {mark : Bool} {existing last : Option (Dict Json)} {f : Synthesis}
    {freshes : List Synthesis} : syncs mark existing (f :: freshes) = .ok last ↔
      ∃ merged, merge f.document existing mark = .ok merged ∧
        syncs mark (some merged) freshes = .ok last :=
  Persisted.foldlM_some_cons

section

variable {existing last : Option (Dict Json)} {freshes : List Synthesis}

/-- A run keeps keys apart. -/
theorem wellKeyed_syncs (hexisting : WellKeyed (resourcesBefore existing))
    (hfresh : ∀ f ∈ freshes, f.keys.Nodup) (hrun : syncs true existing freshes = .ok last) :
    WellKeyed (resourcesBefore last) := by
  induction freshes generalizing existing with
  | nil =>
    obtain rfl := Except.ok.inj hrun
    exact hexisting
  | cons f freshes ih =>
    obtain ⟨merged, hmerge, hrest⟩ := syncs_cons.mp hrun
    have hmerged : WellKeyed (resourcesBefore (some merged)) :=
      wellKeyed_merged (mergedRequests_of_merge_document hmerge) (hfresh f (List.mem_cons_self ..))
    exact ih hmerged (fun g hg => hfresh g (List.mem_cons_of_mem _ hg)) hrest

/-- No key is lost and none is invented. -/
theorem mem_requestKeys_syncs (hrun : syncs true existing freshes = .ok last) {key : String} :
    key ∈ requestKeys (resourcesBefore last) ↔
      key ∈ requestKeys (resourcesBefore existing) ∨ ∃ f ∈ freshes, key ∈ f.keys := by
  induction freshes generalizing existing with
  | nil =>
    obtain rfl := Except.ok.inj hrun
    exact ⟨.inl, fun h => h.elim id fun ⟨_, hf, _⟩ => absurd hf (List.not_mem_nil)⟩
  | cons f freshes ih =>
    obtain ⟨merged, hmerge, hrest⟩ := syncs_cons.mp hrun
    have hstep : key ∈ requestKeys (resourcesOf merged) ↔
        key ∈ requestKeys (resourcesBefore existing) ∨ key ∈ f.keys :=
      mem_requestKeys_merged (mergedRequests_of_merge_document hmerge)
    rw [ih hrest, resourcesBefore, Option.map_some, Option.getD_some, hstep, or_assoc]
    refine or_congr_right ?_
    simp only [List.mem_cons, exists_eq_or_imp]

/-- **A request keeps what is not synthesized anew**, however often its endpoint goes and comes
    back. -/
theorem syncs_keep_fields (hexisting : WellKeyed (resourcesBefore existing))
    (hfresh : ∀ f ∈ freshes, f.keys.Nodup) (hrun : syncs true existing freshes = .ok last)
    {r : Resource} (hr : r ∈ ofKind "request" (resourcesBefore existing)) {key : String}
    (hkey : key? r = .ok (some key)) :
    ∃ r' ∈ ofKind "request" (resourcesBefore last), key? r' = .ok (some key) ∧
      Dict.besides ownRequestFields r' = Dict.besides ownRequestFields r := by
  induction freshes generalizing existing r with
  | nil =>
    obtain rfl := Except.ok.inj hrun
    exact ⟨r, hr, hkey, rfl⟩
  | cons f freshes ih =>
    obtain ⟨merged, hmerge, hrest⟩ := syncs_cons.mp hrun
    have hrequests := mergedRequests_of_merge_document hmerge
    have hmerged : WellKeyed (resourcesBefore (some merged)) :=
      wellKeyed_merged hrequests (hfresh f (List.mem_cons_self ..))
    -- keys were distinct, so `r` is the one that counts; they are distinct again, so its successor is
    obtain ⟨r', hr', hkey', hfields⟩ := exists_successor hrequests
      ((persistedRequest?_eq_some_iff hexisting.distinct).mpr ⟨hr, hkey⟩)
    obtain ⟨r'', hr'', hkey'', hfields'⟩ :=
      ih hmerged (fun g hg => hfresh g (List.mem_cons_of_mem _ hg)) hrest hr' hkey'
    exact ⟨r'', hr'', hkey'', hfields'.trans hfields⟩

end

/-- **Requests over many merges.**  `earlier` and then `fresh` are merged into any document whose
    requests have keys of their own, or into none. -/
theorem syncs_identity {existing before : Option (Dict Json)} {earlier : List Synthesis}
    {fresh : Synthesis} {merged : Dict Json} (hexisting : WellKeyed (resourcesBefore existing))
    (hfresh : ∀ f ∈ earlier ++ [fresh], f.Usable) (hrun : syncs true existing earlier = .ok before)
    (h : merge fresh.document before true = .ok merged) :
    -- every request has a key, and the keys are all there ever were, each on one request
    (WellKeyed (resourcesOf merged) ∧ ∀ key, key ∈ requestKeys (resourcesOf merged) ↔
      key ∈ requestKeys (resourcesBefore existing) ∨ ∃ f ∈ earlier ++ [fresh], key ∈ f.keys) ∧
    -- marked is what the last fresh export does not have
    (∀ r ∈ ofKind "request" (resourcesOf merged), ∀ key, key? r = .ok (some key) →
      (isMarked r = true ↔ key ∉ fresh.keys)) ∧
    -- from any document on the way, a request keeps its identifier and all else that is not
    -- synthesized anew
    (∀ first later mid, earlier = first ++ later → syncs true existing first = .ok mid →
      ∀ r ∈ ofKind "request" (resourcesBefore mid), ∀ key, key? r = .ok (some key) →
        ∃ r' ∈ ofKind "request" (resourcesOf merged), key? r' = .ok (some key) ∧
          Dict.besides ownRequestFields r' = Dict.besides ownRequestFields r) := by
  have hall : syncs true existing (earlier ++ [fresh]) = .ok (some merged) :=
    syncs_append.mpr ⟨before, hrun, syncs_cons.mpr ⟨merged, h, rfl⟩⟩
  have hdistinct : ∀ f ∈ earlier ++ [fresh], f.keys.Nodup := fun f hf => (hfresh f hf).distinct
  have hlast : fresh ∈ earlier ++ [fresh] := List.mem_append_right _ (List.mem_singleton_self _)
  refine ⟨⟨wellKeyed_syncs hexisting hdistinct hall, fun key => mem_requestKeys_syncs hall⟩, ?_, ?_⟩
  · intro r hr key hkey
    exact isMarked_iff (mergedRequests_of_merge_document h) (hfresh fresh hlast).unmarked hr hkey
  · rintro first later mid rfl hfirst r hr key hkey
    obtain ⟨mid', hfirst', hrest⟩ := syncs_append.mp (List.append_assoc first later [fresh] ▸ hall)
    obtain rfl := Except.ok.inj (hfirst.symm.trans hfirst')
    have hmid : WellKeyed (resourcesBefore mid) := by
      refine wellKeyed_syncs hexisting (fun f hf => hdistinct f ?_) hfirst
      exact List.mem_append_left _ (List.mem_append_left _ hf)
    refine syncs_keep_fields hmid (fun f hf => hdistinct f ?_) hrest hr hkey
    rw [List.append_assoc]
    exact List.mem_append_right _ hf

/-- An export of the request for oneself. -/
def sampleReturn : Synthesis := { endpoints := [{ method := .get, path := "/users/me" }] }

/-- The request for oneself is given up, and comes back.  In the collection of the first run there
    is no endpoint for it, in that of the merge there is. -/
theorem syncs_identity_me : ∃ before merged r,
    syncs true (some sampleExport) [{ endpoints := [sampleEndpoint] }] = .ok before ∧
    merge sampleReturn.document before true = .ok merged ∧
    r ∈ ofKind "request" (resourcesOf merged) ∧ key? r = .ok (some "GET /users/me") ∧
    Dict.get? r "_id" = some (.str "r") ∧ isMarked r = false := by
  have hruns : (syncs true (some sampleExport) [{ endpoints := [sampleEndpoint] }]).toOption.any
      (fun before => (merge sampleReturn.document before true).toOption.any fun _ => true) = true := by
    decide +kernel
  -- the persisted request and its key
  have hkey : ∀ r ∈ ofKind "request" (resourcesBefore (some sampleExport)),
      Persisted.given key? r = some "GET /users/me" := by decide +kernel
  have hexisting : WellKeyed (resourcesBefore (some sampleExport)) :=
    ⟨fun r hr => ⟨_, Persisted.given_eq_some_iff.mp (hkey r hr)⟩, by decide +kernel⟩
  have husable : ∀ f ∈ [({ endpoints := [sampleEndpoint] } : Synthesis)] ++ [sampleReturn],
      f.Usable := by decide +kernel
  have hlast : sampleReturn.keys = ["GET /users/me"] := by decide +kernel
  obtain ⟨before, hbefore, hmerges⟩ := Persisted.exists_ok_of_any hruns
  obtain ⟨merged, hmerged, -⟩ := Persisted.exists_ok_of_any hmerges
  obtain ⟨-, hmarked, hkept⟩ := syncs_identity hexisting husable hbefore hmerged
  obtain ⟨r, hr, hrkey, hfields⟩ := hkept [] _ _ rfl rfl _ (List.mem_singleton_self _) _
    (Persisted.given_eq_some_iff.mp (hkey _ (List.mem_singleton_self _)))
  -- its identifier is one of the fields that are kept, and its endpoint is back
  refine ⟨before, merged, r, hbefore, hmerged, hr, hrkey, ?_, ?_⟩
  · have hother : "_id" ∉ ownRequestFields := by decide
    rw [← Dict.get?_besides hother r, hfields]
    rfl
  · refine Bool.eq_false_iff.mpr fun hmark => (hmarked r hr _ hrkey).mp hmark ?_
    rw [hlast]
    exact List.mem_singleton_self _

end RouteAtlas.Insomnia
