/-
  Handwork and its copies.

  ==== Problem ====

  Users write tests, scripts and settings into persisted requests, and save variants: several
  requests for one method and path, each with handwork of its own.  A merge should lose none of it.

  ==== Program ====

  A merge finds persisted requests by key, and of several with one key the last.

  ==== Spec ====

  `copies_kept_iff_unshadowed`: of any sort of handwork, the merged document has as many copies as the
  persisted one exactly when no request with such handwork is followed by another request with its
  key.  Of those that are, the handwork is gone; `copies_lost_of_variants` loses the first of two
  variants.  This holds of both formats.

  ==== The crux ====

  The dictionary of persisted requests is all a merge knows of them.  What it holds is carried over
  to the merged document (`Dict.Carried`), each request once, and nothing is added that looks like
  handwork (`Dict.Derived`).  So the copies that get lost are those that get lost in the dictionary,
  and these are counted there.
-/
import RouteAtlas.Proofs.Insomnia.Run
import RouteAtlas.Proofs.Postman.Resync
import RouteAtlas.Proofs.Postman.Survival

namespace RouteAtlas

open Dict (Carried Derived Unshadowed)

/-! ## Requests of a collection

Handwork is what is in a request and in no synthesis.  A merge moves it from the persisted request
with a key to the merged one, and adds none. -/

namespace Postman

/-- What an item and its request have that no synthesis makes. -/
def handwork (l : FolderPath × Dict Json) : Dict Json × Dict Json :=
  (Dict.besides ownItemFields l.2, Dict.besides ownRequestFields (Item.requestOf l.2))

/-- What survives keeps its handwork. -/
theorem handwork_eq_of_survives {used : String → Prop} {e l : FolderPath × Dict Json}
    (h : Survives used e.2 l.2) : handwork l = handwork e := by
  rw [handwork, h.fields, h.request, handwork]

/-- The item of an endpoint has no handwork. -/
theorem handwork_itemOf (path : FolderPath) (apps : List String) (e : Endpoint) :
    handwork (path, itemOf apps e) = ([], []) := by
  have hitem : Dict.besides ownItemFields (itemOf apps e) = [] := by
    rw [itemOf]
    cases e.responses <;> rfl
  have hrequest : Dict.besides ownRequestFields (Item.requestOf (itemOf apps e)) = [] := by
    rw [Item.requestOf, request_itemOf]
    show Dict.besides ownRequestFields (requestOf e apps) = []
    rw [requestOf]
    cases e.parameters.body <;> rfl
  rw [handwork, hitem, hrequest]

section

variable {fresh existing merged : Dict Json} (h : merge fresh (some existing) true = .ok merged)
include h

/-- Whatever is merged, the request that counts for a key is carried over. -/
theorem carried_merge : Carried handwork (entries (itemsOf existing)) (entries (itemsOf merged)) := by
  intro key e hget
  obtain ⟨l, hl, hkey, hsurvives⟩ := exists_survivor_merge h hget
  exact ⟨l, mem_entries.mpr ⟨hl, hkey⟩, handwork_eq_of_survives hsurvives⟩

/-- A merge adds no handwork to what was persisted, if there is none in the fresh collection. -/
theorem derived_merge (hfresh : ∀ l ∈ flatten (itemsOf fresh), handwork l = ([], [])) :
    Derived handwork ([], []) (entries (itemsOf existing)) (entries (itemsOf merged)) := by
  intro key l hl
  obtain ⟨hmem, hkey⟩ := mem_entries.mp hl
  rcases itemsOf_merge h with ⟨-, rfl⟩ | ⟨items, htree, hread, heq⟩
  · exact .inl (hfresh l hmem)
  · -- a leaf of the merged tree is a fresh one, or what became of the persisted one with its key
    rw [heq, flatten_readBack hread] at hmem
    rcases origin_of_leaf htree hmem hkey with ⟨l₀, hl₀, hsame⟩ | ⟨e, hget, hsurvives⟩
    · refine .inl ?_
      rw [handwork, hsame]
      exact hfresh l₀ hl₀
    · exact .inr ⟨e, hget, handwork_eq_of_survives hsurvives⟩

end

/-- A fresh collection has no handwork. -/
theorem handwork_document {id : String} {settings : Settings} {endpoints : List Endpoint} :
    ∀ l ∈ flatten (itemsOf (document id settings endpoints)), handwork l = ([], []) := by
  intro l hl
  obtain ⟨e, -, rfl⟩ := mem_flatten_document.mp hl
  exact handwork_itemOf ..

end Postman

/-! ## Requests of an export

The same of resources. -/

namespace Insomnia

/-- The fields of a synthesized request. -/
def synthesizedFields : List String := ["_id", "_type", "parameters", "pathParameters"] ++ ownRequestFields

/-- What a request has that no synthesis makes. -/
def handwork (r : Resource) : Dict Json := Dict.besides synthesizedFields r

/-- Handwork is read off the fields that no synthesis makes. -/
theorem handwork_congr {r s : Resource}
    (h : Dict.besides ownRequestFields r = Dict.besides ownRequestFields s) :
    handwork r = handwork s :=
  Dict.besides_congr (fun _ hname => List.mem_append_right _ hname) h

/-- The request of an endpoint has no handwork. -/
theorem handwork_requestAt (apps : List String) (workspace : String) (path : List String)
    (e : Endpoint) (id parent : Json) :
    handwork (requestAt apps workspace path e id parent) = [] := by
  rw [handwork, requestAt, Dict.besides_put (by decide), Dict.besides_put (by decide), requestOf]
  split <;> rfl

section

variable {settings : Settings} {endpoints : List Endpoint} {existing merged : List Resource}
  (h : MergedRequests settings endpoints existing true merged)
include h

/-- Whatever is merged, the request that counts for a key is carried over. -/
theorem carried_merged : Carried handwork (requestEntries existing) (requestEntries merged) := by
  intro key old hold
  obtain ⟨r, hr, hkey, hfields⟩ := exists_successor h hold
  exact ⟨r, mem_keyed.mpr ⟨hr, hkey⟩, handwork_congr hfields⟩

/-- A merge adds no handwork to what was persisted. -/
theorem derived_merged : Derived handwork [] (requestEntries existing) (requestEntries merged) := by
  intro key r hr
  obtain ⟨hmem, hkey⟩ := mem_keyed.mp hr
  rcases request_cases h hmem with ⟨e, -, hstand⟩ | ⟨key', old, hgone, haside⟩
  · obtain rfl := Option.some.inj (Except.ok.inj (hkey.symm.trans hstand.key))
    cases hstand with
    | again hold hmerge => exact .inr ⟨_, hold, handwork_congr (besides_mergeRequest hmerge)⟩
    | new hnone => exact .inl (handwork_requestAt ..)
  · obtain ⟨hold, -⟩ := mem_gone.mp hgone
    have hsame := haside.key.trans (mem_of_mem_gone hgone).2
    obtain rfl := Option.some.inj (Except.ok.inj (hkey.symm.trans hsame))
    exact .inr ⟨old, hold, handwork_congr haside.besides_eq⟩

end

end Insomnia

/-! ## Copies

A request is shadowed if another one behind it has its key.  Only the last one of a key is looked
up, so what the others have is lost. -/

/-- How many requests have handwork of a sort. -/
def copies {α γ : Type} (view : α → γ) (p : γ → Bool) (requests : Dict α) : Nat :=
  requests.countP fun e => p (view e.2)

/-- Of any sort of handwork, `after` has as many copies as `before` if none is shadowed, and, when
    `keys` are distinct, only if none is.  (A sort that requests without handwork are of is not
    meant there: there are more of them after every merge.) -/
structure KeepsUnshadowed {α γ : Type} (view : α → γ) (nothing : γ) (keys : List String)
    (before after : Dict α) : Prop where
  carried : Carried view before after
  kept : ∀ p : γ → Bool, Unshadowed (fun v => p (view v)) before →
    copies view p before ≤ copies view p after
  lost : keys.Nodup → ∀ p : γ → Bool, p nothing = false →
    copies view p before ≤ copies view p after → Unshadowed (fun v => p (view v)) before

/-- **No handwork is lost exactly when it is not shadowed**, in either format.  That every copy is
    carried needs nothing but a successful merge.  For the converse the fresh requests have distinct
    keys, since a key that is there twice would be counted twice. -/
theorem copies_kept_iff_unshadowed {settings : Settings} {endpoints : List Endpoint}
    {existing merged : Dict Json} :
    (∀ id, Postman.merge (Postman.document id settings endpoints) (some existing) true = .ok merged →
      KeepsUnshadowed Postman.handwork ([], [])
        (endpoints.map (Postman.requestKey settings.serviceNames))
        (Postman.entries (Postman.itemsOf existing)) (Postman.entries (Postman.itemsOf merged))) ∧
    (∀ date, Insomnia.merge (Insomnia.document date settings endpoints) (some existing) true
        = .ok merged →
      KeepsUnshadowed Insomnia.handwork []
        (endpoints.map (Insomnia.requestKey settings.serviceNames))
        (Insomnia.requestEntries (Insomnia.resourcesOf existing))
        (Insomnia.requestEntries (Insomnia.resourcesOf merged))) := by
  constructor
  · intro id h
    have hcarried := Postman.carried_merge h
    refine ⟨hcarried, fun p => Dict.countP_le_of_carried hcarried, fun hkeys p hnothing => ?_⟩
    -- each key is in the merged collection once, so that nothing is counted twice
    have hfresh : (Postman.leafKeys (Postman.itemsOf
        (Postman.document id settings endpoints))).Nodup :=
      Postman.leafKeys_document_perm.nodup_iff.mpr hkeys
    exact Dict.unshadowed_of_countP_le (Postman.derived_merge h Postman.handwork_document)
      (Postman.nodup_leafKeys_merge hfresh h) hnothing
  · intro date h
    have hrequests := Insomnia.mergedRequests_of_merge h
    have hcarried := Insomnia.carried_merged hrequests
    refine ⟨hcarried, fun p => Dict.countP_le_of_carried hcarried, fun hkeys p hnothing => ?_⟩
    exact Dict.unshadowed_of_countP_le (Insomnia.derived_merged hrequests)
      (Insomnia.wellKeyed_merged hrequests hkeys).distinct hnothing

/-- A collection of requests with scripts. -/
def scriptedCollection (requests : List (String × String)) : Dict Json :=
  [("info", .obj [("name", .str "Mine")]), ("item", .arr (requests.map fun (url, script) =>
    .obj [("name", .str script), ("request", .obj [("method", .str "GET"), ("url", .str url)]),
      ("event", .str script)]))]

/-- An export of requests with scripts. -/
def scriptedExport (requests : List (String × String)) : Dict Json :=
  [("resources", .arr (requests.map fun (url, script) =>
    .obj [("_id", .str script), ("_type", .str "request"), ("name", .str script),
      ("method", .str "GET"), ("url", .str url), ("afterResponseScript", .str script)]))]

/-- Two requests with scripts, for two paths. -/
def ownRequests : List (String × String) := [("/users", "a"), ("/users/me", "b")]

/-- Two requests with scripts, for one path. -/
def variantRequests : List (String × String) := [("/users", "a"), ("/users?limit=10", "b")]

/-- The script of neither request is lost.  They have different keys, so neither shadows the other. -/
theorem copies_kept_of_own_requests :
    (∃ merged, Postman.merge (Postman.document "1" {} [Insomnia.sampleEndpoint])
        (some (scriptedCollection ownRequests)) true = .ok merged ∧
      2 ≤ copies Postman.handwork (fun h => !h.1.isEmpty)
        (Postman.entries (Postman.itemsOf merged))) ∧
    (∃ merged, Insomnia.merge (Insomnia.document "1" {} [Insomnia.sampleEndpoint])
        (some (scriptedExport ownRequests)) true = .ok merged ∧
      2 ≤ copies Insomnia.handwork (fun h => !h.isEmpty)
        (Insomnia.requestEntries (Insomnia.resourcesOf merged))) := by
  constructor
  · have hruns : (Postman.merge (Postman.document "1" {} [Insomnia.sampleEndpoint])
        (some (scriptedCollection ownRequests)) true).toOption.any (fun _ => true) = true := by
      decide +kernel
    obtain ⟨merged, hmerged, -⟩ := Persisted.exists_ok_of_any hruns
    have hkept := ((copies_kept_iff_unshadowed).1 "1" hmerged).kept (fun h => !h.1.isEmpty)
      (Dict.unshadowed_of_nodup (by decide +kernel) _)
    have htwo : copies Postman.handwork (fun h => !h.1.isEmpty)
        (Postman.entries (Postman.itemsOf (scriptedCollection ownRequests))) = 2 := by
      decide +kernel
    exact ⟨merged, hmerged, htwo ▸ hkept⟩
  · have hruns : (Insomnia.merge (Insomnia.document "1" {} [Insomnia.sampleEndpoint])
        (some (scriptedExport ownRequests)) true).toOption.any (fun _ => true) = true := by
      decide +kernel
    obtain ⟨merged, hmerged, -⟩ := Persisted.exists_ok_of_any hruns
    have hkept := ((copies_kept_iff_unshadowed).2 "1" hmerged).kept (fun h => !h.isEmpty)
      (Dict.unshadowed_of_nodup (by decide +kernel) _)
    have htwo : copies Insomnia.handwork (fun h => !h.isEmpty)
        (Insomnia.requestEntries (Insomnia.resourcesOf (scriptedExport ownRequests))) = 2 := by
      decide +kernel
    exact ⟨merged, hmerged, htwo ▸ hkept⟩

/-- **Of two variants of a request the first one is lost.** Both have the key of the fresh request,
    and only the last one is remembered under it. -/
theorem copies_lost_of_variants :
    (∃ merged, Postman.merge (Postman.document "1" {} [Insomnia.sampleEndpoint])
        (some (scriptedCollection variantRequests)) true = .ok merged ∧
      copies Postman.handwork (fun h => !h.1.isEmpty)
        (Postman.entries (Postman.itemsOf (scriptedCollection variantRequests))) = 2 ∧
      copies Postman.handwork (fun h => !h.1.isEmpty)
        (Postman.entries (Postman.itemsOf merged)) = 1) ∧
    (∃ merged, Insomnia.merge (Insomnia.document "1" {} [Insomnia.sampleEndpoint])
        (some (scriptedExport variantRequests)) true = .ok merged ∧
      copies Insomnia.handwork (fun h => !h.isEmpty)
        (Insomnia.requestEntries (Insomnia.resourcesOf (scriptedExport variantRequests))) = 2 ∧
      copies Insomnia.handwork (fun h => !h.isEmpty)
        (Insomnia.requestEntries (Insomnia.resourcesOf merged)) = 1) := by
  have hcollection : (Postman.merge (Postman.document "1" {} [Insomnia.sampleEndpoint])
      (some (scriptedCollection variantRequests)) true).toOption.any (fun merged =>
        decide (copies Postman.handwork (fun h => !h.1.isEmpty)
          (Postman.entries (Postman.itemsOf merged)) = 1)) = true := by
    decide +kernel
  have hexport : (Insomnia.merge (Insomnia.document "1" {} [Insomnia.sampleEndpoint])
      (some (scriptedExport variantRequests)) true).toOption.any (fun merged =>
        decide (copies Insomnia.handwork (fun h => !h.isEmpty)
          (Insomnia.requestEntries (Insomnia.resourcesOf merged)) = 1)) = true := by
    decide +kernel
  obtain ⟨collection, hcollection, hone⟩ := Persisted.exists_ok_of_any hcollection
  obtain ⟨merged, hmerged, hone'⟩ := Persisted.exists_ok_of_any hexport
  refine ⟨⟨collection, hcollection, ?_, of_decide_eq_true hone⟩,
    ⟨merged, hmerged, ?_, of_decide_eq_true hone'⟩⟩
  · decide +kernel
  · decide +kernel

end RouteAtlas
