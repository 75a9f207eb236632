/-
  The second collection of an unchanged project.

  ==== Problem ====

  A first run writes the collection as it was synthesized.  A second run synthesizes it anew, with
  another identifier, and merges it into what the first one wrote.  Nothing in the project has
  changed, so nothing should change in the document.

  ==== Program ====

  1. **The same tree** - what was written is read back with the requests of the endpoints
     (`flatten_document`), and each has the key of its endpoint, so the keys are all different
     (`nodup_leafKeys_document`).

  2. **If bodies fit** - then every request is complete and merging it into itself changes nothing
     (`merge_document_self`).

  3. **Only if** - the second run finds each request of the first one.  What comes out of merging has
     no body where none belongs, so there was none (`bodiesFit_of_merge_document`).

  ==== The crux ====

  The first run inserts and the second one matches, and only matching looks at the method: a body
  that was inserted for a method that does not send it is dropped by the second run.
-/
import RouteAtlas.Proofs.Postman.Idempotence
import RouteAtlas.Proofs.Postman.Synthesis

namespace RouteAtlas.Postman

open Persisted (isBodyless)

section

variable {settings : Settings} {endpoints : List Endpoint} {id first second : String} {mark : Bool}

/-! ## What was written

The items of a fresh collection, read back from the document: the endpoints' requests in their
folders, with the keys of the endpoints. -/

/-- The items of a fresh document are those that were built, read back. -/
theorem itemsOf_document : itemsOf (document id settings endpoints)
    = readBack (items settings endpoints) := rfl

/-- Its requests are those that were built. -/
theorem flatten_document : flatten (itemsOf (document id settings endpoints))
    = flatten (items settings endpoints) :=
  flatten_readBack (readable_of_built (built_items settings endpoints))

/-- A request that was written is that of an endpoint. -/
theorem mem_flatten_document {l : FolderPath × Dict Json} :
    l ∈ flatten (itemsOf (document id settings endpoints)) ↔
      ∃ e ∈ endpoints, placedLeaf settings.grouping settings.serviceNames e = l := by
  rw [flatten_document, (flatten_items_perm settings endpoints).mem_iff, List.mem_map]

theorem keyable_document : Keyable (itemsOf (document id settings endpoints)) := by
  intro l hl
  obtain ⟨e, -, rfl⟩ := mem_flatten_document.mp hl
  exact ⟨_, key?_itemOf settings.serviceNames e⟩

/-- The keys that were written are those of the requests, in the order of the tree. -/
theorem leafKeys_document_perm : (leafKeys (itemsOf (document id settings endpoints))).Perm
    (endpoints.map (requestKey settings.serviceNames)) := by
  rw [leafKeys_eq, flatten_document]
  refine ((flatten_items_perm settings endpoints).filterMap _).trans (.of_eq ?_)
  rw [List.filterMap_map]
  refine List.filterMap_eq_map_iff_forall_eq_some.mpr fun e _ => ?_
  exact keyGiven?_eq_some_iff.mpr (key?_itemOf settings.serviceNames e)

/-- Endpoints with keys of their own have requests with keys of their own. -/
theorem nodup_leafKeys_document (hkeys : (endpoints.map Endpoint.key).Nodup)
    (hpaths : ∀ e ∈ endpoints, Route.CleanPath e.path)
    (hfree : ∀ e ∈ endpoints,
      Persisted.BaseFree (Route.writtenChars Route.inDoubleBraces e.path.toList)) :
    (leafKeys (itemsOf (document id settings endpoints))).Nodup := by
  have hsame : endpoints.map (requestKey settings.serviceNames) = endpoints.map Endpoint.key :=
    List.map_congr_left fun e he => requestKey_eq_key _ (hpaths e he) (hfree e he)
  rw [leafKeys_document_perm.nodup_iff, hsame]
  exact hkeys

/-! ## If bodies fit

Then every request is complete, and a complete request merged with itself is the same. -/

/-- **Merging into what was written changes nothing.** The document is its own merged tree, and it
    has all the fields that a merge sets besides. -/
theorem merge_document_self
    (hdistinct : (leafKeys (itemsOf (document first settings endpoints))).Nodup)
    (hbodies : BodiesFit endpoints) :
    merge (document second settings endpoints) (some (document first settings endpoints)) mark
      = .ok (document first settings endpoints) := by
  have hbuilt := built_items settings endpoints
  have hproper : Proper (itemsOf (document first settings endpoints)) :=
    proper_readBack (readable_of_built hbuilt) (proper_of_built hbuilt)
  have hcomplete : ∀ l ∈ flatten (itemsOf (document first settings endpoints)),
      CompleteItem l.2 := by
    intro l hl
    obtain ⟨e, he, rfl⟩ := mem_flatten_document.mp hl
    exact completeItem_itemOf settings.serviceNames e (hbodies e he)
  have htree : MergedTree (itemsOf (document first settings endpoints))
      (itemsOf (document second settings endpoints)) mark
      (itemsOf (document first settings endpoints)) :=
    mergedTree_self hproper keyable_document hdistinct hcomplete
  rw [merge_of_mergedTree rfl rfl htree rfl, itemsOf_document, rebuilt]
  have hwritten : Item.toValues (readBack (items settings endpoints))
      = Item.toValues (items settings endpoints) := toValues_ofValues _
  rw [hwritten]
  rfl

/-! ## Only if

If nothing changed, every request was merged with itself; and merging takes the body away where none
belongs, so there was none. -/

/-- Where nothing is gone, the merged tree is the refreshed one. -/
theorem refreshAll_of_mergedTree_self {old merged : List Item} (h : MergedTree old old mark merged) :
    refreshAll (Dict.ofList (entries old)) old = .ok merged := by
  obtain ⟨-, refreshed, leftovers, hrefreshed, rfl, hmark⟩ := h
  have hnone : leftovers = [] := by
    cases mark with
    | false => exact hmark
    | true =>
      obtain ⟨-, hmapM⟩ : _ ∧ _ := hmark
      rw [gone_self] at hmapM
      exact (Except.ok.inj hmapM).symm
  rw [hnone, fill_empty]
  exact hrefreshed

/-- A request that merging leaves as it is has no body where none belongs. -/
theorem body_of_mergeLeaf {apps : List String} {e : Endpoint} {existing : Dict Json}
    (h : mergeLeaf (itemOf apps e) existing = .ok (itemOf apps e))
    (hless : isBodyless (.str e.method.word) = true) : e.parameters.body = none := by
  obtain ⟨request, hrequest, hmerge⟩ := request_mergeLeaf h
  obtain rfl : requestOf e apps = request := by
    have heq := (request_itemOf apps e).symm.trans hrequest
    exact Json.obj.inj (Option.some.inj heq)
  obtain ⟨headers, -, hsettled⟩ := settled_of_mergeRequest hmerge
  have hmethod : mergedMethod (Item.requestOf (itemOf apps e)) (Item.requestOf existing)
      = .str e.method.word :=
    (Option.some.inj hsettled.method_eq).symm
  have hbody := hsettled.bodyless (hmethod ▸ hless)
  rw [body_requestOf] at hbody
  exact Option.map_eq_none_iff.mp hbody

/-- **If merging changes nothing, bodies fit.** Whatever else was merged, this request was merged
    with itself, and the method decides what becomes of the body. -/
theorem bodiesFit_of_merge_document
    (h : merge (document second settings endpoints) (some (document first settings endpoints)) mark
      = .ok (document first settings endpoints)) : BodiesFit endpoints := by
  intro e he hless
  let old := itemsOf (document first settings endpoints)
  obtain ⟨merged, htree, hback⟩ : ∃ merged, MergedTree old old mark merged ∧
      old = readBack merged := by
    rcases merge_cases h with ⟨hitemless, -⟩ | ⟨written, merged, info, hwritten, htree, -, hrebuilt⟩
    · exact absurd rfl (hitemless _ rfl _)
    · obtain rfl := Option.some.inj hwritten
      refine ⟨merged, htree, ?_⟩
      show itemsOf (document first settings endpoints) = _
      rw [hrebuilt, itemsOf_rebuilt]
  have hread : Readable merged :=
    readable_mergedTree (readable_itemsOf _) (readable_itemsOf _) htree
  have hsame : flatten merged = flatten old := by rw [← flatten_readBack hread, ← hback]
  have hrefreshed := flatten_refreshAll (refreshAll_of_mergedTree_self htree)
  rw [hsame, List.forall₂_same] at hrefreshed
  have hleaf : placedLeaf settings.grouping settings.serviceNames e ∈ flatten old :=
    mem_flatten_document.mpr ⟨e, he, rfl⟩
  have hkey := key?_itemOf settings.serviceNames e
  -- the request is found again under its key
  rcases refreshLeaf_eq_ok_iff.mp (hrefreshed _ hleaf).2 with ⟨_, _, existing, -, -, hmerge⟩ |
    ⟨key, hkey', hnone, -⟩
  · exact body_of_mergeLeaf hmerge hless
  · obtain rfl : key = some (requestKey settings.serviceNames e) :=
      Except.ok.inj (hkey'.symm.trans hkey)
    have hmem : requestKey settings.serviceNames e ∈ Dict.keys (Dict.ofList (entries old)) :=
      Dict.mem_keys_ofList.mpr (mem_keys_entries.mpr ⟨_, hleaf, hkey⟩)
    exact absurd hmem (Dict.get?_eq_none_iff.mp hnone)

end

end RouteAtlas.Postman
