/-
  The second export of an unchanged project.

  ==== Problem ====

  The same as for a collection: a first run writes the export as it was synthesized, a second one
  synthesizes it anew, on another date, and merges it into what the first one wrote.

  ==== Program ====

  1. **If bodies fit** - a fresh export is written already, so it is written again
     (`merge_document_self`).  The identifiers are digests, and nothing keeps two of them from being
     the same; where those of two folders are, the second run takes one for the other.  So they have
     to differ (`DistinctFolders`).

  2. **Only if** - the second run finds each request of the first one, and leaves it with an empty
     body where none belongs; so it was empty (`bodiesFit_of_merge_document`).

  ==== The crux ====

  The date shows in one field of the document, which is there already and is left alone.  In the
  other direction, an unchanged list of resources only says that the refreshed ones are the fresh
  ones because nothing else is in it: as many resources were refreshed as there are
  (`refresh_of_mergeResources_self`).
-/
import RouteAtlas.Proofs.Insomnia.Idempotence

namespace RouteAtlas.Insomnia

open Persisted (isBodyless mapM_eq_ok_iff)
open Resource (ofKind)
open Route (opening closing)

/-- The identifiers of the workspace and of the folders are all different. -/
def DistinctFolders (settings : Settings) (endpoints : List Endpoint) : Prop :=
  ∀ p ∈ [] :: placesOf settings endpoints, ∀ q ∈ [] :: placesOf settings endpoints,
    parentIn (workspaceOf settings) p = parentIn (workspaceOf settings) q → p = q

instance (settings : Settings) (endpoints : List Endpoint) :
    Decidable (DistinctFolders settings endpoints) :=
  inferInstanceAs (Decidable (∀ p ∈ [] :: placesOf settings endpoints,
    ∀ q ∈ [] :: placesOf settings endpoints,
      parentIn (workspaceOf settings) p = parentIn (workspaceOf settings) q → p = q))

/-- Folders differ when the identifiers that are computed for them are all different. -/
theorem distinctFolders_of_nodup {settings : Settings} {endpoints : List Endpoint}
    (h : (([] :: placesOf settings endpoints).map (parentIn (workspaceOf settings))).Nodup) :
    DistinctFolders settings endpoints :=
  fun _ hp _ hq heq => List.inj_on_of_nodup_map h hp hq heq

section

variable {settings : Settings} {endpoints : List Endpoint} {first second : String} {mark : Bool}

/-! ## Keys

The key of a request in an export is computed from its method and its URL, where the base is a
variable in double braces.  It has to come out as the key of the endpoint. -/

/-- A reference to a variable, character by character. -/
theorem toList_reference (name : String) : (reference name).toList
    = opening :: opening :: ' ' :: '_' :: '.' :: (name.toList ++ [' ', closing, closing]) := by
  rw [reference, String.toList_append, String.toList_append]
  rfl

/-- **The key of an endpoint's request is the endpoint's own.** -/
theorem requestKey_eq_key (apps : List String) {e : Endpoint} (hpath : Route.CleanPath e.path)
    (hfree : Persisted.BaseFree (Route.writtenChars Route.behindColon e.path.toList)) :
    requestKey apps e = e.key := by
  have hurl : (reference (Folder.baseVariable e apps) ++ Route.coloned e.path).toList
      = (fun name => opening :: opening :: ' ' :: '_' :: '.' :: (name ++ [' ', closing, closing]))
          (Folder.baseVariable e apps).toList
        ++ (Route.writtenChars Route.behindColon e.path.toList ++ []) := by
    rw [String.toList_append, toList_reference, Route.coloned, String.toList_ofList,
      List.append_nil]
  show Persisted.keyOf e.method.word _ = Route.key e.method.word e.path
  exact Persisted.keyOf_url .spaced (Folder.isBaseName_baseVariable e apps) hpath .colon hfree
    (.inl rfl) hurl e.method.word

/-! ## If bodies fit

Then the fresh export is written, and what is written is written again. -/

/-- A fresh export is written when the identifiers of its folders differ.  With nothing known, every
    entry is refreshed to itself, so a fresh export is a special case of a merged one. -/
theorem written_of_distinctFolders (hbodies : BodiesFit endpoints)
    (hfolders : DistinctFolders settings endpoints) : ∃ environment rest,
    resources settings endpoints
      = workspaceAt settings (placeId [] settings []) :: environment :: rest ∧
    Written settings endpoints (placeId [] settings) environment rest [] [] := by
  have hidentified : Identified (placeId [] settings) (placesOf settings endpoints) :=
    identified_fresh fun p hp q hq heq => hfolders p hp q hq (Json.str.inj heq)
  obtain ⟨environment, rest, hsplit, henvironment, hholds⟩ :=
    holds_of_mapM_refresh Known.sound_nothing hbodies (refresh_nothing settings endpoints)
  have hfresh : environment
      = environmentAt settings (environmentId settings) (freshId settings []) := by
    rw [refresh_environment] at henvironment
    exact (Except.ok.inj henvironment).symm
  have hself : ∃ i, Dict.get? environment "_id" = some i ∧ (i == i) = true := by
    rw [hfresh]
    exact ⟨_, rfl, Json.str_beq_iff.mpr rfl⟩
  refine ⟨environment, rest, hsplit, written_of_identified Known.sound_nothing hidentified
    henvironment hself hholds fun r hr => ?_⟩
  have hmem : r ∈ resources settings endpoints := hsplit ▸ hr
  exact isKey_fresh hmem

/-- **Merging into what was written changes nothing.** -/
theorem merge_document_self (hkeys : (endpoints.map (requestKey settings.serviceNames)).Nodup)
    (hfolders : DistinctFolders settings endpoints) (hbodies : BodiesFit endpoints) :
    merge (document second settings endpoints) (some (document first settings endpoints)) mark
      = .ok (document first settings endpoints) := by
  obtain ⟨environment, rest, hsplit, hwritten⟩ := written_of_distinctFolders hbodies hfolders
  exact merge_document_of_written hkeys hsplit hwritten

/-! ## Only if

A merge that changes nothing has refreshed every request with itself.  But merging a request takes
the body away from a method that has none, so there was none before. -/

/-- What has as many resources as the fresh export was refreshed, and nothing else. -/
theorem refresh_of_mergeResources_self
    (h : mergeResources ((resources settings endpoints).map .obj) (resources settings endpoints) mark
      = .ok (resources settings endpoints)) :
    ∃ known, Known.of (resources settings endpoints) (resources settings endpoints) = .ok known ∧
      ∀ r ∈ resources settings endpoints, refresh known (.obj r) = .ok r := by
  obtain ⟨known, refreshed, ls, ps, hknown, hrefresh, -, -, hparts⟩ := parts_of_mergeResources h
  have hall := mapM_eq_ok_iff.mp hrefresh
  have hlength : refreshed.length = (resources settings endpoints).length := by
    rw [← hall.length_eq, List.length_map]
  have hfront : refreshed <+: resources settings endpoints :=
    ⟨ls ++ ps, by rw [← List.append_assoc]; exact hparts.symm⟩
  rw [hfront.eq_of_length hlength, List.forall₂_map_left_iff, List.forall₂_same] at hall
  exact ⟨known, hknown, hall⟩

/-- The request of an endpoint is known after the first run. -/
theorem exists_known_request {known : Known} {e : Endpoint} {path : List String}
    (hknown : Known.of (resources settings endpoints) (resources settings endpoints) = .ok known)
    (hr : requestOf settings.serviceNames (parentIn (workspaceOf settings) path) e
      ∈ resources settings endpoints) :
    ∃ old, Dict.get? known.requests (requestKey settings.serviceNames e) = some old := by
  rw [requests_of_knownOf hknown]
  have hentry : (requestKey settings.serviceNames e,
      requestOf settings.serviceNames (parentIn (workspaceOf settings) path) e)
        ∈ keyed (ofKind "request" (resources settings endpoints)) :=
    mem_keyed.mpr ⟨List.mem_filter.mpr ⟨hr, isA_requestOf ..⟩, key?_requestOf ..⟩
  refine Option.ne_none_iff_exists'.mp fun hnone => ?_
  refine Dict.get?_eq_none_iff.mp hnone (Dict.mem_keys_ofList.mpr ?_)
  exact List.mem_map_of_mem hentry

/-- A request that merging leaves as it is has an empty body where none belongs. -/
theorem body_of_mergeRequest {apps : List String} {parent : String} {e : Endpoint}
    {fresh existing : Resource}
    (hmethod : Dict.get? fresh "method" = some (.str e.method.word))
    (h : mergeRequest fresh existing = .ok (requestOf apps parent e))
    (hless : isBodyless (.str e.method.word) = true) : e.parameters.body = none := by
  obtain ⟨headers, -, hsettled⟩ := settled_of_mergeRequest h
  have hchosen : chosen "method" fresh existing = .str e.method.word := by
    have htruthy : (Json.str e.method.word).truthy = true := bne_iff_ne.mpr e.method.word_ne_empty
    rw [chosen, hmethod]
    exact Postman.orElse_of_truthy htruthy _
  have hempty := hsettled.bodyless (hchosen ▸ hless)
  have hbody : some (bodyOf e) = some (.obj []) := hempty
  cases hsome : e.parameters.body with
  | none => rfl
  | some body =>
    rw [bodyOf, hsome] at hbody
    exact absurd (Json.obj.inj (Option.some.inj hbody)) (List.cons_ne_nil _ _)

/-- **If merging changes nothing, bodies fit.** Each request is found under its key and merged with
    what was found, and a method that carries no body has had it taken away. -/
theorem bodiesFit_of_merge_document
    (h : merge (document second settings endpoints) (some (document first settings endpoints)) mark
      = .ok (document first settings endpoints)) : BodiesFit endpoints := by
  intro e he hless
  have hold : Dict.get? (document first settings endpoints) "resources"
      = some (.arr ((resources settings endpoints).map .obj)) := rfl
  obtain ⟨rs, hmerge, hsame⟩ := (merge_eq_ok_iff hold).mp h
  rw [ofValues_map_obj] at hmerge
  -- nothing changed, so the list of resources is the fresh one
  obtain rfl : rs = resources settings endpoints := by
    rw [hsame, Dict.get?_put_self] at hold
    have hvalues := Json.arr.inj (Option.some.inj hold)
    rw [← ofValues_map_obj rs, hvalues, ofValues_map_obj]
  obtain ⟨known, hknown, hrefresh⟩ := refresh_of_mergeResources_self hmerge
  have hentries : e ∈ (allEntries settings endpoints).filterMap Entry.endpoint? := by
    rw [allEntries, endpoints_entries]
    exact he
  obtain ⟨entry, hentry, hendpoint⟩ := List.mem_filterMap.mp hentries
  cases entry with
  | folder path => exact absurd hendpoint (by simp [Entry.endpoint?])
  | request path e' =>
    obtain rfl : e' = e := Option.some.inj hendpoint
    have hr : Entry.fresh settings.serviceNames (workspaceOf settings) (.request path e')
        ∈ resources settings endpoints := by
      rw [resources_eq]
      exact List.mem_cons_of_mem _ (List.mem_cons_of_mem _ (List.mem_map_of_mem hentry))
    obtain ⟨old, hfound⟩ : ∃ old,
        Dict.get? known.requests (requestKey settings.serviceNames e') = some old :=
      exists_known_request hknown hr
    have hagain := hrefresh _ hr
    rw [refresh_request, hfound] at hagain
    exact body_of_mergeRequest rfl hagain hless

end

end RouteAtlas.Insomnia
