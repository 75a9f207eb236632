/-
  The parameters that merged requests list.

  ==== Problem ====

  A route that was persisted before gets another query parameter.  After the next merge its request
  should list the parameter, in a collection as well as in an export.

  ==== Program ====

  In a collection the parameters are parts of the URL, and a merged request has the fresh URL.  In an
  export they are lists beside the URL, and merging requests writes neither of them.

  ==== Spec ====

  `parameters_listed_iff`, for every endpoint:

  * a merged collection has a request under its key that lists its parameters;
  * so has a merged export, if no request was persisted under that key;
  * if one was, then what the merged export has under that key lists the parameters exactly when the
    persisted request did.

  The second format lags behind the first (`merge_misses_parameter`).

  ==== The crux ====

  Whether a request lists parameters depends on the fields that hold them, and on nothing else
  (`lists_congr`).  So all there is to ask of a merge is which side gives it these fields.
-/
import RouteAtlas.Proofs.Insomnia.Step
import RouteAtlas.Proofs.Postman.Resync
import RouteAtlas.Proofs.Postman.Run

namespace RouteAtlas

/-! ## Names

Both formats list parameters as objects, each with its name under a label.  What is compared are the
names. -/

/-- The names of an endpoint's query parameters. -/
def Endpoint.queryNames (e : Endpoint) : List String :=
  (Example.queryEntries e.parameters.query).map (·.key)

/-- The names of the parameters in an endpoint's path. -/
def Endpoint.pathNames (e : Endpoint) : List String :=
  (Example.pathVariables e.path e.parameters.path).map (·.1)

/-- The texts that the objects of a list have under a label. -/
def textsUnder (label : String) : Option Json → List String
  | some (.arr objects) => objects.filterMap fun object => (object.field? label).bind Json.string?
  | _ => []

/-- Objects that have their names under a label list these names. -/
theorem textsUnder_map {α : Type} {label : String} {object : α → Json} {name : α → String}
    (h : ∀ x, (object x).field? label = some (.str (name x))) (xs : List α) :
    textsUnder label (some (.arr (xs.map object))) = xs.map name := by
  rw [textsUnder, List.filterMap_map]
  refine List.filterMap_eq_map_iff_forall_eq_some.mpr fun x _ => ?_
  show ((object x).field? label).bind Json.string? = some (name x)
  rw [h]
  rfl

/-- A list that is left out when nothing is in it. -/
def unlessEmpty {α : Type} (field : String) (object : α → Json) (xs : List α) : Dict Json :=
  if xs.isEmpty then [] else [(field, .arr (xs.map object))]

/-- A list under one field is not found under another. -/
theorem get?_unlessEmpty_of_ne {α : Type} {field other : String} (h : other ≠ field)
    (object : α → Json) (xs : List α) : Dict.get? (unlessEmpty field object xs) other = none := by
  rw [unlessEmpty]
  split
  · rfl
  · rw [Dict.get?_cons, beq_false_of_ne h]
    rfl

/-- A list that is left out when it is empty lists the same names. -/
theorem textsUnder_unlessEmpty {α : Type} {label field : String} {object : α → Json}
    {name : α → String} (h : ∀ x, (object x).field? label = some (.str (name x))) (xs : List α) :
    textsUnder label (Dict.get? (unlessEmpty field object xs) field) = xs.map name := by
  cases xs with
  | nil => rfl
  | cons x xs =>
    have hfield : Dict.get? (unlessEmpty field object (x :: xs)) field
        = some (.arr ((x :: xs).map object)) := List.lookup_cons_self
    rw [hfield, textsUnder_map h]

/-- Where a format has the names of parameters: in two lists, under a label. -/
structure ParameterFields where
  label : String
  query : String
  path : String

/-- The fields list every parameter of the endpoint. -/
def ParameterFields.Lists (format : ParameterFields) (fields : Dict Json) (e : Endpoint) : Prop :=
  (∀ name ∈ e.queryNames, name ∈ textsUnder format.label (Dict.get? fields format.query)) ∧
  (∀ name ∈ e.pathNames, name ∈ textsUnder format.label (Dict.get? fields format.path))

instance (format : ParameterFields) (fields : Dict Json) (e : Endpoint) :
    Decidable (format.Lists fields e) :=
  inferInstanceAs (Decidable (_ ∧ _))

namespace ParameterFields

variable {format : ParameterFields} {fields fields' : Dict Json} {e : Endpoint}

/-- Whether parameters are listed is read off two fields. -/
theorem lists_congr (hquery : Dict.get? fields format.query = Dict.get? fields' format.query)
    (hpath : Dict.get? fields format.path = Dict.get? fields' format.path) :
    format.Lists fields e ↔ format.Lists fields' e := by
  rw [Lists, Lists, hquery, hpath]

/-- Where the names are those of the parameters, all are listed. -/
theorem lists_of_texts_eq
    (hquery : textsUnder format.label (Dict.get? fields format.query) = e.queryNames)
    (hpath : textsUnder format.label (Dict.get? fields format.path) = e.pathNames) :
    format.Lists fields e := by
  rw [Lists, hquery, hpath]
  exact ⟨fun _ h => h, fun _ h => h⟩

end ParameterFields

/-! ## Collections

A collection has its parameters in the URL, which a merge takes from the fresh request. -/

namespace Postman

/-- Where a URL has parameters. -/
def parameterFields : ParameterFields := ⟨"key", "query", "variable"⟩

/-- The parts of an item's URL, none if it is a text. -/
def urlParts (item : Dict Json) : Dict Json :=
  match Dict.get? (Item.requestOf item) "url" with
  | some (.obj parts) => parts
  | _ => []

/-- The item lists every parameter of the endpoint. -/
def ListsParameters (item : Dict Json) (e : Endpoint) : Prop := parameterFields.Lists (urlParts item) e

instance (item : Dict Json) (e : Endpoint) : Decidable (ListsParameters item e) :=
  inferInstanceAs (Decidable (parameterFields.Lists (urlParts item) e))

/-- A field that is set if a list is not empty is the list that is left out if it is. -/
theorem fieldIf_not_isEmpty {α : Type} (field : String) (object : α → Json) (xs : List α) :
    fieldIf (!xs.isEmpty) field (.arr (xs.map object)) = unlessEmpty field object xs := by
  cases xs <;> rfl

/-- What a URL has under a label, of its query parameters and of the placeholders in its path. -/
theorem texts_urlOf (apps : List String) (e : Endpoint) {label : String}
    {ofQuery : Example.QueryEntry → String} {ofPath : String × String → String}
    (hquery : ∀ q, (queryJson q).field? label = some (.str (ofQuery q)))
    (hpath : ∀ p : String × String,
      (textFields [("key", p.1), ("value", p.2)]).field? label = some (.str (ofPath p))) :
    ∃ parts, urlOf e apps = .obj parts ∧
      textsUnder label (Dict.get? parts "query")
        = (Example.queryEntries e.parameters.query).map ofQuery ∧
      textsUnder label (Dict.get? parts "variable")
        = (Example.pathVariables e.path e.parameters.path).map ofPath := by
  rw [urlOf, fieldIf_not_isEmpty, fieldIf_not_isEmpty]
  refine ⟨_, rfl, ?_, ?_⟩
  · have hother : "query" ≠ "variable" := by decide
    rw [Dict.get?_append, Dict.get?_append, get?_unlessEmpty_of_ne hother, Option.or_none]
    exact textsUnder_unlessEmpty hquery _
  · have hother : "variable" ≠ "query" := by decide
    rw [Dict.get?_append, Dict.get?_append, get?_unlessEmpty_of_ne hother]
    exact textsUnder_unlessEmpty hpath _

/-- The URL of an endpoint's request lists its parameters. -/
theorem lists_urlOf (apps : List String) (e : Endpoint) :
    ∃ parts, urlOf e apps = .obj parts ∧ parameterFields.Lists parts e := by
  have hkeys : ∀ q, (queryJson q).field? parameterFields.label = some (.str q.key) := fun _ => rfl
  obtain ⟨parts, hparts, hquery, hpath⟩ := texts_urlOf apps e hkeys fun _ => rfl
  exact ⟨parts, hparts, ParameterFields.lists_of_texts_eq hquery hpath⟩

/-- An item with the URL of the endpoint lists its parameters. -/
theorem listsParameters_of_url_eq {apps : List String} {item : Dict Json} {e : Endpoint}
    (h : Dict.get? (Item.requestOf item) "url" = some (urlOf e apps)) : ListsParameters item e := by
  obtain ⟨parts, hparts, hlists⟩ := lists_urlOf apps e
  rw [ListsParameters, urlParts, h, hparts]
  exact hlists

/-- A merged request has the fresh URL. -/
theorem url_of_refreshLeaf {previous : Dict (FolderPath × Dict Json)} {apps : List String}
    {e : Endpoint} {item : Dict Json} (h : refreshLeaf previous (itemOf apps e) = .ok item) :
    Dict.get? (Item.requestOf item) "url" = some (urlOf e apps) := by
  have hfresh : Item.requestOf (itemOf apps e) = requestOf e apps := by
    rw [Item.requestOf, request_itemOf]
  rcases refreshLeaf_eq_ok_iff.mp h with ⟨_, _, existing, -, -, hmerge⟩ | ⟨_, -, -, rfl⟩
  · obtain ⟨request, hrequest, hmerged⟩ := request_mergeLeaf hmerge
    obtain ⟨_, -, hsettled⟩ := settled_of_mergeRequest hmerged
    rw [Item.requestOf, hrequest]
    show Dict.get? request "url" = _
    rw [hsettled.url_eq, hfresh]
    rfl
  · rw [hfresh]
    rfl

/-- **A merged collection lists the parameters of every endpoint.** Without a persisted collection
    it is the fresh one; with one, each fresh request is refreshed with its own URL, and filling in
    what is left over only adds requests. -/
theorem exists_listsParameters_of_merge {settings : Settings} {endpoints : List Endpoint}
    {id : String} {before : Option (Dict Json)} {mark : Bool} {merged : Dict Json}
    (h : merge (document id settings endpoints) before mark = .ok merged) {e : Endpoint}
    (he : e ∈ endpoints) :
    ∃ l, (requestKey settings.serviceNames e, l) ∈ entries (itemsOf merged) ∧
      ListsParameters l.2 e := by
  have hkey := key?_itemOf settings.serviceNames e
  have hfresh : placedLeaf settings.grouping settings.serviceNames e
      ∈ flatten (itemsOf (document id settings endpoints)) := mem_flatten_document.mpr ⟨e, he, rfl⟩
  rcases itemsOf_merge h with ⟨-, rfl⟩ | ⟨items, htree, hread, heq⟩
  · have hurl : Dict.get? (Item.requestOf (itemOf settings.serviceNames e)) "url"
        = some (urlOf e settings.serviceNames) := rfl
    exact ⟨_, mem_entries.mpr ⟨hfresh, hkey⟩, listsParameters_of_url_eq hurl⟩
  · obtain ⟨-, refreshed, leftovers, hrefreshed, rfl, -⟩ := htree
    -- what is put into the refreshed tree leaves its requests where they are
    obtain ⟨l, hl, -, hrefresh⟩ :=
      Persisted.exists_of_forall₂_left (flatten_refreshAll hrefreshed) hfresh
    refine ⟨l, mem_entries.mpr ⟨?_, (key?_refreshLeaf hrefresh).trans hkey⟩,
      listsParameters_of_url_eq (url_of_refreshLeaf hrefresh)⟩
    rw [heq, flatten_readBack hread]
    exact (flatten_fill_perm leftovers refreshed).mem_iff.mpr (List.mem_append_left _ hl)

end Postman

/-! ## Exports

An export has its parameters in fields of their own, which a merge does not touch. -/

namespace Insomnia

/-- Where a request has parameters. -/
def parameterFields : ParameterFields := ⟨"name", "parameters", "pathParameters"⟩

/-- The request lists every parameter of the endpoint. -/
def ListsParameters (r : Resource) (e : Endpoint) : Prop := parameterFields.Lists r e

instance (r : Resource) (e : Endpoint) : Decidable (ListsParameters r e) :=
  inferInstanceAs (Decidable (parameterFields.Lists r e))

/-- A new request lists the parameters of its endpoint. -/
theorem listsParameters_requestAt (apps : List String) (workspace : String) (path : List String)
    (e : Endpoint) (id parent : Json) :
    ListsParameters (requestAt apps workspace path e id parent) e := by
  have hfield : ∀ field, field ≠ "_id" → field ≠ "parentId" →
      Dict.get? (requestAt apps workspace path e id parent) field
        = Dict.get? (requestOf apps (parentIn workspace path) e) field := by
    intro field hid hparent
    rw [requestAt, Dict.get?_put_of_ne hparent, Dict.get?_put_of_ne hid]
  refine ParameterFields.lists_of_texts_eq ?_ ?_
  · rw [parameterFields, hfield _ (by decide) (by decide)]
    exact textsUnder_map (fun _ => rfl) _
  · rw [parameterFields, hfield _ (by decide) (by decide), requestOf, Dict.get?_append]
    exact textsUnder_unlessEmpty (fun _ => rfl) _

/-- **A merged request lists what the persisted one lists.** -/
theorem listsParameters_mergeRequest {fresh old r : Resource} (h : mergeRequest fresh old = .ok r)
    (e : Endpoint) : ListsParameters r e ↔ ListsParameters old e :=
  ParameterFields.lists_congr (get?_mergeRequest h (by decide)) (get?_mergeRequest h (by decide))

end Insomnia

/-! ## Both formats

So after a merge a collection lists the parameters of the fresh endpoint, an export those that the
persisted request lists. -/

/-- **Which parameters are listed after a merge.** The two formats differ because a refreshed
    request of a collection takes the fresh URL, whereas a merged request of an export never takes
    the fresh parameters. -/
theorem parameters_listed_iff {settings : Settings} {endpoints : List Endpoint} {e : Endpoint}
    (he : e ∈ endpoints) (mark : Bool) :
    -- a merged collection lists the parameters of every endpoint
    (∀ id before merged,
      Postman.merge (Postman.document id settings endpoints) before mark = .ok merged →
      ∃ l, (Postman.requestKey settings.serviceNames e, l)
          ∈ Postman.entries (Postman.itemsOf merged) ∧ Postman.ListsParameters l.2 e) ∧
    ∀ date before merged,
      Insomnia.merge (Insomnia.document date settings endpoints) before mark = .ok merged →
      -- a merged export lists those of an endpoint that nothing was persisted for
      (Insomnia.persistedRequest? (Insomnia.resourcesBefore before)
          (Insomnia.requestKey settings.serviceNames e) = none →
        ∃ r, (Insomnia.requestKey settings.serviceNames e, r)
          ∈ Insomnia.requestEntries (Insomnia.resourcesOf merged) ∧ Insomnia.ListsParameters r e) ∧
      -- and else lists them exactly if what was persisted does
      ∀ old, Insomnia.persistedRequest? (Insomnia.resourcesBefore before)
          (Insomnia.requestKey settings.serviceNames e) = some old →
        (∃ r, (Insomnia.requestKey settings.serviceNames e, r)
          ∈ Insomnia.requestEntries (Insomnia.resourcesOf merged)) ∧
        ∀ r, (Insomnia.requestKey settings.serviceNames e, r)
            ∈ Insomnia.requestEntries (Insomnia.resourcesOf merged) →
          (Insomnia.ListsParameters r e ↔ Insomnia.ListsParameters old e) := by
  refine ⟨fun id before merged h => Postman.exists_listsParameters_of_merge h he, ?_⟩
  intro date before merged hmerge
  have h := Insomnia.mergedRequests_of_merge hmerge
  obtain ⟨r, hr, hstands⟩ := Insomnia.exists_standsFor h he
  constructor
  case left =>
    intro hnone
    refine ⟨r, hr, ?_⟩
    cases hstands with
    | again known _ => exact absurd (hnone.symm.trans known) (by simp)
    | new _ => exact Insomnia.listsParameters_requestAt ..
  case right =>
    intro old hold
    refine ⟨⟨r, hr⟩, fun r' hr' => ?_⟩
    obtain ⟨e', hsame, hstands'⟩ := Insomnia.standsFor_of_entry h he hr'
    -- endpoints with one key have one persisted request
    rw [← hsame] at hold
    cases hstands' with
    | again known hmerged =>
      obtain rfl := Option.some.inj (known.symm.trans hold)
      exact Insomnia.listsParameters_mergeRequest hmerged e
    | new unknown => exact absurd (unknown.symm.trans hold) (by simp)

/-- The list of users, page by page. -/
def pagedEndpoint : Endpoint :=
  { Insomnia.sampleEndpoint with
    parameters := { query := [{ name := "limit", type := "integer", required := false }] } }

/-- A collection catches up with pages, and an export that has them keeps them.  In the export the
    pages are persisted already, which is the only way to them once a request is. -/
theorem parameters_listed_paged :
    (∃ merged l, Postman.merge (Postman.document "" {} [pagedEndpoint])
        (some (Postman.document "" {} [Insomnia.sampleEndpoint])) true = .ok merged ∧
      ("GET /users", l) ∈ Postman.entries (Postman.itemsOf merged) ∧
      Postman.ListsParameters l.2 pagedEndpoint) ∧
    ∃ merged r, Insomnia.merge (Insomnia.document "" {} [pagedEndpoint])
        (some (Insomnia.document "" {} [pagedEndpoint])) true = .ok merged ∧
      ("GET /users", r) ∈ Insomnia.requestEntries (Insomnia.resourcesOf merged) ∧
      Insomnia.ListsParameters r pagedEndpoint := by
  have hkeys : Postman.requestKey ({} : Settings).serviceNames pagedEndpoint = "GET /users" ∧
      Insomnia.requestKey ({} : Settings).serviceNames pagedEndpoint = "GET /users" := by
    decide +kernel
  have hpostman : (Postman.merge (Postman.document "" {} [pagedEndpoint])
      (some (Postman.document "" {} [Insomnia.sampleEndpoint])) true).toOption.any
        (fun _ => true) = true := by
    decide +kernel
  have hinsomnia : (Insomnia.merge (Insomnia.document "" {} [pagedEndpoint])
      (some (Insomnia.document "" {} [pagedEndpoint])) true).toOption.any (fun _ => true) = true := by
    decide +kernel
  have hpersisted : ∃ old ∈ Insomnia.persistedRequest? (Insomnia.resourcesBefore
      (some (Insomnia.document "" {} [pagedEndpoint]))) "GET /users",
        Insomnia.ListsParameters old pagedEndpoint := by
    decide +kernel
  obtain ⟨collection, hcollection, -⟩ := Persisted.exists_ok_of_any hpostman
  obtain ⟨merged, hmerged, -⟩ := Persisted.exists_ok_of_any hinsomnia
  obtain ⟨old, hold, hlisted⟩ := hpersisted
  have hlists := @parameters_listed_iff {} _ _ (List.mem_singleton_self pagedEndpoint) true
  rw [hkeys.1, hkeys.2] at hlists
  obtain ⟨l, hl, hurl⟩ := hlists.1 _ _ _ hcollection
  obtain ⟨⟨r, hr⟩, hiff⟩ := (hlists.2 _ _ _ hmerged).2 old hold
  exact ⟨⟨collection, l, hcollection, hl, hurl⟩, merged, r, hmerged, hr, (hiff r hr).mpr hlisted⟩

/-- **A parameter that an endpoint has now**, and had not when its request was persisted, is listed
    in the merged collection and not in the merged export. -/
theorem merge_misses_parameter :
    (∃ merged, Postman.merge (Postman.document "" {} [pagedEndpoint])
        (some (Postman.document "" {} [Insomnia.sampleEndpoint])) true = .ok merged ∧
      Postman.leafKeys (Postman.itemsOf merged) = ["GET /users"] ∧
      ∀ x ∈ Postman.entries (Postman.itemsOf merged),
        Postman.ListsParameters x.2.2 pagedEndpoint) ∧
    Insomnia.requestKeys (Insomnia.resources {} [Insomnia.sampleEndpoint]) = ["GET /users"] ∧
    ∃ merged, Insomnia.merge (Insomnia.document "" {} [pagedEndpoint])
        (some (Insomnia.document "" {} [Insomnia.sampleEndpoint])) true = .ok merged ∧
      Insomnia.requestKeys (Insomnia.resourcesOf merged) = ["GET /users"] ∧
      ∀ x ∈ Insomnia.requestEntries (Insomnia.resourcesOf merged),
        ¬Insomnia.ListsParameters x.2 pagedEndpoint := by
  have hpostman : (Postman.merge (Postman.document "" {} [pagedEndpoint])
      (some (Postman.document "" {} [Insomnia.sampleEndpoint])) true).toOption.any (fun merged =>
        Postman.leafKeys (Postman.itemsOf merged) = ["GET /users"] ∧
        ∀ x ∈ Postman.entries (Postman.itemsOf merged),
          Postman.ListsParameters x.2.2 pagedEndpoint) = true := by
    decide +kernel
  have hinsomnia : (Insomnia.merge (Insomnia.document "" {} [pagedEndpoint])
      (some (Insomnia.document "" {} [Insomnia.sampleEndpoint])) true).toOption.any (fun merged =>
        Insomnia.requestKeys (Insomnia.resourcesOf merged) = ["GET /users"] ∧
        ∀ x ∈ Insomnia.requestEntries (Insomnia.resourcesOf merged),
          ¬Insomnia.ListsParameters x.2 pagedEndpoint) = true := by
    decide +kernel
  obtain ⟨collection, hcollection, hlisted⟩ := Persisted.exists_ok_of_any hpostman
  obtain ⟨merged, hmerged, hmissed⟩ := Persisted.exists_ok_of_any hinsomnia
  exact ⟨⟨collection, hcollection, of_decide_eq_true hlisted⟩, by decide +kernel,
    merged, hmerged, of_decide_eq_true hmissed⟩

end RouteAtlas
