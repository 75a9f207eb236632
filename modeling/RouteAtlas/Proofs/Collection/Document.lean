/-
  What new documents hold: the requests of endpoints, and variables.

  ==== Program ====

  A collection lists its variables, and an export has the data of its base environment.  Both begin
  with names of their own and go on with one variable for each service, called after the service.

  ==== Spec ====

  The requests are those of the endpoints (`requests_document`, for either format), up to their
  order in a collection.  The variables of a collection are listed as they are
  (`variablesOf_document`), and those of an export are put into one object, where a name that comes
  twice keeps its last value.

  The names of service variables are apart from all others (`baseVariableOf_notMem`), so where the
  services are told apart by them, every variable is defined once, in a list as in an object
  (`nodup_keys_serviceVariables`).
-/
import RouteAtlas.Proofs.Collection.Request
import RouteAtlas.Proofs.Insomnia.Ancestry
import RouteAtlas.Proofs.Insomnia.Placement
import RouteAtlas.Proofs.Postman.Resync

namespace RouteAtlas

/-! ## Service variables

Every service has a variable of its own, named after it; a document defines these and the common
ones. -/

/-- The variables of the services, with their base URLs. -/
def Settings.serviceVariables (settings : Settings) : Dict Json :=
  settings.services.map fun service => (Folder.baseVariableOf service.1, .str service.2)

/-- Different variables come from names with different suffixes. -/
theorem Folder.baseVariableOf_injective {a b : String}
    (h : baseVariableOf a = baseVariableOf b) : Label.variableSuffix a = Label.variableSuffix b := by
  have hchars := congrArg String.toList h
  rw [baseVariableOf, baseVariableOf, String.toList_append, String.toList_append] at hchars
  exact String.toList_inj.mp (List.append_cancel_left hchars)

/-- The variable of a service is none of those that every document may have. -/
theorem Folder.baseVariableOf_notMem (app : String) :
    baseVariableOf app ∉ "baseUrl" :: Example.sharedVariables := by
  have hothers : ∀ n ∈ "baseUrl" :: Example.sharedVariables,
      n.toList.take 8 ≠ "baseUrl_".toList := by decide
  intro hmem
  refine hothers _ hmem ?_
  rw [baseVariableOf, String.toList_append]
  exact List.take_left' rfl

namespace Settings

variable {settings : Settings}

/-- The services define one variable each. -/
theorem keys_serviceVariables : Dict.keys settings.serviceVariables
    = settings.serviceNames.map Folder.baseVariableOf := by
  rw [serviceVariables, serviceNames, Dict.keys, List.map_map, List.map_map]
  rfl

/-- Common variables and service variables are all different, if the services are told apart. -/
theorem nodup_keys_serviceVariables
    (hsuffix : (settings.serviceNames.map Label.variableSuffix).Nodup) {common : Dict Json}
    (hcommon : (Dict.keys common).Nodup)
    (hsub : ∀ n ∈ Dict.keys common, n ∈ "baseUrl" :: Example.sharedVariables) :
    (Dict.keys (common ++ settings.serviceVariables)).Nodup := by
  have hkeys : Dict.keys (common ++ settings.serviceVariables)
      = Dict.keys common ++ settings.serviceNames.map Folder.baseVariableOf := by
    rw [← keys_serviceVariables]
    exact List.map_append
  rw [hkeys]
  refine List.nodup_append.mpr ⟨hcommon, ?_, ?_⟩
  · refine List.Nodup.map_on (fun a ha b hb heq => ?_) hsuffix.of_map
    exact List.inj_on_of_nodup_map hsuffix ha hb (Folder.baseVariableOf_injective heq)
  · rintro n hn v hv rfl
    obtain ⟨a, -, rfl⟩ := List.mem_map.mp hv
    exact Folder.baseVariableOf_notMem a (hsub _ hn)

end Settings

/-! ## Collections

A collection defines its variables in a list, one object for each. -/

namespace Postman

/-- The requests of a collection are those of the endpoints, in whatever order. -/
theorem requests_document (id : String) (settings : Settings) (endpoints : List Endpoint) :
    ((flatten (itemsOf (document id settings endpoints))).map (·.2)).Perm
      (endpoints.map (itemOf settings.serviceNames)) := by
  have hperm := (flatten_items_perm settings endpoints).map (·.2)
  rw [List.map_map] at hperm
  rw [flatten_document]
  exact hperm

/-- The name and the value of a variable. -/
def namedValue? (object : Json) : Option (String × Json) :=
  ((object.field? "key").bind Json.string?).map (·, (object.field? "value").getD .null)

/-- The variables of a collection with their values, in order. -/
def variablesOf (document : Dict Json) : List (String × Json) :=
  match Dict.get? document "variable" with
  | some (.arr objects) => objects.filterMap namedValue?
  | _ => []

/-- What every collection defines. -/
def commonVariables (settings : Settings) : Dict Json :=
  ("baseUrl", .str settings.baseUrl) :: Example.sharedVariables.map (·, .str "")

/-- A collection defines the common variables and then those of the services. -/
theorem variablesOf_document (id : String) (settings : Settings) (endpoints : List Endpoint) :
    variablesOf (document id settings endpoints)
      = commonVariables settings ++ settings.serviceVariables := by
  have hread : ∀ entries : List (String × String),
      (entries.map fun e => variableJson e.1 e.2).filterMap namedValue?
        = entries.map fun e => (e.1, Json.str e.2) := by
    intro entries
    rw [List.filterMap_map]
    exact List.filterMap_eq_map_iff_forall_eq_some.mpr fun _ _ => rfl
  have hvariables : collectionVariables settings = (("baseUrl", settings.baseUrl) ::
      Example.sharedVariables.map (·, "") ++ settings.services.map fun service =>
        (Folder.baseVariableOf service.1, service.2)).map fun e => variableJson e.1 e.2 := by
    rw [collectionVariables, List.map_append, List.map_map]
    rfl
  show (collectionVariables settings).filterMap namedValue? = _
  rw [hvariables, hread, List.map_append, List.map_map]
  rfl

/-- The names of all variables of a collection. -/
theorem keys_variablesOf_document (id : String) (settings : Settings) (endpoints : List Endpoint) :
    Dict.keys (variablesOf (document id settings endpoints))
      = "baseUrl" :: Example.sharedVariables ++ settings.serviceNames.map Folder.baseVariableOf := by
  rw [variablesOf_document, ← Settings.keys_serviceVariables]
  exact List.map_append

end Postman

/-! ## Exports

An export defines its variables in its one environment, as fields of an object. -/

namespace Insomnia

open Resource (ofKind)

/-- The requests of an export are those of the endpoints, in order. -/
theorem requests_document (date : String) (settings : Settings) (endpoints : List Endpoint) :
    ofKind "request" (resourcesOf (document date settings endpoints)) = endpoints.map fun e =>
      requestOf settings.serviceNames (parentIn settings.insomnia.workspaceName
        (Folder.placement settings.grouping settings.serviceNames e)) e := by
  have hresources : resourcesOf (document date settings endpoints) = resources settings endpoints :=
    resourcesOf_of_get? rfl
  rw [hresources, requests_fresh, allEntries, requests_entries]

/-- The data of the base environment of an export. -/
def baseData (document : Dict Json) : Dict Json :=
  match (baseEnvironment? (resourcesOf document)).bind (Dict.get? · "data") with
  | some (.obj data) => data
  | _ => []

/-- An export has one environment. -/
theorem environments_resources (settings : Settings) (endpoints : List Endpoint) :
    ofKind "environment" (resources settings endpoints)
      = [environmentAt settings (environmentId settings) (freshId settings [])] := by
  have hentries : ofKind "environment" ((allEntries settings endpoints).map
      (Entry.fresh settings.serviceNames (workspaceOf settings))) = [] := by
    refine ofKind_eq_nil fun r hr => ?_
    obtain ⟨entry, -, rfl⟩ := List.mem_map.mp hr
    cases entry <;> rfl
  rw [resources_eq, ofKind_cons_of_not rfl, ofKind_cons_of_isA rfl, hentries]

/-- The base environment has the data that is made from the settings. -/
theorem baseData_document (date : String) (settings : Settings) (endpoints : List Endpoint) :
    baseData (document date settings endpoints) = environmentData settings := by
  have hresources : resourcesOf (document date settings endpoints) = resources settings endpoints :=
    resourcesOf_of_get? rfl
  have hbase : baseEnvironment? (resources settings endpoints)
      = some (environmentAt settings (environmentId settings) (freshId settings [])) := by
    rw [baseEnvironment?, environments_resources, List.find?_singleton]
    split <;> rfl
  rw [baseData, hresources, hbase]
  rfl

/-- What every export defines. -/
def commonData (settings : Settings) : Dict Json :=
  [("baseUrl", .str settings.baseUrl), ("authToken", .str "")]

/-- The data are the common variables with those of the services over them. -/
theorem environmentData_eq (settings : Settings) :
    environmentData settings = Dict.putAll (commonData settings) settings.serviceVariables := rfl

/-- An export defines the base URL, the token and the variables of the services, and no others. -/
theorem mem_keys_baseData_document {date : String} {settings : Settings} {endpoints : List Endpoint}
    {name : String} : name ∈ Dict.keys (baseData (document date settings endpoints)) ↔
      name ∈ ["baseUrl", "authToken"] ∨ name ∈ settings.serviceNames.map Folder.baseVariableOf := by
  rw [baseData_document, environmentData_eq, Dict.mem_keys_putAll, Settings.keys_serviceVariables]
  rfl

end Insomnia

end RouteAtlas
