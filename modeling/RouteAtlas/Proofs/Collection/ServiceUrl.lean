/-
  Base URLs: what a request begins with is defined, in both formats alike.

  ==== Problem ====

  The variable of a service is named four times over: where an endpoint looks for its service, where
  the name of the variable is made, in the list of variables of a collection, and in the environment
  of an export.  Names of services are free text, with marks and letters of any script in them.  What
  a request refers to should be defined, by both documents in the same way.

  ==== Spec ====

  `BaseUrlBound` says of an endpoint and its two requests that both begin with one variable, that both
  documents give it one URL, and whose URL that is.  `baseUrls_bound`: so it is for all endpoints, where
  services are told apart by what is looked up and by what their variables are called.

  ==== The crux ====

  What the names of services are made into need not be injective, and a name may even be made into
  nothing.  All that counts is that no two of them become the same: then the variables of the services
  stand behind the others in either document, each once.
-/
import RouteAtlas.Proofs.Collection.Document
import RouteAtlas.Proofs.Collection.Parameter

namespace RouteAtlas

/-! ## What a request begins with

A request begins with a reference to a base variable; the reference shows the name of the variable. -/

namespace Postman

/-- The URL of the item begins with the variable, as a whole and in its host. -/
structure UsesBase (item : Dict Json) (name : String) : Prop where
  host : Dict.get? (urlParts item) "host" = some (.arr [.str (Example.reference name)])
  raw : ∃ rest, Dict.get? (urlParts item) "raw" = some (.str (Example.reference name ++ rest))

/-- Different names are referred to differently. -/
theorem reference_injective {name name' : String}
    (h : Example.reference name = Example.reference name') : name = name' := by
  have hchars := congrArg String.toList h
  rw [toList_reference, toList_reference] at hchars
  exact String.toList_inj.mp
    (List.append_cancel_right (List.cons.inj (List.cons.inj hchars).2).2)

/-- The request of an endpoint begins with the endpoint's variable, and with no other one. -/
theorem usesBase_itemOf {apps : List String} {e : Endpoint} {name : String} :
    UsesBase (itemOf apps e) name ↔ name = Folder.baseVariable e apps := by
  have hurl : ∃ parts, urlParts (itemOf apps e) = parts ∧
      Dict.get? parts "host" = some (.arr [.str (Example.reference (Folder.baseVariable e apps))]) ∧
      Dict.get? parts "raw" = some (.str (rawUrl apps e)) := ⟨_, rfl, rfl, rfl⟩
  obtain ⟨parts, rfl, hhost, hraw⟩ := hurl
  constructor
  · intro h
    have heq := h.host.symm.trans hhost
    simp only [Option.some.injEq, Json.arr.injEq, List.cons.injEq, Json.str.injEq, and_true] at heq
    exact reference_injective heq
  · rintro rfl
    rw [rawUrl, String.append_assoc] at hraw
    exact ⟨hhost, _, hraw⟩

end Postman

namespace Insomnia

/-- The URL of the request begins with the variable. -/
structure UsesBase (r : Resource) (name : String) : Prop where
  /-- The reference ends where the name does. -/
  plain : ' ' ∉ name.toList
  url : ∃ rest, Dict.get? r "url" = some (.str (reference name ++ rest))

/-- A reference in front shows its name. -/
theorem name_eq_of_reference {name name' rest rest' : String} (h : ' ' ∉ name.toList)
    (h' : ' ' ∉ name'.toList) (heq : reference name ++ rest = reference name' ++ rest') :
    name = name' := by
  have hname : ∀ {n r : String}, ' ' ∉ n.toList →
      (((reference n ++ r).toList.drop 5).takeWhile (· != ' ')) = n.toList := by
    intro n r hn
    have hall : ∀ c ∈ n.toList, (c != ' ') = true :=
      fun c hc => bne_iff_ne.mpr fun hblank => hn (hblank ▸ hc)
    rw [String.toList_append, toList_reference]
    show (n.toList ++ [' ', Route.closing, Route.closing] ++ r.toList).takeWhile (· != ' ') = n.toList
    rw [List.append_assoc, List.takeWhile_append_of_pos hall]
    exact List.append_nil _
  refine String.toList_inj.mp ?_
  rw [← hname h, heq, hname h']

/-- There is no blank in the name of a base variable. -/
theorem blank_notMem_baseVariable (e : Endpoint) (apps : List String) :
    ' ' ∉ (Folder.baseVariable e apps).toList := by
  rcases Folder.baseVariable_cases e apps with hcommon | ⟨a, -, -, hservice⟩
  · rw [hcommon]
    decide
  · rw [hservice, Folder.baseVariableOf, String.toList_append, List.mem_append]
    rintro (hfront | hsuffix)
    · exact absurd hfront (by decide)
    · exact absurd (Label.isSuffixChar_of_mem_variableSuffix hsuffix) (by decide)

/-- The request of an endpoint begins with the endpoint's variable, and with no other one. -/
theorem usesBase_requestOf {apps : List String} {parent : String} {e : Endpoint} {name : String} :
    UsesBase (requestOf apps parent e) name ↔ name = Folder.baseVariable e apps := by
  have hurl : Dict.get? (requestOf apps parent e) "url"
      = some (.str (reference (Folder.baseVariable e apps) ++ Route.coloned e.path)) := rfl
  have hblank := blank_notMem_baseVariable e apps
  constructor
  · rintro ⟨hplain, rest, hrest⟩
    have heq := hrest.symm.trans hurl
    simp only [Option.some.injEq, Json.str.injEq] at heq
    exact name_eq_of_reference hplain hblank heq
  · rintro rfl
    exact ⟨hblank, _, hurl⟩

end Insomnia

/-! ## What is defined

Where services are told apart, every base variable is defined once in either document, with the URL
of its service. -/

/-- The entries under a key, where keys are distinct. -/
theorem Dict.filter_key_of_mem {d : Dict Json} (hd : (Dict.keys d).Nodup) {name : String}
    {value : Json} (h : (name, value) ∈ d) : d.filter (·.1 == name) = [(name, value)] := by
  induction d with
  | nil => exact absurd h List.not_mem_nil
  | cons entry d ih =>
    obtain ⟨hnew, hrest⟩ := List.nodup_cons.mp hd
    rcases List.mem_cons.mp h with rfl | h
    · have hnone : d.filter (·.1 == name) = [] := by
        refine List.filter_eq_nil_iff.mpr fun other hother heq => hnew ?_
        exact List.mem_map.mpr ⟨other, hother, beq_iff_eq.mp heq⟩
      rw [List.filter_cons, if_pos (beq_self_eq_true name), hnone]
    · have hne : ¬(entry.1 == name) = true :=
        fun heq => hnew (List.mem_map.mpr ⟨_, h, (beq_iff_eq.mp heq).symm⟩)
      rw [List.filter_cons, if_neg hne, ih hrest h]

/-- The services are told apart by their names as they are looked up, and by their variables. -/
structure Settings.DistinctServices (settings : Settings) : Prop where
  lookup : (settings.serviceNames.map Label.lookupName).Nodup
  suffix : (settings.serviceNames.map Label.variableSuffix).Nodup

/-- The two requests of an endpoint begin with the variable `name`, and both documents say that it
    is `url`. -/
structure BaseUrlBound (settings : Settings) (collection exported : Dict Json) (e : Endpoint)
    (item request : Dict Json) (name url : String) : Prop where
  item_uses : ∀ other, Postman.UsesBase item other ↔ other = name
  request_uses : ∀ other, Insomnia.UsesBase request other ↔ other = name
  /-- It is one of the variables of the collection, once. -/
  collection_defines : (Postman.variablesOf collection).filter (·.1 == name) = [(name, .str url)]
  export_defines : Dict.get? (Insomnia.baseData exported) name = some (.str url)
  common : name = "baseUrl" → url = settings.baseUrl
  /-- It is the URL of the one service that is spelt like a name on the path of the endpoint's file. -/
  service : name ≠ "baseUrl" → ∃ service ∈ settings.services,
    Folder.OnPath e.sourceFile service.1 ∧ service.2 = url ∧
    ∀ other ∈ settings.services, Label.lookupName other.1 = Label.lookupName service.1 →
      other = service

section

variable {settings : Settings} (h : settings.DistinctServices)
include h

/-- Services that are looked up alike are the same. -/
theorem Settings.DistinctServices.eq_of_lookupName {service other : String × String}
    (hservice : service ∈ settings.services) (hother : other ∈ settings.services)
    (heq : Label.lookupName other.1 = Label.lookupName service.1) : other = service := by
  have hnodup := h.lookup
  rw [Settings.serviceNames, List.map_map] at hnodup
  exact List.inj_on_of_nodup_map hnodup hother hservice heq

/-- What both documents define, they define once and alike.  Each side is a list of common entries
    followed by those of the services, and distinct suffixes keep the names of such a list apart; so
    looking a name up finds what was put in under it. -/
theorem Settings.DistinctServices.defines {name url : String} (id date : String)
    (endpoints : List Endpoint) (hdefined : name = "baseUrl" ∧ url = settings.baseUrl ∨
      (name, .str url) ∈ settings.serviceVariables) :
    (Postman.variablesOf (Postman.document id settings endpoints)).filter (·.1 == name)
        = [(name, .str url)] ∧
      Dict.get? (Insomnia.baseData (Insomnia.document date settings endpoints)) name
        = some (.str url) := by
  have hmem : ∀ {common : Dict Json}, ("baseUrl", .str settings.baseUrl) ∈ common →
      (name, .str url) ∈ common ++ settings.serviceVariables := by
    intro common hbase
    rcases hdefined with ⟨rfl, rfl⟩ | hservice
    · exact List.mem_append_left _ hbase
    · exact List.mem_append_right _ hservice
  constructor
  case left =>
    rw [Postman.variablesOf_document]
    refine Dict.filter_key_of_mem (Settings.nodup_keys_serviceVariables h.suffix ?_ ?_)
      (hmem (List.mem_cons_self ..))
    · show ("baseUrl" :: Example.sharedVariables).Nodup
      decide
    · exact fun n hn => hn
  case right =>
    have hnodup : (Dict.keys (Insomnia.commonData settings ++ settings.serviceVariables)).Nodup :=
      Settings.nodup_keys_serviceVariables h.suffix
        (show ["baseUrl", "authToken"].Nodup by decide)
        (show ∀ n ∈ ["baseUrl", "authToken"], n ∈ "baseUrl" :: Example.sharedVariables by decide)
    rw [Insomnia.baseData_document, Insomnia.environmentData_eq, Dict.putAll_eq_append hnodup]
    exact Dict.get?_of_mem hnodup (hmem (List.mem_cons_self ..))

/-- **The base URL of an endpoint is bound**, in both formats alike.  An endpoint uses the common
    variable or that of a service on its path, and distinct lookup names leave one service to have
    meant. -/
theorem baseUrlBound (id date : String) (endpoints : List Endpoint) (e : Endpoint) (parent : String) :
    ∃ name url, BaseUrlBound settings (Postman.document id settings endpoints)
      (Insomnia.document date settings endpoints) e (Postman.itemOf settings.serviceNames e)
      (Insomnia.requestOf settings.serviceNames parent e) name url := by
  rcases Folder.baseVariable_cases e settings.serviceNames with hcommon | ⟨a, ha, hpath, hservice⟩
  · obtain ⟨hcollection, hexport⟩ := h.defines id date endpoints (.inl ⟨rfl, rfl⟩)
    refine ⟨"baseUrl", settings.baseUrl, fun other => ?_, fun other => ?_, hcollection, hexport,
      fun _ => rfl, fun hne => absurd rfl hne⟩
    · rw [Postman.usesBase_itemOf, hcommon]
    · rw [Insomnia.usesBase_requestOf, hcommon]
  · obtain ⟨service, hmem, rfl⟩ := List.mem_map.mp ha
    have hvariable : (Folder.baseVariableOf service.1, .str service.2) ∈ settings.serviceVariables :=
      List.mem_map_of_mem (f := fun service : String × String =>
        (Folder.baseVariableOf service.1, Json.str service.2)) hmem
    obtain ⟨hcollection, hexport⟩ := h.defines id date endpoints (.inr hvariable)
    refine ⟨Folder.baseVariableOf service.1, service.2, fun other => ?_, fun other => ?_, hcollection,
      hexport, fun hbase => ?_, fun _ => ⟨service, hmem, hpath, rfl, fun other hother heq =>
        h.eq_of_lookupName hmem hother heq⟩⟩
    · rw [Postman.usesBase_itemOf, hservice]
    · rw [Insomnia.usesBase_requestOf, hservice]
    · exact absurd (hbase ▸ List.mem_cons_self) (Folder.baseVariableOf_notMem service.1)

end

/-- **Base URLs are bound consistently.**  The requests of the collection are those of the endpoints,
    and so are the requests of the export, in order; and the two requests of every endpoint begin with
    one variable, that both documents define in the same way. -/
theorem baseUrls_bound {settings : Settings} (h : settings.DistinctServices)
    (endpoints : List Endpoint) (id date : String) :
    ((Postman.flatten (Postman.itemsOf (Postman.document id settings endpoints))).map (·.2)).Perm
      (endpoints.map (Postman.itemOf settings.serviceNames)) ∧
    List.Forall₂ (fun e r => ∃ parent, r = Insomnia.requestOf settings.serviceNames parent e) endpoints
      (Insomnia.Resource.ofKind "request"
        (Insomnia.resourcesOf (Insomnia.document date settings endpoints))) ∧
    ∀ e ∈ endpoints, ∀ parent, ∃ name url, BaseUrlBound settings
      (Postman.document id settings endpoints) (Insomnia.document date settings endpoints) e
      (Postman.itemOf settings.serviceNames e)
      (Insomnia.requestOf settings.serviceNames parent e) name url := by
  refine ⟨Postman.requests_document id settings endpoints, ?_,
    fun e _ parent => baseUrlBound h id date endpoints e parent⟩
  rw [Insomnia.requests_document, List.forall₂_map_right_iff, List.forall₂_same]
  exact fun e _ => ⟨_, rfl⟩

/-- Two services, and one whose name has no letter of the kind that is looked up. -/
def marketSettings : Settings :=
  { sources := { serviceUrls := [("User Service", "http://localhost:1"),
      ("orders", " http://localhost:2 "), ("\u5E02\u5834", "http://localhost:3")] } }

/-- An endpoint of each of the first two services, and one in a directory that is called like the
    third. -/
def marketEndpoints : List Endpoint :=
  [{ method := .get, path := "/users", sourceFile := "apps/user-service/all.ts" },
    { method := .get, path := "/bills", sourceFile := "libs/Orders/bills.ts" },
    { method := .get, path := "/stalls", sourceFile := "apps/\u5E02\u5834/stalls.ts" }]

/-- Two services that are found on paths, and one that is never found since nothing of its name is
    left. -/
theorem baseUrls_bound_market :
    marketSettings.DistinctServices ∧
    marketSettings.serviceNames.map Label.lookupName = ["userservice", "orders", ""] ∧
    marketSettings.serviceNames.map Label.variableSuffix = ["user_service", "orders", "app"] ∧
    marketEndpoints.map (Folder.baseVariable · marketSettings.serviceNames)
      = ["baseUrl_user_service", "baseUrl_orders", "baseUrl"] ∧
    ∀ e ∈ marketEndpoints, ∃ name url, BaseUrlBound marketSettings
      (Postman.document "" marketSettings marketEndpoints)
      (Insomnia.document "" marketSettings marketEndpoints) e
      (Postman.itemOf marketSettings.serviceNames e)
      (Insomnia.requestOf marketSettings.serviceNames "" e) name url := by
  have hlookup : marketSettings.serviceNames.map Label.lookupName = ["userservice", "orders", ""] := by
    decide +kernel
  have hsuffix : marketSettings.serviceNames.map Label.variableSuffix
      = ["user_service", "orders", "app"] := by
    decide +kernel
  have hdistinct : marketSettings.DistinctServices :=
    ⟨by rw [hlookup]; decide, by rw [hsuffix]; decide⟩
  obtain ⟨-, -, hbound⟩ := baseUrls_bound hdistinct marketEndpoints "" ""
  exact ⟨hdistinct, hlookup, hsuffix, by decide +kernel, fun e he => hbound e he ""⟩

end RouteAtlas
