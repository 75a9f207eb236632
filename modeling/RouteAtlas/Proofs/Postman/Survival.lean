/-
  What users add to a request, over many merges.

  ==== Problem ====

  A user adds tests to a request, settings, saved responses, and headers.  Then endpoints are renamed
  and moved, go and come back; the request is merged, marked and put aside, and merged again.

  ==== Program ====

  `syncs`, beginning with a document that holds the request.

  ==== Spec ====

  `syncs_keep_request`: there is one request with its key at the end, and it is the old one but for
  what the synthesis owns.  `Survives` says which part of a request that leaves: all fields besides
  the name, the request itself and responses that are empty; of the request all fields besides the
  five that are synthesized; and of the headers the one that counts for each name that no fresh
  request for the key has.

  ==== The crux ====

  A merge does one of two things to a persisted request: it lays a fresh one over it
  (`survives_mergeLeaf`), or it marks it (`survives_put_name`).  Either way the request survives, and
  surviving is transitive, so the run is an induction with nothing else in it.  Headers are what
  makes `Survives` depend on the fresh requests: merging them is a union, so what is known of a name
  is that no fresh request had it so far.
-/
import RouteAtlas.Proofs.Json.LastEntry
import RouteAtlas.Proofs.Persisted.LastHeader
import RouteAtlas.Proofs.Postman.Run

namespace RouteAtlas.Postman

open Persisted (HasHeader headerNamed? headersIn bind_eq_ok_iff)

/-! ## One request and what became of it

`Survives` compares a request before and after: all fields that no synthesis makes are the same,
responses are kept, and headers are, unless a fresh request has one of that name. -/

/-- The fields of an item that a synthesis makes. -/
def ownItemFields : List String := ["name", "request", "response"]

/-- The fields of a request that a synthesis makes. -/
def ownRequestFields : List String := ["method", "url", "header", "description", "body"]

/-- The headers of an item's request. -/
def Item.headersOf (fields : Dict Json) : List Json :=
  headersIn (Dict.get? (Item.requestOf fields) "header")

/-- An item has saved responses. -/
def Item.HasResponses (fields : Dict Json) : Prop :=
  ((Dict.get? fields "response").getD .null).truthy = true

/-- What is left in `after` of the request `before`, when fresh requests have used the header names
    `used`. -/
structure Survives (used : String → Prop) (before after : Dict Json) : Prop where
  fields : Dict.besides ownItemFields after = Dict.besides ownItemFields before
  response : Item.HasResponses before → Dict.get? after "response" = Dict.get? before "response"
  request : Dict.besides ownRequestFields (Item.requestOf after)
    = Dict.besides ownRequestFields (Item.requestOf before)
  header : ∀ name, ¬used name →
    headerNamed? "key" name (Item.headersOf after) = headerNamed? "key" name (Item.headersOf before)

theorem Survives.refl (used : String → Prop) (fields : Dict Json) : Survives used fields fields :=
  ⟨rfl, fun _ => rfl, rfl, fun _ _ => rfl⟩

/-- What survives what survives a request survives the request. -/
theorem Survives.trans {used used' : String → Prop} {f g h : Dict Json} (hfg : Survives used f g)
    (hgh : Survives used' g h) : Survives (fun name => used name ∨ used' name) f h := by
  refine ⟨hgh.fields.trans hfg.fields, fun hresponse => ?_, hgh.request.trans hfg.request,
    fun name hno => ?_⟩
  · have hkept := hfg.response hresponse
    have hstill : Item.HasResponses g := by
      rw [Item.HasResponses, hkept]
      exact hresponse
    exact (hgh.response hstill).trans hkept
  · obtain ⟨hno, hno'⟩ := not_or.mp hno
    exact (hgh.header name hno').trans (hfg.header name hno)

/-- More headers may be used than were. -/
theorem Survives.mono {used used' : String → Prop} {f g : Dict Json}
    (hsub : ∀ name, used name → used' name) (h : Survives used f g) : Survives used' f g :=
  ⟨h.fields, h.response, h.request, fun name hno => h.header name fun hused => hno (hsub name hused)⟩

/-- The fields that no synthesis makes are what they were. -/
theorem Survives.get?_eq {used : String → Prop} {before after : Dict Json}
    (h : Survives used before after) {name : String} (hname : name ∉ ownItemFields) :
    Dict.get? after name = Dict.get? before name := by
  rw [← Dict.get?_besides hname after, h.fields, Dict.get?_besides hname]

theorem Survives.get?_requestOf_eq {used : String → Prop} {before after : Dict Json}
    (h : Survives used before after) {name : String} (hname : name ∉ ownRequestFields) :
    Dict.get? (Item.requestOf after) name = Dict.get? (Item.requestOf before) name := by
  rw [← Dict.get?_besides hname (Item.requestOf after), h.request, Dict.get?_besides hname]

/-! ## A fresh request over it

The step for one request.  Each of the three changes leaves the fields that count alone. -/

/-- A description is synthesized. -/
theorem besides_described (fresh merged : Dict Json) :
    Dict.besides ownRequestFields (described fresh merged) = Dict.besides ownRequestFields merged := by
  rw [described]
  split
  · split
    · exact Dict.besides_put (by decide) _ _
    · rfl
  · rfl

theorem besides_embodied (method : Json) (fresh merged : Dict Json) :
    Dict.besides ownRequestFields (embodied method fresh merged)
      = Dict.besides ownRequestFields merged := by
  rw [embodied]
  split
  · exact Dict.besides_erase (by decide) _
  · split
    · exact Dict.besides_put (by decide) _ _
    · rfl

theorem besides_responded (fresh merged : Dict Json) :
    Dict.besides ownItemFields (responded fresh merged) = Dict.besides ownItemFields merged := by
  rw [responded]
  split
  · split
    · rfl
    · exact Dict.besides_put (by decide) _ _
  · rfl

/-- A merged request has the persisted fields besides the synthesized ones, and the headers of
    both. -/
theorem mergeRequest_keeps {fresh existing merged : Dict Json}
    (h : mergeRequest fresh existing = .ok merged) :
    Dict.besides ownRequestFields merged = Dict.besides ownRequestFields existing ∧
    ∀ name, headerNamed? "key" name (headersIn (Dict.get? merged "header"))
      = (headerNamed? "key" name (headersIn (Dict.get? fresh "header"))).or
          (headerNamed? "key" name (headersIn (Dict.get? existing "header"))) := by
  obtain ⟨headers, hheaders, hsettled⟩ := settled_of_mergeRequest h
  obtain ⟨_, -, rfl⟩ := mergeRequest_eq_ok_iff.mp h
  refine ⟨?_, fun name => ?_⟩
  · have hown : ∀ name ∈ ["method", "url", "header"], name ∈ ownRequestFields := by decide
    rw [besides_embodied, besides_described]
    exact Dict.besides_putAll hown existing
  · rw [hsettled.header_eq]
    exact Persisted.headerNamed?_mergeHeaderFields hheaders

/-- **Merging keeps what is not synthesized.** Nothing but the name, the request and the responses
    is written beside the fields of the persisted item, and responses are only written where there
    were none. -/
theorem survives_mergeLeaf {fresh existing merged : Dict Json}
    (h : mergeLeaf fresh existing = .ok merged) :
    Survives (HasHeader "key" (Item.headersOf fresh)) existing merged := by
  obtain ⟨request, hmerge, rfl⟩ := mergeLeaf_eq_ok_iff.mp h
  obtain ⟨hfields, hheaders⟩ := mergeRequest_keeps hmerge
  generalize hlaid : Dict.putAll existing
    [("name", mergedName fresh existing), ("request", .obj request)] = laid
  have hresponse : Dict.get? laid "response" = Dict.get? existing "response" := by
    rw [← hlaid]
    simp [Dict.get?_put]
  have hof : Item.requestOf (responded fresh laid) = request := by
    rw [Item.requestOf, get?_responded (by decide), ← hlaid]
    simp
  constructor
  case fields =>
    have hown : ∀ name ∈ ["name", "request"], name ∈ ownItemFields := by decide
    rw [besides_responded, ← hlaid]
    exact Dict.besides_putAll hown existing
  -- responses that are there are not replaced
  case response =>
    intro hresponses
    have hthere : ((Dict.get? laid "response").getD .null).truthy = true := by
      rw [hresponse]
      exact hresponses
    have hsame : responded fresh laid = laid :=
      responded_eq_self fun _ _ hno => absurd (hno.symm.trans hthere) (by decide)
    rw [hsame, hresponse]
  case request => rw [hof, hfields]
  -- a name that the fresh request does not use is found among the persisted headers only
  case header =>
    intro name hno
    have hnone := Persisted.headerNamed?_eq_none_iff.mpr hno
    have hunion := hheaders name
    rw [Item.headersOf] at hnone
    rw [hnone, Option.none_or] at hunion
    rw [Item.headersOf, hof, hunion, Item.headersOf]

/-- **A new name keeps everything else.** -/
theorem survives_put_name (used : String → Prop) (fields : Dict Json) (name : Json) :
    Survives used fields (Dict.put fields "name" name) := by
  have hrequest : Item.requestOf (Dict.put fields "name" name) = Item.requestOf fields := by
    rw [Item.requestOf, Dict.get?_put_of_ne (by decide), Item.requestOf]
  refine ⟨Dict.besides_put (by decide) _ _, fun _ => Dict.get?_put_of_ne (by decide) .., ?_,
    fun _ _ => ?_⟩
  · rw [hrequest]
  · rw [Item.headersOf, hrequest, Item.headersOf]

/-! ## One merge

A request is refreshed or put aside; it survives either way. -/

/-- Does a request for the key have a header with the name? -/
def UsesHeader (items : List Item) (key name : String) : Prop :=
  ∃ l ∈ flatten items, Item.key? l.2 = .ok (some key) ∧ HasHeader "key" (Item.headersOf l.2) name

/-- Where keys are distinct, the persisted request under a key is the one that has it. -/
theorem get?_entries_iff {items : List Item} (h : (leafKeys items).Nodup) {key : String}
    {l : FolderPath × Dict Json} : Dict.get? (Dict.ofList (entries items)) key = some l ↔
      l ∈ flatten items ∧ Item.key? l.2 = .ok (some key) := by
  rw [Dict.ofList_eq_self h, ← mem_entries]
  exact ⟨Dict.mem_of_get?, Dict.get?_of_mem h⟩

section

variable {old fresh items : List Item} {key : String} {e : FolderPath × Dict Json}

/-- A refreshed request keeps what the persisted one had. -/
theorem survives_refreshLeaf {l : FolderPath × Dict Json} {fields' : Dict Json}
    (hl : l ∈ flatten fresh) (hkey : Item.key? l.2 = .ok (some key))
    (hget : Dict.get? (Dict.ofList (entries old)) key = some e)
    (h : refreshLeaf (Dict.ofList (entries old)) l.2 = .ok fields') :
    Survives (UsesHeader fresh key) e.2 fields' := by
  rcases refreshLeaf_eq_ok_iff.mp h with ⟨k, path, existing, hk, hl', hmerge⟩ | ⟨k, hk, hnone, -⟩
  · obtain rfl : k = key := Option.some.inj (Except.ok.inj (hk.symm.trans hkey))
    obtain rfl := Option.some.inj (hl'.symm.trans hget)
    exact (survives_mergeLeaf hmerge).mono fun name hused => ⟨l, hl, hkey, hused⟩
  · obtain rfl : k = some key := Except.ok.inj (hk.symm.trans hkey)
    rw [Option.bind_some, hget] at hnone
    exact absurd hnone (by simp)

/-- A request survives being marked. -/
theorem survives_markGone {l l' : FolderPath × Dict Json} (h : markGone l = .ok l')
    (used : String → Prop) : Survives used l.2 l'.2 := by
  obtain ⟨name, -, -, rfl⟩ := markGone_eq_ok_iff.mp h
  exact survives_put_name used l.2 name

/-- **Every persisted request that counts for its key survives a merge**, refreshed or marked.  If
    the key is fresh, the request is refreshed; if not, it is gone, and what is gone is put into
    some folder of the tree. -/
theorem exists_survivor (h : MergedTree old fresh true items)
    (hget : Dict.get? (Dict.ofList (entries old)) key = some e) :
    ∃ l ∈ flatten items, Item.key? l.2 = .ok (some key) ∧
      Survives (UsesHeader fresh key) e.2 l.2 := by
  obtain ⟨-, refreshed, leftovers, hrefreshed, rfl, -, hleft⟩ := h
  have hmem := fun l => (flatten_fill_perm leftovers refreshed).mem_iff (a := l)
  by_cases hfresh : key ∈ leafKeys fresh
  · obtain ⟨l₀, hl₀, hkey⟩ := mem_leafKeys.mp hfresh
    obtain ⟨l, hl, -, hrefresh⟩ :=
      Persisted.exists_of_forall₂_left (flatten_refreshAll hrefreshed) hl₀
    exact ⟨l, (hmem l).mpr (List.mem_append_left _ hl), (key?_refreshLeaf hrefresh).trans hkey,
      survives_refreshLeaf hl₀ hkey hget hrefresh⟩
  · have hgone : (key, e) ∈ gone old fresh := mem_gone.mpr ⟨hget, hfresh⟩
    obtain ⟨l, hl, hmark⟩ := Persisted.exists_of_mem_mapM hleft hgone
    have hkey := (isLeftover_of_markGone (mem_of_get?_persisted hget).2 hmark).key
    -- it was put into some folder
    have harrived : l.2 ∈ (arrivals leftovers refreshed).map (·.2) :=
      (arrivals_perm leftovers refreshed).mem_iff.mpr (List.mem_map_of_mem hl)
    obtain ⟨l', hl', hfields⟩ := List.mem_map.mp harrived
    refine ⟨l', (hmem l').mpr (List.mem_append_right _ hl'), ?_, ?_⟩
    · rw [hfields]
      exact hkey
    · rw [hfields]
      exact survives_markGone hmark _

/-- **A merged request is a fresh one, or a persisted one survives in it.** A request in the merged
    tree was refreshed or put in, and either way its key says what it was before. -/
theorem origin_of_leaf (h : MergedTree old fresh true items) {l : FolderPath × Dict Json}
    (hl : l ∈ flatten items) (hkey : Item.key? l.2 = .ok (some key)) :
    (∃ l₀ ∈ flatten fresh, l.2 = l₀.2) ∨
    ∃ e, Dict.get? (Dict.ofList (entries old)) key = some e ∧
      Survives (UsesHeader fresh key) e.2 l.2 := by
  obtain ⟨-, refreshed, leftovers, hrefreshed, rfl, -, hleft⟩ := h
  rcases List.mem_append.mp ((flatten_fill_perm leftovers refreshed).mem_iff.mp hl) with hl | hl
  · obtain ⟨l₀, hl₀, -, hrefresh⟩ :=
      Persisted.exists_of_forall₂_right (flatten_refreshAll hrefreshed) hl
    have hkey₀ : Item.key? l₀.2 = .ok (some key) := (key?_refreshLeaf hrefresh).symm.trans hkey
    cases hget : Dict.get? (Dict.ofList (entries old)) key with
    | some e => exact .inr ⟨e, rfl, survives_refreshLeaf hl₀ hkey₀ hget hrefresh⟩
    | none =>
      rcases refreshLeaf_eq_ok_iff.mp hrefresh with ⟨k, _, _, hk, hsome, -⟩ | ⟨_, -, -, hsame⟩
      · obtain rfl : k = key := Option.some.inj (Except.ok.inj (hk.symm.trans hkey₀))
        exact absurd (hget.symm.trans hsome) (by simp)
      · exact .inl ⟨l₀, hl₀, hsame⟩
  · have harrived : l.2 ∈ leftovers.map (·.2) :=
      (arrivals_perm leftovers refreshed).mem_iff.mp (List.mem_map_of_mem hl)
    obtain ⟨l', hl', hfields⟩ := List.mem_map.mp harrived
    obtain ⟨⟨k, e⟩, hgone, hmark⟩ := Persisted.exists_of_mem_of_mapM hleft hl'
    obtain ⟨hget, -⟩ := mem_gone.mp hgone
    have hk := (isLeftover_of_markGone (mem_of_get?_persisted hget).2 hmark).key
    rw [hfields] at hk
    obtain rfl : k = key := Option.some.inj (Except.ok.inj (hk.symm.trans hkey))
    refine .inr ⟨e, hget, ?_⟩
    rw [← hfields]
    exact survives_markGone hmark _

end

/-- The same of documents. -/
theorem exists_survivor_merge {fresh document merged : Dict Json} {key : String}
    {e : FolderPath × Dict Json} (h : merge fresh (some document) true = .ok merged)
    (hget : Dict.get? (Dict.ofList (entries (itemsOf document))) key = some e) :
    ∃ l ∈ flatten (itemsOf merged), Item.key? l.2 = .ok (some key) ∧
      Survives (UsesHeader (itemsOf fresh) key) e.2 l.2 := by
  rcases itemsOf_merge h with ⟨hless, -⟩ | ⟨items, htree, hread, heq⟩
  · have hnone : itemsOf document = [] := itemsBefore_of_itemless hless
    rw [hnone] at hget
    exact absurd hget (by simp [entries, Dict.ofList, Dict.putAll])
  · rw [heq, flatten_readBack hread]
    exact exists_survivor htree hget

/-! ## Many merges

The run.  The request goes on under its key, from one document to the next, whether it is marked in
between or not. -/

/-- **What was added to a request by hand is there after any number of merges.**  `e` is a request
    of a document whose keys are distinct; the fresh collections, too, have each key once at most,
    and may have the key of `e` or not. -/
theorem syncs_keep_request {existing : Dict Json} {last : Option (Dict Json)}
    {freshes : List (Dict Json)} {key : String} {e : FolderPath × Dict Json}
    (hkeys : (leafKeys (itemsOf existing)).Nodup)
    (hfresh : ∀ f ∈ freshes, (leafKeys (itemsOf f)).Nodup)
    (he : e ∈ flatten (itemsOf existing)) (hkey : Item.key? e.2 = .ok (some key))
    (hrun : syncs true (some existing) freshes = .ok last) :
    ∃ l, (flatten (itemsBefore last)).filter (fun l => Item.keyGiven? l.2 == some key) = [l] ∧
      Survives (fun name => ∃ f ∈ freshes, UsesHeader (itemsOf f) key name) e.2 l.2 := by
  induction freshes generalizing existing e with
  | nil =>
    obtain rfl := Except.ok.inj hrun
    refine ⟨e, ?_, .refl _ _⟩
    rw [leafKeys_eq] at hkeys
    exact Dict.filter_eq_singleton hkeys he (keyGiven?_eq_some_iff.mpr hkey)
  | cons fresh freshes ih =>
    obtain ⟨merged, hmerge, hrest⟩ := syncs_cons.mp hrun
    obtain ⟨l, hl, hlkey, hstep⟩ :=
      exists_survivor_merge hmerge ((get?_entries_iff hkeys).mpr ⟨he, hkey⟩)
    have hdistinct : (leafKeys (itemsOf merged)).Nodup :=
      nodup_leafKeys_merge (hfresh fresh (List.mem_cons_self ..)) hmerge
    obtain ⟨l', honly, hlater⟩ :=
      ih hdistinct (fun f hf => hfresh f (List.mem_cons_of_mem _ hf)) hl hlkey hrest
    refine ⟨l', honly, (hstep.trans hlater).mono ?_⟩
    rintro name (hused | ⟨f, hf, hused⟩)
    · exact ⟨fresh, List.mem_cons_self .., hused⟩
    · exact ⟨f, List.mem_cons_of_mem _ hf, hused⟩

/-- A request with a test, an authorization, a header and a saved response of its user. -/
def editedRequest : Dict Json :=
  [("name", .str "Me"),
    ("request", .obj [("method", .str "GET"), ("url", .str "/users/me"), ("auth", .str "mine"),
      ("header", .arr [.obj [("key", .str "X-Trace"), ("value", .str "on")]])]),
    ("event", .str "test"), ("response", .arr [.str "saved"])]

/-- The request is given up, and comes back.  The run first syncs without the endpoint, which marks
    the request, and then with it again. -/
theorem syncs_keep_request_me : ∃ last l,
    syncs true (some [("item", .arr [.obj editedRequest])])
      [sample [("List", "/users")], sample [("Me", "/users/me")]] = .ok last ∧
    (flatten (itemsBefore last)).filter (fun l => Item.keyGiven? l.2 == some "GET /users/me") = [l] ∧
    Dict.get? l.2 "event" = some (.str "test") ∧
    Dict.get? l.2 "response" = some (.arr [.str "saved"]) ∧
    Dict.get? (Item.requestOf l.2) "auth" = some (.str "mine") ∧
    headerNamed? "key" "x-trace" (Item.headersOf l.2)
      = some (.obj [("key", .str "X-Trace"), ("value", .str "on")]) := by
  have he : (([], editedRequest) : FolderPath × Dict Json)
      ∈ flatten (itemsOf [("item", .arr [.obj editedRequest])]) := List.mem_cons_self ..
  have hkey : Item.key? editedRequest = .ok (some "GET /users/me") :=
    keyGiven?_eq_some_iff.mp (by decide)
  have hfresh : ∀ f ∈ [sample [("List", "/users")], sample [("Me", "/users/me")]],
      (leafKeys (itemsOf f)).Nodup := by decide
  have hunused : ¬∃ f ∈ [sample [("List", "/users")], sample [("Me", "/users/me")]],
      UsesHeader (itemsOf f) "GET /users/me" "x-trace" := by
    rintro ⟨f, hf, l, hl, -, header, hheader, -⟩
    have hnone : ∀ f ∈ [sample [("List", "/users")], sample [("Me", "/users/me")]],
        ∀ l ∈ flatten (itemsOf f), (Item.headersOf l.2).isEmpty = true := by decide
    rw [List.isEmpty_iff.mp (hnone f hf l hl)] at hheader
    exact absurd hheader (List.not_mem_nil)
  obtain ⟨l, honly, hkept⟩ := syncs_keep_request (by decide) hfresh he hkey rfl
  refine ⟨_, l, rfl, honly, hkept.get?_eq (by decide), hkept.response rfl,
    hkept.get?_requestOf_eq (by decide), (hkept.header _ hunused).trans rfl⟩

end RouteAtlas.Postman
