/-
  References: which variables requests refer to, and which of them are defined.

  ==== Problem ====

  Where a name stands for a value that requests share, the example in its place is a reference to a
  variable.  The same examples go into collections and exports, but either defines variables in a list
  of its own.  What is referred to should be defined.

  ==== Spec ====

  `madeUp` lists the texts that synthesis makes up for a request: the values of its headers, of its
  query parameters and of the placeholders in its path, and what is guessed in its bodies.
  `references_defined_iff`, for endpoints whose parameters come without samples:

  * the variable that a request begins with is always defined;
  * a collection defines all that its made-up texts refer to;
  * an export does so exactly when no parameter, placeholder or guessed property is called like the
    identifier of a user or an order.

  An export defines the token alone of what requests share (`export_misses_userId`).

  ==== The crux ====

  A made-up text is a reference to what its name stands for, or has no brace in it.  So names decide,
  and the placeholders of a path, which are written in braces too, are not among the texts: they are
  declared in the request itself.
-/
import RouteAtlas.Proofs.Collection.Leaf
import RouteAtlas.Proofs.Collection.ServiceUrl

namespace RouteAtlas

open Example (shared? Unbraced braced braced_infix_unique toList_reference_eq_braced)

/-! ## What is made up

Values that are guessed: for parameters, for bodies, for headers.  Each is guessed from a name, and
is a reference exactly if the name stands for a shared variable. -/

namespace Endpoint

variable (e : Endpoint)

/-- The parameters come without samples. -/
def Unsampled : Prop :=
  (∀ p ∈ e.parameters.query, p.sample = .null) ∧ ∀ p ∈ e.parameters.path, p.sample = .null

/-- The values of an endpoint's query parameters, and of the placeholders in its path. -/
def parameterValues : List String :=
  (Example.queryEntries e.parameters.query).map (·.value)
    ++ (Example.pathVariables e.path e.parameters.path).map (·.2)

/-- The bodies of an endpoint: that of its request, and those of its responses. -/
def bodies : List Shape := e.parameters.body.toList ++ e.responses.filterMap (·.body)

/-- The names that are guessed from for an endpoint's request. -/
def guessedNames : List String :=
  e.queryNames ++ e.pathNames
    ++ e.parameters.body.toList.flatMap fun body => (Example.leaves body).filterMap (·.name?)

end Endpoint

/-- The texts that are guessed in the examples of shapes. -/
def Example.guessesIn (shapes : List Shape) : List String :=
  shapes.flatMap fun shape => (leaves shape).flatMap (·.guessedTexts)

/-- The text is a reference to what one of the names stands for, or has no brace in it. -/
def Guess (names : List String) (text : String) : Prop :=
  (∃ name ∈ names, ∃ v, shared? name = some v ∧ text = Example.reference v) ∨ Unbraced text

/-- A guess from some names is one from more. -/
theorem Guess.mono {names names' : List String} {text : String} (hsub : ∀ n ∈ names, n ∈ names')
    (h : Guess names text) : Guess names' text := by
  rcases h with ⟨name, hname, hshared⟩ | hplain
  · exact .inl ⟨name, hsub name hname, hshared⟩
  · exact .inr hplain

/-- What is guessed for a primitive is a guess from its name. -/
theorem guess_primitive (name type : String) (place : Example.Place) :
    Guess [name] (Example.urlText (Example.primitive name type place)) := by
  cases h : shared? name with
  | none => exact .inr (Example.unbraced_primitive h type place).1
  | some v =>
    refine .inl ⟨name, List.mem_singleton_self name, v, h, ?_⟩
    rw [Example.primitive_of_shared h]
    rfl

/-- A query parameter without a sample has a guessed value. -/
theorem value_of_queryEntries {params : List Param} (h : ∀ p ∈ params, p.sample = .null)
    {q : Example.QueryEntry} (hq : q ∈ Example.queryEntries params) :
    ∃ type, q.value = Example.urlText (Example.primitive q.key type .query) := by
  obtain ⟨p, hp, rfl⟩ := List.mem_map.mp hq
  have hnone : Example.hasSample p = false := by
    rw [Example.hasSample, h p hp]
  refine ⟨p.type, ?_⟩
  dsimp only
  rw [hnone, Bool.false_and]
  rfl

/-- A placeholder has a guessed value, when its parameter is declared without a sample or not at
    all. -/
theorem value_of_pathVariables {path : String} {declared : List Param}
    (h : ∀ p ∈ declared, p.sample = .null) {entry : String × String}
    (hentry : entry ∈ Example.pathVariables path declared) :
    ∃ type, entry.2 = Example.urlText (Example.primitive entry.1 type .path) := by
  -- a declared parameter refines the placeholder of its name; neither has a sample
  have hrefined : ∀ (declared : List Param) (d : Dict Param), (∀ p ∈ declared, p.sample = .null) →
      (∀ entry ∈ d, entry.2.sample = .null) → ∀ entry ∈ declared.foldl
        (fun d p => if Dict.has d p.name then Dict.put d p.name p else d) d,
          entry.2.sample = .null := by
    intro declared
    induction declared with
    | nil => exact fun d _ hd => hd
    | cons p declared ih =>
      intro d hdeclared hd
      refine ih _ (fun p hp => hdeclared p (List.mem_cons_of_mem _ hp)) ?_
      dsimp only
      split
      · intro entry hentry
        rcases Dict.mem_put hentry with hold | ⟨hnew, -⟩
        · exact hd entry hold
        · exact hnew ▸ hdeclared p List.mem_cons_self
      · exact hd
  obtain ⟨p, hp, rfl⟩ := List.mem_map.mp hentry
  obtain ⟨refined, hmem, rfl⟩ := List.mem_map.mp hp
  have hnone : refined.2.sample = .null := by
    refine hrefined declared _ h (fun placeholder hplaceholder => ?_) refined hmem
    obtain ⟨n, -, rfl⟩ := List.mem_map.mp hplaceholder
    rfl
  refine ⟨refined.2.type, ?_⟩
  dsimp only
  rw [hnone]

/-- The texts in the examples of shapes are guesses from the names of their leaves. -/
theorem guess_of_mem_guessesIn {shapes : List Shape} {text : String}
    (h : text ∈ Example.guessesIn shapes) :
    Guess (shapes.flatMap fun shape => (Example.leaves shape).filterMap (·.name?)) text := by
  obtain ⟨shape, hshape, h⟩ := List.mem_flatMap.mp h
  obtain ⟨leaf, hleaf, h⟩ := List.mem_flatMap.mp h
  cases leaf with
  | given value => exact absurd h List.not_mem_nil
  | guessed name type format =>
    cases hshared : shared? name with
    | none => exact .inr (Example.unbraced_of_guessed hshared type format text h)
    | some v =>
      have hname : name ∈ shapes.flatMap fun shape => (Example.leaves shape).filterMap (·.name?) :=
        List.mem_flatMap.mpr ⟨shape, hshape, List.mem_filterMap.mpr ⟨_, hleaf, rfl⟩⟩
      have htext : text ∈ [Example.reference v] := Example.texts_of_shared hshared type format ▸ h
      exact .inl ⟨name, hname, v, hshared, List.mem_singleton.mp htext⟩

section

variable {e : Endpoint} (h : e.Unsampled)
include h

/-- The values of parameters are guesses from their names. -/
theorem guess_of_mem_parameterValues {text : String} (ht : text ∈ e.parameterValues) :
    Guess (e.queryNames ++ e.pathNames) text := by
  rcases List.mem_append.mp ht with ht | ht
  · obtain ⟨q, hq, rfl⟩ := List.mem_map.mp ht
    obtain ⟨type, hvalue⟩ := value_of_queryEntries h.1 hq
    rw [hvalue]
    refine (guess_primitive q.key type .query).mono fun n hn => List.mem_append_left _ ?_
    exact List.mem_singleton.mp hn ▸ List.mem_map_of_mem hq
  · obtain ⟨entry, hentry, rfl⟩ := List.mem_map.mp ht
    obtain ⟨type, hvalue⟩ := value_of_pathVariables h.2 hentry
    rw [hvalue]
    refine (guess_primitive entry.1 type .path).mono fun n hn => List.mem_append_right _ ?_
    exact List.mem_singleton.mp hn ▸ List.mem_map_of_mem hentry

/-- **Every shared name shows**: the reference to what it stands for is among the texts.  A name is
    guessed for the query, for the path or for a leaf of the body, and in each place the value of a
    shared name is its reference. -/
theorem reference_mem_of_shared {name v : String} (hname : name ∈ e.guessedNames)
    (hshared : shared? name = some v) :
    Example.reference v ∈ e.parameterValues ++ Example.guessesIn e.parameters.body.toList := by
  rcases List.mem_append.mp hname with hname | hname
  · refine List.mem_append_left _ ?_
    rcases List.mem_append.mp hname with hname | hname
    · obtain ⟨q, hq, rfl⟩ := List.mem_map.mp hname
      obtain ⟨type, hvalue⟩ := value_of_queryEntries h.1 hq
      rw [Example.primitive_of_shared hshared] at hvalue
      exact List.mem_append_left _ (List.mem_map.mpr ⟨q, hq, hvalue⟩)
    · obtain ⟨entry, hentry, rfl⟩ := List.mem_map.mp hname
      obtain ⟨type, hvalue⟩ := value_of_pathVariables h.2 hentry
      rw [Example.primitive_of_shared hshared] at hvalue
      exact List.mem_append_right _ (List.mem_map.mpr ⟨entry, hentry, hvalue⟩)
  · obtain ⟨body, hbody, hname⟩ := List.mem_flatMap.mp hname
    obtain ⟨leaf, hleaf, hleafName⟩ := List.mem_filterMap.mp hname
    refine List.mem_append_right _ (List.mem_flatMap.mpr ⟨body, hbody,
      List.mem_flatMap.mpr ⟨leaf, hleaf, ?_⟩⟩)
    cases leaf with
    | given value => cases hleafName
    | guessed other type format =>
      obtain rfl := Option.some.inj hleafName
      show Example.reference v ∈ (Example.Leaf.guessed other type format).value.texts
      rw [Example.texts_of_shared hshared]
      exact List.mem_singleton_self _

end

/-! ## What is referred to

Which variable a text refers to.  A guess has no other braces than those of its reference, so there
is one answer at most. -/

/-- The reference behind a text without braces is the only one. -/
theorem Example.RefersTo.eq {front name name' : String} (hfront : Unbraced front)
    (hname : Unbraced name) (h : Example.RefersTo (front ++ Example.reference name) name') :
    name' = name := by
  rw [Example.RefersTo, String.toList_append, toList_reference_eq_braced,
    toList_reference_eq_braced] at h
  exact String.toList_inj.mp (braced_infix_unique hfront hname h)

/-- A reference refers to its own name only. -/
theorem Example.RefersTo.eq_of_reference {name name' : String} (hname : Unbraced name)
    (h : Example.RefersTo (Example.reference name) name') : name' = name := by
  have hnone : Unbraced "" := by decide
  rw [← String.empty_append (s := Example.reference name)] at h
  exact h.eq hnone hname

theorem Example.refersTo_reference (name : String) :
    Example.RefersTo (Example.reference name) name := List.infix_refl _

/-- A text without braces refers to nothing. -/
theorem Example.not_refersTo {text : String} (h : Unbraced text) (name : String) :
    ¬Example.RefersTo text name := by
  rw [Example.RefersTo, toList_reference_eq_braced]
  exact h.notInfix_braced _

/-- Shared variables have plain names. -/
theorem Example.plain_of_shared {name v : String} (h : shared? name = some v) :
    Unbraced v ∧ ' ' ∉ v.toList := by
  have hall : ∀ v ∈ sharedVariables, Unbraced v ∧ ' ' ∉ v.toList := by decide
  exact hall v (mem_sharedVariables_of_shared? h)

namespace Insomnia

/-- A reference is written with blanks around the name, or as in a collection. -/
def RefersTo (text name : String) : Prop :=
  ' ' ∉ name.toList ∧ (Example.RefersTo text name ∨ (reference name).toList <:+: text.toList)

/-- A reference with blanks, character by character. -/
theorem toList_reference_eq_braced (name : String) : (reference name).toList
    = braced (' ' :: '_' :: '.' :: (name.toList ++ [' '])) := by
  rw [toList_reference, braced]
  simp only [List.cons_append, List.append_assoc, List.nil_append]
  rfl

/-- A reference as in a collection refers to its own name only, in an export, too. -/
theorem RefersTo.eq_of_plain {name name' : String} (hname : Unbraced name) (hblank : ' ' ∉ name.toList)
    (h : RefersTo (Example.reference name) name') : name' = name := by
  rcases h.2 with h | h
  · exact h.eq_of_reference hname
  · rw [toList_reference_eq_braced, Example.toList_reference_eq_braced] at h
    have hnone : '\x7b' ∉ ([] : List Char) ∧ '\x7d' ∉ ([] : List Char) :=
      ⟨List.not_mem_nil, List.not_mem_nil⟩
    have heq := braced_infix_unique hnone hname h
    exact absurd (heq ▸ List.mem_cons_self) hblank

theorem RefersTo.eq_of_blank {front name name' : String} (hfront : Unbraced front)
    (hname : Unbraced name) (h : RefersTo (front ++ reference name) name') : name' = name := by
  have hinner : '\x7b' ∉ ' ' :: '_' :: '.' :: (name.toList ++ [' ']) ∧
      '\x7d' ∉ ' ' :: '_' :: '.' :: (name.toList ++ [' ']) := by
    constructor
    · simp [hname.1]
    · simp [hname.2]
  obtain ⟨hblank, h | h⟩ := h
  · rw [Example.RefersTo, String.toList_append, toList_reference_eq_braced,
      Example.toList_reference_eq_braced] at h
    have heq := braced_infix_unique hfront hinner h
    exact absurd (heq ▸ List.mem_cons_self) hblank
  · rw [String.toList_append, toList_reference_eq_braced, toList_reference_eq_braced] at h
    have heq := braced_infix_unique hfront hinner h
    simp only [List.cons.injEq, true_and, List.append_cancel_right_eq] at heq
    exact String.toList_inj.mp heq

/-- A text without braces refers to nothing. -/
theorem not_refersTo {text : String} (h : Unbraced text) (name : String) : ¬RefersTo text name := by
  rintro ⟨-, hin | hin⟩
  · exact Example.not_refersTo h name hin
  · rw [toList_reference_eq_braced] at hin
    exact h.notInfix_braced _ hin

end Insomnia

/-- A guess refers to what one of its names stands for, and to nothing else. -/
theorem Guess.shared_of_refersTo {names : List String} {text name : String} (h : Guess names text)
    (hrefers : Example.RefersTo text name ∨ Insomnia.RefersTo text name) :
    ∃ n ∈ names, shared? n = some name := by
  rcases h with ⟨n, hn, v, hshared, rfl⟩ | hplain
  · obtain ⟨hunbraced, hblank⟩ := Example.plain_of_shared hshared
    have hname : name = v := by
      rcases hrefers with h | h
      · exact h.eq_of_reference hunbraced
      · exact h.eq_of_plain hunbraced hblank
    exact ⟨n, hn, hname ▸ hshared⟩
  · rcases hrefers with h | h
    · exact absurd h (Example.not_refersTo hplain name)
    · exact absurd h (Insomnia.not_refersTo hplain name)

/-- Of two headers, each there or not, there are two values at most. -/
theorem text_of_two {first second : Json} {one other text : String} {c d : Bool}
    (hfirst : first.field? "value" = some (.str one))
    (hsecond : second.field? "value" = some (.str other))
    (h : text ∈ textsUnder "value"
      (some (.arr ((if c then [first] else []) ++ (if d then [second] else []))))) :
    text = one ∨ text = other := by
  obtain ⟨header, hheader, htext⟩ := List.mem_filterMap.mp h
  rcases List.mem_append.mp hheader with hheader | hheader
  · split at hheader
    · rw [List.mem_singleton.mp hheader, hfirst] at htext
      exact .inl (Option.some.inj htext).symm
    · exact absurd hheader List.not_mem_nil
  · split at hheader
    · rw [List.mem_singleton.mp hheader, hsecond] at htext
      exact .inr (Option.some.inj htext).symm
    · exact absurd hheader List.not_mem_nil

/-! ## Collections

A collection defines all shared variables, so that whatever is guessed is defined. -/

namespace Postman

/-- The texts that are made up for an endpoint's request and its saved responses. -/
def madeUp (item : Dict Json) (e : Endpoint) : List String :=
  textsUnder "value" (Dict.get? (Item.requestOf item) "header")
    ++ (textsUnder "value" (Dict.get? (urlParts item) "query")
      ++ textsUnder "value" (Dict.get? (urlParts item) "variable"))
    ++ Example.guessesIn e.bodies

/-- The collection defines what the request begins with and what its texts refer to. -/
structure Defines (collection item : Dict Json) (e : Endpoint) : Prop where
  base : ∀ name, UsesBase item name → name ∈ Dict.keys (variablesOf collection)
  texts : ∀ text ∈ madeUp item e, ∀ name, Example.RefersTo text name →
    name ∈ Dict.keys (variablesOf collection)

/-- What is made up for an endpoint: headers, parameters, bodies. -/
theorem madeUp_itemOf (apps : List String) (e : Endpoint) : madeUp (itemOf apps e) e
    = textsUnder "value" (some (.arr (headersOf e))) ++ e.parameterValues
      ++ Example.guessesIn e.bodies := by
  have hvalues : ∀ q, (queryJson q).field? "value" = some (.str q.value) := fun _ => rfl
  obtain ⟨parts, hparts, hquery, hpath⟩ := texts_urlOf apps e hvalues fun _ => rfl
  have hurl : urlParts (itemOf apps e) = parts := by
    have hget : Dict.get? (Item.requestOf (itemOf apps e)) "url" = some (urlOf e apps) := rfl
    rw [urlParts, hget, hparts]
  rw [madeUp, hurl, hquery, hpath]
  rfl

/-- The common variables, the shared ones and those of the services are defined. -/
theorem keys_document (id : String) (settings : Settings) (endpoints : List Endpoint) {name : String}
    (h : name ∈ "baseUrl" :: Example.sharedVariables ∨
      name ∈ settings.serviceNames.map Folder.baseVariableOf) :
    name ∈ Dict.keys (variablesOf (document id settings endpoints)) := by
  rw [keys_variablesOf_document]
  exact List.mem_append.mpr h

/-- **A collection defines what its requests refer to.** A request refers to its base variable, to
    the token in a header and to what its guesses share, and the collection defines all three kinds. -/
theorem defines_document (id : String) (settings : Settings) (endpoints : List Endpoint) {e : Endpoint}
    (h : e.Unsampled) :
    Defines (document id settings endpoints) (itemOf settings.serviceNames e) e := by
  constructor
  -- the URL begins with a base variable, common or of a service
  case base =>
    intro name hname
    rw [usesBase_itemOf.mp hname]
    refine keys_document id settings endpoints ?_
    rcases Folder.baseVariable_mem e settings.serviceNames with hcommon | hservice
    · rw [hcommon]
      exact .inl List.mem_cons_self
    · exact .inr hservice
  -- a header refers to the token, and a guess to a shared variable
  case texts =>
    intro text htext name hrefers
    refine keys_document id settings endpoints (.inl (List.mem_cons_of_mem _ ?_))
    have hguess : ∀ {names : List String}, Guess names text → name ∈ Example.sharedVariables := by
      intro names hguess
      obtain ⟨n, -, hshared⟩ := hguess.shared_of_refersTo (.inl hrefers)
      exact Example.mem_sharedVariables_of_shared? hshared
    rw [madeUp_itemOf] at htext
    rcases List.mem_append.mp htext with htext | htext
    · rcases List.mem_append.mp htext with htext | htext
      · rcases text_of_two rfl rfl htext with rfl | rfl
        · exact absurd hrefers (Example.not_refersTo (by decide) name)
        · rw [hrefers.eq (by decide) (by decide)]
          decide
      · exact hguess (guess_of_mem_parameterValues h htext)
    · exact hguess (guess_of_mem_guessesIn htext)

end Postman

/-! ## Exports

An export defines the token only.  Identifiers of users and orders are shared, too, and are what is
missing. -/

namespace Insomnia

open Resource (ofKind)

/-- The texts that are made up for an endpoint's request. -/
def madeUp (r : Resource) (e : Endpoint) : List String :=
  textsUnder "value" (Dict.get? r "headers")
    ++ (textsUnder "value" (Dict.get? r "parameters")
      ++ textsUnder "value" (Dict.get? r "pathParameters"))
    ++ Example.guessesIn e.parameters.body.toList

/-- The export defines what the texts of the request refer to. -/
def Defines (exported r : Dict Json) (e : Endpoint) : Prop :=
  ∀ text ∈ madeUp r e, ∀ name, RefersTo text name → name ∈ Dict.keys (baseData exported)

/-- What is made up for an endpoint's request: headers, parameters, body. -/
theorem madeUp_requestOf (apps : List String) (parent : String) (e : Endpoint) :
    madeUp (requestOf apps parent e) e = textsUnder "value" (some (.arr (headersOf e)))
      ++ e.parameterValues ++ Example.guessesIn e.parameters.body.toList := by
  have hquery : textsUnder "value" (Dict.get? (requestOf apps parent e) "parameters")
      = (Example.queryEntries e.parameters.query).map (·.value) := textsUnder_map (fun _ => rfl) _
  have hpath : textsUnder "value" (Dict.get? (requestOf apps parent e) "pathParameters")
      = (Example.pathVariables e.path e.parameters.path).map (·.2) := by
    rw [requestOf, Dict.get?_append]
    exact textsUnder_unlessEmpty (fun _ => rfl) _
  rw [madeUp, hquery, hpath]
  rfl

/-- The variable that a URL begins with is defined. -/
theorem base_mem_keys (date : String) (settings : Settings) (endpoints : List Endpoint)
    (parent : String) (e : Endpoint) {name : String}
    (h : UsesBase (requestOf settings.serviceNames parent e) name) :
    name ∈ Dict.keys (baseData (document date settings endpoints)) := by
  rw [usesBase_requestOf.mp h]
  refine mem_keys_baseData_document.mpr ?_
  rcases Folder.baseVariable_mem e settings.serviceNames with hcommon | hservice
  · rw [hcommon]
    exact .inl List.mem_cons_self
  · exact .inr hservice

/-- What requests share is defined if it is the token. -/
theorem shared_mem_keys_iff {date : String} {settings : Settings} {endpoints : List Endpoint}
    {name v : String} (h : shared? name = some v) :
    v ∈ Dict.keys (baseData (document date settings endpoints)) ↔
      String.ofList (Example.lookupKey name) ∉ ["userid", "orderid"] := by
  have hservice : v ∉ settings.serviceNames.map Folder.baseVariableOf := by
    intro hmem
    obtain ⟨a, -, rfl⟩ := List.mem_map.mp hmem
    exact Folder.baseVariableOf_notMem a
      (List.mem_cons_of_mem _ (Example.mem_sharedVariables_of_shared? h))
  have hkey : ∀ e ∈ Example.references,
      (e.2 ∈ ["baseUrl", "authToken"] ↔ e.1 ∉ ["userid", "orderid"]) := by decide
  rw [mem_keys_baseData_document, or_iff_left hservice]
  exact hkey _ (Dict.mem_of_get? h)

/-- **An export defines what its requests refer to**, unless the name of a user's or an order's
    identifier is among those that are guessed from. -/
theorem defines_document_iff (date : String) (settings : Settings) (endpoints : List Endpoint)
    (parent : String) {e : Endpoint} (h : e.Unsampled) :
    Defines (document date settings endpoints) (requestOf settings.serviceNames parent e) e ↔
      ∀ name ∈ e.guessedNames, String.ofList (Example.lookupKey name) ∉ ["userid", "orderid"] := by
  rw [Defines, madeUp_requestOf]
  constructor
  -- a name that stands for an identifier shows among the texts, and its variable is not there
  case mp =>
    intro hdefines name hname hkey
    have hshared : ∃ v, shared? name = some v := by
      have hall : ∀ key ∈ ["userid", "orderid"], (Dict.get? Example.references key).isSome = true := by
        decide
      exact Option.isSome_iff_exists.mp (hall _ hkey)
    obtain ⟨v, hv⟩ := hshared
    have hmem := reference_mem_of_shared h hname hv
    rw [List.append_assoc] at hdefines
    have hdefined := hdefines _ (List.mem_append_right _ hmem) v
      ⟨(Example.plain_of_shared hv).2, .inl (Example.refersTo_reference v)⟩
    exact (shared_mem_keys_iff hv).mp hdefined hkey
  -- any other name stands for the token or for nothing
  case mpr =>
    intro hnames text htext name hrefers
    have hguess : Guess e.guessedNames text →
        name ∈ Dict.keys (baseData (document date settings endpoints)) := by
      intro hguess
      obtain ⟨n, hn, hshared⟩ := hguess.shared_of_refersTo (.inr hrefers)
      exact (shared_mem_keys_iff hshared).mpr (hnames n hn)
    rcases List.mem_append.mp htext with htext | htext
    · rcases List.mem_append.mp htext with htext | htext
      · rcases text_of_two rfl rfl htext with rfl | rfl
        · exact absurd hrefers (not_refersTo (by decide) name)
        · rw [hrefers.eq_of_blank (by decide) (by decide)]
          exact mem_keys_baseData_document.mpr (.inl (by decide))
      · exact hguess ((guess_of_mem_parameterValues h htext).mono
          fun n hn => List.mem_append_left _ hn)
    · exact hguess ((guess_of_mem_guessesIn htext).mono fun n hn => List.mem_append_right _ hn)

end Insomnia

/-! ## Both formats

The two statements side by side. -/

/-- **Which references are defined.**  The texts of every example are those of its leaves, so what is
    guessed in a body is in it.  Where parameters have no samples of their own, a collection defines
    whatever its requests refer to; an export defines what they begin with, and all else exactly when
    no name is guessed from that stands for the identifier of a user or an order. -/
theorem references_defined_iff {settings : Settings} {endpoints : List Endpoint}
    (h : ∀ e ∈ endpoints, e.Unsampled) (id date : String) :
    (∀ shape, Example.MadeOf (Example.ofShape shape) (Example.leaves shape)) ∧
    (∃ items, ((Postman.flatten (Postman.itemsOf (Postman.document id settings endpoints))).map
        (·.2)).Perm items ∧
      List.Forall₂ (fun e item => Postman.Defines (Postman.document id settings endpoints) item e)
        endpoints items) ∧
    List.Forall₂ (fun _ r => ∀ name, Insomnia.UsesBase r name →
        name ∈ Dict.keys (Insomnia.baseData (Insomnia.document date settings endpoints)))
      endpoints (Insomnia.Resource.ofKind "request"
        (Insomnia.resourcesOf (Insomnia.document date settings endpoints))) ∧
    (List.Forall₂ (fun e r => Insomnia.Defines (Insomnia.document date settings endpoints) r e)
        endpoints (Insomnia.Resource.ofKind "request"
          (Insomnia.resourcesOf (Insomnia.document date settings endpoints))) ↔
      ∀ e ∈ endpoints, ∀ name ∈ e.guessedNames,
        String.ofList (Example.lookupKey name) ∉ ["userid", "orderid"]) := by
  refine ⟨Example.texts_ofShape, ⟨_, Postman.requests_document id settings endpoints, ?_⟩, ?_, ?_⟩
  · rw [List.forall₂_map_right_iff, List.forall₂_same]
    exact fun e he => Postman.defines_document id settings endpoints (h e he)
  · rw [Insomnia.requests_document, List.forall₂_map_right_iff, List.forall₂_same]
    exact fun e _ name => Insomnia.base_mem_keys date settings endpoints _ e
  · rw [Insomnia.requests_document, List.forall₂_map_right_iff, List.forall₂_same]
    exact forall₂_congr fun e he =>
      Insomnia.defines_document_iff date settings endpoints _ (h e he)

/-- An order is placed by a user who is logged in; the body says for whom it is. -/
def orderEndpoint : Endpoint :=
  { method := .post, path := "/shops/:shopId/orders", auth := true
    parameters := { body := some (Shape.ofProperties
      [("note", Shape.text), ("customer", Shape.ofProperties [("user_id", Shape.text)])]) } }

/-- The bills of a shop. -/
def billEndpoint : Endpoint :=
  { method := .get, path := "/shops/:shopId/bills", auth := true
    parameters := { query := [{ name := "limit", type := "integer", required := false }] } }

/-- Both formats define what is referred to for the bills of a shop; for an order the export does
    not. -/
theorem references_defined_iff_orders :
    (∀ e ∈ [billEndpoint, orderEndpoint], e.Unsampled) ∧
    Insomnia.madeUp (Insomnia.requestOf [] "" billEndpoint) billEndpoint
      = ["Bearer \x7b\x7b _.authToken \x7d\x7d", "20", Example.sampleId] ∧
    Example.guessesIn orderEndpoint.bodies = ["string", "\x7b\x7buserId\x7d\x7d"] ∧
    List.Forall₂ (fun e r => Insomnia.Defines (Insomnia.document "" {} [billEndpoint]) r e)
      [billEndpoint] (Insomnia.Resource.ofKind "request"
        (Insomnia.resourcesOf (Insomnia.document "" {} [billEndpoint]))) ∧
    ¬List.Forall₂ (fun e r =>
        Insomnia.Defines (Insomnia.document "" {} [billEndpoint, orderEndpoint]) r e)
      [billEndpoint, orderEndpoint] (Insomnia.Resource.ofKind "request"
        (Insomnia.resourcesOf (Insomnia.document "" {} [billEndpoint, orderEndpoint]))) := by
  have hall : ∀ e ∈ [billEndpoint, orderEndpoint], e.Unsampled := by
    simp [Endpoint.Unsampled, billEndpoint, orderEndpoint]
  have hbill := (@references_defined_iff {} [billEndpoint]
    (fun e he => hall e (List.mem_cons.mpr (.inl (List.mem_singleton.mp he)))) "" "").2.2.2
  have hboth := (@references_defined_iff {} _ hall "" "").2.2.2
  refine ⟨hall, ?_, ?_, hbill.mpr ?_, fun hdefines => ?_⟩
  · decide +kernel
  · decide +kernel
  · decide +kernel
  · have hname : "user_id" ∈ orderEndpoint.guessedNames := by decide +kernel
    exact hboth.mp hdefines orderEndpoint (by simp) "user_id" hname (by decide)

/-- The one route of a service that has a shared name in its path. -/
def userEndpoint : Endpoint := { method := .get, path := "/users/:userId" }

/-- **An export does not define all that its requests refer to**: the identifier of a user is a
    reference to a variable that is not there. -/
theorem export_misses_userId :
    ¬∀ (settings : Settings) (endpoints : List Endpoint) (date : String),
      (∀ e ∈ endpoints, e.Unsampled) →
      List.Forall₂ (fun e r => Insomnia.Defines (Insomnia.document date settings endpoints) r e)
        endpoints (Insomnia.Resource.ofKind "request"
          (Insomnia.resourcesOf (Insomnia.document date settings endpoints))) := by
  intro hall
  have hunsampled : ∀ e ∈ [userEndpoint], e.Unsampled := by
    simp [Endpoint.Unsampled, userEndpoint]
  have hdefines := hall {} [userEndpoint] "" hunsampled
  rw [Insomnia.requests_document, List.forall₂_map_right_iff, List.forall₂_same] at hdefines
  have htext : ∀ parent, Example.reference "userId" ∈
      Insomnia.madeUp (Insomnia.requestOf [] parent userEndpoint) userEndpoint := by
    intro parent
    rw [Insomnia.madeUp_requestOf]
    decide +kernel
  have hkey := hdefines userEndpoint (List.mem_singleton_self _) _ (htext _) "userId"
    ⟨by decide, .inl (Example.refersTo_reference "userId")⟩
  rcases Insomnia.mem_keys_baseData_document.mp hkey with hcommon | hservice
  · exact absurd hcommon (by decide)
  · exact absurd hservice List.not_mem_nil

end RouteAtlas
