/-
  One resource over another: requests and environments.

  ==== Program ====

  A merged request has the name, method, URL, parent, headers, description and body of the fresh one
  and all else of the persisted one; a merged environment has the name and parent of the fresh one
  and the variables of both.

  ==== Spec ====

  For either kind:

  * the identifier and the kind are the persisted ones, and the identifier of the fresh resource
    does not count (`mergeRequest_congr`, `mergeEnvironment_congr`);
  * merging once more changes nothing (`mergeRequest_stable`, `mergeEnvironment_stable`);
  * a fresh resource is left as it is by merging it into itself (`mergeRequest_self`,
    `mergeEnvironment_self`).

  ==== The crux ====

  For requests, `Settled` says what has to be there so that nothing is done; a merge settles a
  request and leaves a settled one alone.  For variables the same rests on `mergeData_eq_self`: a
  variable that is there already, and with the fresh value unless that is left open, is not touched.
-/
import RouteAtlas.Insomnia.Merge
import RouteAtlas.Proofs.Persisted.Header
import RouteAtlas.Proofs.Postman.Request

namespace RouteAtlas.Insomnia

open Persisted (isBodyless bind_eq_ok_iff pure_eq_ok_iff DistinctlyNamed)
open Postman (orElse_of_truthy orElse_orElse orElse_self persistedKey?_eq_some_iff)
open Resource (fieldOrNull)

/-- A field that is there is not null by absence. -/
theorem fieldOrNull_of_get? {r : Resource} {name : String} {value : Json}
    (h : Dict.get? r name = some value) : fieldOrNull r name = value := by
  rw [fieldOrNull, h]
  rfl

/-! ## Requests

A merged request is the persisted one with some fields put over it, and then the description and the
body.  `Settled` says what a request has to have so that merging it again does nothing. -/

/-- A request with the description of the fresh one, if it has any. -/
def described (fresh merged : Resource) : Resource :=
  if (fieldOrNull fresh "description").truthy then
    Dict.put merged "description" (fieldOrNull fresh "description")
  else merged

/-- A request with the body of the fresh one, an empty one if none belongs there. -/
def embodied (method : Json) (fresh merged : Resource) : Resource :=
  if isBodyless method then Dict.put merged "body" (.obj [])
  else if (fieldOrNull fresh "body").truthy then Dict.put merged "body" (fieldOrNull fresh "body")
  else merged

/-- Only the description changes with the description. -/
theorem get?_described {name : String} (h : name ≠ "description") (fresh merged : Resource) :
    Dict.get? (described fresh merged) name = Dict.get? merged name := by
  rw [described]
  split
  · rw [Dict.get?_put_of_ne h]
  · rfl

/-- Only the body changes with the body. -/
theorem get?_embodied {name : String} (h : name ≠ "body") (method : Json) (fresh merged : Resource) :
    Dict.get? (embodied method fresh merged) name = Dict.get? merged name := by
  rw [embodied]
  split
  · rw [Dict.get?_put_of_ne h]
  · split
    · rw [Dict.get?_put_of_ne h]
    · rfl

/-- One of the fields that the fresh request decides when it has it. -/
def chosen (name : String) (fresh existing : Resource) : Json :=
  Json.orElse (Dict.get? fresh name) (Dict.get? existing name)

/-- The fields that are set in any case. -/
def ownFields (fresh existing : Resource) (headers : Json) : Dict Json :=
  [("name", chosen "name" fresh existing), ("method", chosen "method" fresh existing),
    ("url", chosen "url" fresh existing), ("parentId", fieldOrNull fresh "parentId"),
    ("headers", headers)]

/-- Requests are merged if their headers can be, and then in this way. -/
theorem mergeRequest_eq_ok_iff {fresh existing merged : Resource} :
    mergeRequest fresh existing = .ok merged ↔ ∃ headers,
      Persisted.mergeHeaderFields "name" (Dict.get? fresh "headers") (Dict.get? existing "headers")
        = .ok headers ∧
      merged = embodied (chosen "method" fresh existing) fresh
        (described fresh (Dict.putAll existing (ownFields fresh existing headers))) := by
  rw [mergeRequest, bind_eq_ok_iff]
  exact exists_congr fun headers => and_congr_right fun _ => pure_eq_ok_iff.trans eq_comm

/-- A request that has everything the fresh one asks for; `like` is a request with the names,
    methods and URLs to choose from. -/
structure Settled (fresh like merged : Resource) (headers : Json) : Prop where
  own : ∀ e ∈ ownFields fresh like headers, Dict.get? merged e.1 = some e.2
  description : (fieldOrNull fresh "description").truthy = true →
    Dict.get? merged "description" = some (fieldOrNull fresh "description")
  bodyless : isBodyless (chosen "method" fresh like) = true →
    Dict.get? merged "body" = some (.obj [])
  body : isBodyless (chosen "method" fresh like) = false →
    (fieldOrNull fresh "body").truthy = true →
      Dict.get? merged "body" = some (fieldOrNull fresh "body")

section

variable {fresh like merged : Resource} {headers : Json} (h : Settled fresh like merged headers)
include h

/-- The name is the fresh one, unless the fresh request has none. -/
theorem Settled.name_eq : Dict.get? merged "name" = some (chosen "name" fresh like) :=
  h.own ("name", chosen "name" fresh like) (List.mem_cons_self ..)

/-- The method is the fresh one, unless the fresh request has none. -/
theorem Settled.method_eq : Dict.get? merged "method" = some (chosen "method" fresh like) :=
  h.own ("method", chosen "method" fresh like) (List.mem_cons_of_mem _ (List.mem_cons_self ..))

/-- The URL is the fresh one, unless the fresh request has none. -/
theorem Settled.url_eq : Dict.get? merged "url" = some (chosen "url" fresh like) :=
  h.own ("url", chosen "url" fresh like)
    (List.mem_cons_of_mem _ (List.mem_cons_of_mem _ (List.mem_cons_self ..)))

theorem Settled.headers_eq : Dict.get? merged "headers" = some headers :=
  h.own ("headers", headers) (by simp [ownFields])

end

/-- The fields that are set in any case are set once each. -/
theorem get?_putAll_ownFields (fresh like d : Resource) (headers : Json) {e : String × Json}
    (he : e ∈ ownFields fresh like headers) :
    Dict.get? (Dict.putAll d (ownFields fresh like headers)) e.1 = some e.2 := by
  have hnodup : (Dict.keys (ownFields fresh like headers).reverse).Nodup := by
    show (["headers", "parentId", "url", "method", "name"] : List String).Nodup
    decide
  rw [Dict.get?_putAll, Dict.get?_of_mem hnodup (List.mem_reverse.mpr he)]
  rfl

/-- **A merged request has everything the fresh one asks for.** The fields are written in layers,
    first the own ones, then the description, then the body, and no layer touches the fields of
    another. -/
theorem settled_of_mergeRequest {fresh existing merged : Resource}
    (h : mergeRequest fresh existing = .ok merged) : ∃ headers,
      Persisted.mergeHeaderFields "name" (Dict.get? fresh "headers") (Dict.get? existing "headers")
        = .ok headers ∧ Settled fresh existing merged headers := by
  obtain ⟨headers, hheaders, rfl⟩ := mergeRequest_eq_ok_iff.mp h
  refine ⟨headers, hheaders, ?_⟩
  constructor
  -- name, method, URL, parent and headers are neither description nor body, which come later
  case own =>
    intro e he
    have hname : e.1 ≠ "body" ∧ e.1 ≠ "description" := by
      have hkey : e.1 ∈ (["name", "method", "url", "parentId", "headers"] : List String) :=
        List.mem_map_of_mem (f := Prod.fst) he
      revert hkey
      generalize e.1 = name
      intro hkey
      constructor
      · rintro rfl
        exact absurd hkey (by decide)
      · rintro rfl
        exact absurd hkey (by decide)
    rw [get?_embodied hname.1, get?_described hname.2, get?_putAll_ownFields _ _ _ _ he]
  case description =>
    intro htruthy
    rw [get?_embodied (by decide), described, if_pos htruthy, Dict.get?_put_self]
  case bodyless =>
    intro hless
    rw [embodied, if_pos hless, Dict.get?_put_self]
  case body =>
    intro hfull htruthy
    rw [embodied, hfull, if_neg Bool.false_ne_true, if_pos htruthy, Dict.get?_put_self]

/-- What has everything already stays as it is.  Putting in what is there already does not change a
    dictionary, not even in its order. -/
theorem mergeRequest_of_settled {fresh merged : Resource} {h : Json}
    (hs : Settled fresh merged merged h)
    (hh : Persisted.mergeHeaderFields "name" (Dict.get? fresh "headers") (some h) = .ok h) :
    mergeRequest fresh merged = .ok merged := by
  refine mergeRequest_eq_ok_iff.mpr ⟨h, by rw [hs.headers_eq]; exact hh, ?_⟩
  have hdescribed : described fresh merged = merged := by
    rw [described]
    split
    · rename_i htruthy
      rw [Dict.put_eq_self (hs.description htruthy)]
    · rfl
  rw [Dict.putAll_eq_self hs.own, hdescribed, embodied]
  cases hm : isBodyless (chosen "method" fresh merged) with
  | true => rw [if_pos rfl, Dict.put_eq_self (hs.bodyless hm)]
  | false =>
    rw [if_neg Bool.false_ne_true]
    split
    · rename_i htruthy
      rw [Dict.put_eq_self (hs.body hm htruthy)]
    · rfl

/-- A field that was chosen is chosen again. -/
theorem chosen_again {name : String} {fresh existing merged : Resource}
    (h : Dict.get? merged name = some (chosen name fresh existing)) :
    chosen name fresh merged = chosen name fresh existing := by
  rw [chosen, h]
  exact orElse_orElse _ _

/-- Merging the same request once more changes nothing.  The fields that were chosen are chosen
    again, so the first result asks for the same as the persisted request did. -/
theorem mergeRequest_stable {fresh existing merged : Resource} {headers : List Json}
    (hfresh : Dict.get? fresh "headers" = some (.arr headers))
    (h : mergeRequest fresh existing = .ok merged) : mergeRequest fresh merged = .ok merged := by
  obtain ⟨hs, hmerge, hsettled⟩ := settled_of_mergeRequest h
  have hname : chosen "name" fresh merged = chosen "name" fresh existing :=
    chosen_again hsettled.name_eq
  have hmethod : chosen "method" fresh merged = chosen "method" fresh existing :=
    chosen_again hsettled.method_eq
  have hurl : chosen "url" fresh merged = chosen "url" fresh existing :=
    chosen_again hsettled.url_eq
  refine mergeRequest_of_settled (h := hs) ?_ ?_
  · constructor
    · rw [ownFields, hname, hmethod, hurl]
      exact hsettled.own
    · exact hsettled.description
    · rw [hmethod]
      exact hsettled.bodyless
    · rw [hmethod]
      exact hsettled.body
  · rw [hfresh] at hmerge ⊢
    exact Persisted.mergeHeaderFields_stable hmerge

/-- A request with all its parts, and an empty body where none belongs. -/
structure CompleteRequest (r : Resource) : Prop where
  name : ∃ name, Dict.get? r "name" = some name
  method : ∃ method, Dict.get? r "method" = some method ∧
    (isBodyless method = true → Dict.get? r "body" = some (.obj []))
  url : ∃ url, Dict.get? r "url" = some url
  parent : ∃ parent, Dict.get? r "parentId" = some parent
  headers : ∃ headers, Dict.get? r "headers" = some (.arr headers) ∧ DistinctlyNamed "name" headers

/-- Between a request and itself there is nothing to choose. -/
theorem chosen_self {name : String} {r : Resource} {value : Json}
    (h : Dict.get? r name = some value) : chosen name r r = value := by
  rw [chosen, h, orElse_self]

/-- A field that is not empty is there. -/
theorem get?_of_truthy_fieldOrNull {r : Resource} {name : String}
    (h : (fieldOrNull r name).truthy = true) : Dict.get? r name = some (fieldOrNull r name) := by
  rw [fieldOrNull] at h ⊢
  cases hv : Dict.get? r name with
  | some value => rfl
  | none => rw [hv] at h; exact absurd h (by decide)

/-- A complete request merged with itself is the same.  All fields that a merge reads are there and
    of the right kind, which is what complete means. -/
theorem mergeRequest_self {r : Resource} (h : CompleteRequest r) : mergeRequest r r = .ok r := by
  obtain ⟨name, hname⟩ := h.name
  obtain ⟨method, hmethod, hbody⟩ := h.method
  obtain ⟨url, hurl⟩ := h.url
  obtain ⟨parent, hparent⟩ := h.parent
  obtain ⟨headers, hheaders, hnamed⟩ := h.headers
  refine mergeRequest_of_settled (h := .arr headers) ?_ ?_
  · constructor
    · intro e he
      -- every field that is set has the value that it had
      rw [ownFields, chosen_self hname, chosen_self hmethod, chosen_self hurl,
        fieldOrNull_of_get? hparent] at he
      rcases List.mem_cons.mp he with rfl | he
      · exact hname
      · rcases List.mem_cons.mp he with rfl | he
        · exact hmethod
        · rcases List.mem_cons.mp he with rfl | he
          · exact hurl
          · rcases List.mem_cons.mp he with rfl | he
            · exact hparent
            · obtain rfl := List.mem_singleton.mp he
              exact hheaders
    · exact get?_of_truthy_fieldOrNull
    · rw [chosen_self hmethod]
      exact hbody
    · exact fun _ => get?_of_truthy_fieldOrNull
  · rw [hheaders]
    exact Persisted.mergeHeaderFields_self hnamed

/-- The identifier of the fresh request does not count. -/
theorem mergeRequest_congr {f g : Resource}
    (h : ∀ name, name ≠ "_id" → Dict.get? f name = Dict.get? g name) (existing : Resource) :
    mergeRequest f existing = mergeRequest g existing := by
  rw [mergeRequest, mergeRequest, fieldOrNull, fieldOrNull, fieldOrNull, fieldOrNull, fieldOrNull,
    fieldOrNull, h "method" (by decide), h "headers" (by decide), h "name" (by decide),
    h "url" (by decide), h "parentId" (by decide), h "description" (by decide), h "body" (by decide)]

/-- All other fields are those of the persisted request.  The seven names are all that the three
    layers write. -/
theorem get?_mergeRequest {fresh existing merged : Resource} {name : String}
    (h : mergeRequest fresh existing = .ok merged)
    (hname : name ∉ (["name", "method", "url", "parentId", "headers", "description", "body"] :
      List String)) : Dict.get? merged name = Dict.get? existing name := by
  obtain ⟨headers, -, rfl⟩ := mergeRequest_eq_ok_iff.mp h
  have hbody : name ≠ "body" := by
    rintro rfl
    exact hname (by decide)
  have hdescription : name ≠ "description" := by
    rintro rfl
    exact hname (by decide)
  have hown : Dict.get? (ownFields fresh existing headers).reverse name = none := by
    refine Dict.get?_eq_none_iff.mpr fun hmem => hname ?_
    have hkeys : Dict.keys (ownFields fresh existing headers).reverse
      = ["headers", "parentId", "url", "method", "name"] := rfl
    rw [hkeys] at hmem
    revert hmem
    simp only [List.mem_cons, List.not_mem_nil]
    tauto
  rw [get?_embodied hbody, get?_described hdescription, Dict.get?_putAll, hown]
  rfl

/-- A request with a key: two texts. -/
theorem key?_eq_some_iff {r : Resource} {key : String} : key? r = .ok (some key) ↔
    ∃ method url, Dict.get? r "method" = some (.str method) ∧ method ≠ "" ∧
      Dict.get? r "url" = some (.str url) ∧ key = Persisted.keyOf method url := by
  have hfield : ∀ {name text : String},
      fieldOrNull r name = .str text ↔ Dict.get? r name = some (.str text) := by
    intro name text
    rw [fieldOrNull]
    cases Dict.get? r name with
    | none => exact ⟨fun h => absurd h (by simp), fun h => absurd h (by simp)⟩
    | some value => exact ⟨fun h => congrArg some h, fun h => Option.some.inj h⟩
  rw [key?, persistedKey?_eq_some_iff]
  simp only [hfield]

/-- **A merged request has the key of the fresh one**, whose URL is not empty. -/
theorem key?_mergeRequest {fresh existing merged : Resource} {method url : String}
    (h : mergeRequest fresh existing = .ok merged)
    (hmethod : Dict.get? fresh "method" = some (.str method)) (hm : method ≠ "")
    (hurl : Dict.get? fresh "url" = some (.str url)) (hu : url ≠ "") : key? merged = key? fresh := by
  obtain ⟨headers, -, hsettled⟩ := settled_of_mergeRequest h
  have hmethod' : chosen "method" fresh existing = .str method := by
    have ht : (Json.str method).truthy = true := bne_iff_ne.mpr hm
    rw [chosen, hmethod, orElse_of_truthy ht]
  have hurl' : chosen "url" fresh existing = .str url := by
    have ht : (Json.str url).truthy = true := bne_iff_ne.mpr hu
    rw [chosen, hurl, orElse_of_truthy ht]
  rw [key?, key?, fieldOrNull_of_get? hsettled.method_eq, fieldOrNull_of_get? hsettled.url_eq, fieldOrNull_of_get? hmethod,
    fieldOrNull_of_get? hurl, hmethod', hurl']

/-! ## Environments

An environment is merged variable by variable.  A fresh variable that is left open gives way to what
was filled in. -/

/-- One fresh variable. -/
def mergeVariable (data : Dict Json) (name : String) (value : Json) : Dict Json :=
  if isOpen value && Dict.has data name then data else Dict.put data name value

/-- What is there of a fresh variable once it was merged. -/
def HasVariable (data : Dict Json) (name : String) (value : Json) : Prop :=
  if isOpen value then (Dict.get? data name).isSome = true else Dict.get? data name = some value

theorem mergeData_cons (name : String) (value : Json) (fresh data : Dict Json) :
    mergeData ((name, value) :: fresh) data = mergeData fresh (mergeVariable data name value) := rfl

/-- A variable that was merged is there. -/
theorem hasVariable_mergeVariable (data : Dict Json) (name : String) (value : Json) :
    HasVariable (mergeVariable data name value) name value := by
  rw [HasVariable, mergeVariable]
  cases isOpen value with
  | false => exact Dict.get?_put_self ..
  | true =>
    rw [if_pos rfl, Bool.true_and]
    split
    · rename_i hhas
      exact hhas
    · rw [Dict.get?_put_self]
      rfl

/-- Merging one variable leaves the others alone. -/
theorem get?_mergeVariable_of_ne {name name' : String} (h : name' ≠ name) (data : Dict Json)
    (value : Json) : Dict.get? (mergeVariable data name value) name' = Dict.get? data name' := by
  rw [mergeVariable]
  split
  · rfl
  · rw [Dict.get?_put_of_ne h]

/-- A variable that is there already is not touched. -/
theorem mergeVariable_eq_self {data : Dict Json} {name : String} {value : Json}
    (h : HasVariable data name value) : mergeVariable data name value = data := by
  rw [HasVariable] at h
  rw [mergeVariable]
  cases ho : isOpen value with
  | false =>
    rw [ho, if_neg Bool.false_ne_true] at h
    rw [Bool.false_and, if_neg Bool.false_ne_true, Dict.put_eq_self h]
  | true =>
    rw [ho, if_pos rfl] at h
    rw [Bool.true_and]
    exact if_pos h

/-- Variables that are there already are not touched. -/
theorem mergeData_eq_self {fresh data : Dict Json} (h : ∀ e ∈ fresh, HasVariable data e.1 e.2) :
    mergeData fresh data = data := by
  induction fresh with
  | nil => rfl
  | cons e fresh ih =>
    rw [mergeData_cons, mergeVariable_eq_self (h e (List.mem_cons_self ..))]
    exact ih fun e' he' => h e' (List.mem_cons_of_mem _ he')

/-- Once merged, all fresh variables are there.  The variables are merged one by one, and a later
    one does not touch the value of another name. -/
theorem hasVariable_mergeData {fresh : Dict Json} (hfresh : (Dict.keys fresh).Nodup)
    (data : Dict Json) : ∀ e ∈ fresh, HasVariable (mergeData fresh data) e.1 e.2 := by
  induction fresh generalizing data with
  | nil => exact fun _ he => absurd he (List.not_mem_nil)
  | cons e fresh ih =>
    obtain ⟨name, value⟩ := e
    obtain ⟨hno, hrest⟩ := List.nodup_cons.mp hfresh
    -- later variables have other names
    have hkeep : ∀ (fresh data : Dict Json), name ∉ Dict.keys fresh →
        Dict.get? (mergeData fresh data) name = Dict.get? data name := by
      intro fresh
      induction fresh with
      | nil => exact fun _ _ => rfl
      | cons e fresh ih =>
        intro data hne
        rw [Dict.keys, List.map_cons, List.mem_cons, not_or] at hne
        rw [mergeData_cons, ih _ hne.2, get?_mergeVariable_of_ne hne.1]
    intro e' he'
    rcases List.mem_cons.mp he' with rfl | he'
    · have hhas := hasVariable_mergeVariable data name value
      rw [mergeData_cons, HasVariable, hkeep fresh _ hno]
      exact hhas
    · exact ih hrest (mergeVariable data name value) e' he'

/-- Environments are merged if the variables of both are objects, and then in this way. -/
theorem mergeEnvironment_eq_ok_iff {fresh existing merged : Resource} :
    mergeEnvironment fresh existing = .ok merged ↔ ∃ old data,
      Persisted.fieldsOf (Json.orElse (Dict.get? existing "data") (some (.obj []))) = .ok old ∧
      variablesOf fresh = .ok data ∧
      merged = Dict.putAll existing [("name", chosen "name" fresh existing),
        ("parentId", fieldOrNull fresh "parentId"), ("data", .obj (mergeData data old))] := by
  rw [mergeEnvironment, bind_eq_ok_iff]
  refine exists_congr fun old => ?_
  constructor
  · rintro ⟨hold, h⟩
    obtain ⟨data, hdata, h⟩ := bind_eq_ok_iff.mp h
    exact ⟨data, hold, hdata, (pure_eq_ok_iff.mp h).symm⟩
  · rintro ⟨data, hold, hdata, rfl⟩
    exact ⟨hold, bind_eq_ok_iff.mpr ⟨data, hdata, rfl⟩⟩

/-- An object is never replaced by the default, not even an empty one. -/
theorem orElse_obj (fields : Dict Json) :
    Json.orElse (some (.obj fields)) (some (.obj [])) = .obj fields := by
  cases fields <;> rfl

/-- An environment that has everything already stays as it is. -/
theorem mergeEnvironment_eq_self {fresh merged : Resource} {data vars : Dict Json}
    (hfresh : variablesOf fresh = .ok vars)
    (hname : Dict.get? merged "name" = some (chosen "name" fresh merged))
    (hparent : Dict.get? merged "parentId" = some (fieldOrNull fresh "parentId"))
    (hdata : Dict.get? merged "data" = some (.obj data))
    (hhas : ∀ e ∈ vars, HasVariable data e.1 e.2) :
    mergeEnvironment fresh merged = .ok merged := by
  refine mergeEnvironment_eq_ok_iff.mpr ⟨data, vars, ?_, hfresh, ?_⟩
  · rw [hdata, orElse_obj]
    rfl
  · rw [mergeData_eq_self hhas]
    refine (Dict.putAll_eq_self fun e he => ?_).symm
    rcases List.mem_cons.mp he with rfl | he
    · exact hname
    · rcases List.mem_cons.mp he with rfl | he
      · exact hparent
      · obtain rfl := List.mem_singleton.mp he
        exact hdata

/-- Merging the same environment once more changes nothing. -/
theorem mergeEnvironment_stable {fresh existing merged : Resource} {vars : Dict Json}
    (hfresh : variablesOf fresh = .ok vars) (hnodup : (Dict.keys vars).Nodup)
    (h : mergeEnvironment fresh existing = .ok merged) :
    mergeEnvironment fresh merged = .ok merged := by
  obtain ⟨old, data, -, hdata, rfl⟩ := mergeEnvironment_eq_ok_iff.mp h
  obtain rfl := Except.ok.inj (hfresh.symm.trans hdata)
  refine mergeEnvironment_eq_self hfresh ?_ ?_ ?_ (hasVariable_mergeData hnodup old)
  · have hname : Dict.get? (Dict.putAll existing [("name", chosen "name" fresh existing),
        ("parentId", fieldOrNull fresh "parentId"), ("data", .obj (mergeData vars old))]) "name"
        = some (chosen "name" fresh existing) := by simp [Dict.get?_put]
    rw [chosen_again hname]
    exact hname
  · simp [Dict.get?_put]
  · simp

/-- An environment merged with itself is the same. -/
theorem mergeEnvironment_self {r : Resource} {name parent : Json} {vars : Dict Json}
    (hname : Dict.get? r "name" = some name) (hparent : Dict.get? r "parentId" = some parent)
    (hdata : Dict.get? r "data" = some (.obj vars)) (hnodup : (Dict.keys vars).Nodup) :
    mergeEnvironment r r = .ok r := by
  have hvariables : variablesOf r = .ok vars := by
    rw [variablesOf, hdata, orElse_obj]
  refine mergeEnvironment_eq_self hvariables ?_ ?_ hdata fun e he => ?_
  · rw [chosen_self hname]
    exact hname
  · rw [fieldOrNull_of_get? hparent]
    exact hparent
  · have hget : Dict.get? vars e.1 = some e.2 := Dict.get?_of_mem hnodup he
    rw [HasVariable, hget]
    split <;> rfl

/-- The identifier of the fresh environment does not count. -/
theorem mergeEnvironment_congr {f g : Resource}
    (h : ∀ name, name ≠ "_id" → Dict.get? f name = Dict.get? g name) (existing : Resource) :
    mergeEnvironment f existing = mergeEnvironment g existing := by
  rw [mergeEnvironment, mergeEnvironment, variablesOf, variablesOf, fieldOrNull, fieldOrNull,
    h "data" (by decide), h "name" (by decide), h "parentId" (by decide)]

/-- All other fields are those of the persisted environment. -/
theorem get?_mergeEnvironment {fresh existing merged : Resource} {name : String}
    (h : mergeEnvironment fresh existing = .ok merged)
    (hname : name ∉ (["name", "parentId", "data"] : List String)) :
    Dict.get? merged name = Dict.get? existing name := by
  obtain ⟨old, data, -, -, rfl⟩ := mergeEnvironment_eq_ok_iff.mp h
  simp only [List.mem_cons, List.not_mem_nil, or_false, not_or] at hname
  obtain ⟨hn, hp, hd⟩ := hname
  rw [Dict.putAll_cons, Dict.putAll_cons, Dict.putAll_cons, Dict.putAll_nil,
    Dict.get?_put_of_ne hd, Dict.get?_put_of_ne hp, Dict.get?_put_of_ne hn]

/-- A merged environment names its parent as the fresh one does. -/
theorem parent_mergeEnvironment {fresh existing merged : Resource}
    (h : mergeEnvironment fresh existing = .ok merged) :
    Dict.get? merged "parentId" = some (fieldOrNull fresh "parentId") := by
  obtain ⟨old, data, -, -, rfl⟩ := mergeEnvironment_eq_ok_iff.mp h
  simp [Dict.get?_put]

end RouteAtlas.Insomnia
