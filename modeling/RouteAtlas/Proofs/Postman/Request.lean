/-
  A fresh request over the persisted one with the same key.

  ==== Program ====

  The synthesis owns the name, the method, the URL, the headers it makes, the description and the
  body; all else is the persisted request's.  `mergeRequest` sets its fields one after the other;
  `mergeRequest_eq_ok_iff` names the two last steps, so that a field is looked up through them once.

  ==== Spec ====

  What matters of this afterwards:

  * the key and a given name are the fresh ones (`key?_mergeLeaf`, `name_mergeLeaf`), and a request
    does not become a folder (`item_mergeLeaf`);
  * merging once more changes nothing (`mergeLeaf_stable`);
  * a request that says all there is to say, and has no body where none belongs, is left as it is
    by merging it into itself (`mergeLeaf_self`).

  ==== The crux ====

  A second merge changes nothing as soon as the request has everything the fresh one asks for.
  `Settled` says what that is, field by field; merging settles a request
  (`settled_of_mergeRequest`), and a settled one is left alone (`mergeRequest_of_settled`).
-/
import RouteAtlas.Proofs.Persisted.Header
import RouteAtlas.Proofs.Postman.Tree

namespace RouteAtlas.Postman

open Persisted (isBodyless bind_eq_ok_iff pure_eq_ok_iff DistinctlyNamed)

theorem orElse_of_truthy {first : Json} (h : first.truthy = true) (second : Option Json) :
    Json.orElse (some first) second = first := if_pos h

/-- Choosing again between the first value and what was chosen. -/
theorem orElse_orElse (first second : Option Json) :
    Json.orElse first (some (Json.orElse first second)) = Json.orElse first second := by
  cases first with
  | none => rfl
  | some j =>
    by_cases h : j.truthy = true
    · rw [orElse_of_truthy h, orElse_of_truthy h]
    · rw [Json.orElse, if_neg h]
      rfl

/-- Between a value and itself there is nothing to choose. -/
theorem orElse_self (value : Json) : Json.orElse (some value) (some value) = value := by
  rw [Json.orElse, Option.getD_some, ite_self]

/-! ## The fields of a request

A merged request is the persisted one with method, URL and headers put over it, and then the
description and the body.  `Settled` says what makes a second merge do nothing. -/

/-- A request with the description of the fresh one, if it has any. -/
def described (fresh merged : Dict Json) : Dict Json :=
  match Dict.get? fresh "description" with
  | some text => if text.truthy then Dict.put merged "description" text else merged
  | none => merged

/-- A request with the body of the fresh one, and without any if none belongs there. -/
def embodied (method : Json) (fresh merged : Dict Json) : Dict Json :=
  if isBodyless method then Dict.erase merged "body"
  else match Dict.get? fresh "body" with
    | some body => Dict.put merged "body" body
    | none => merged

/-- Only the description changes with the description. -/
theorem get?_described {name : String} (h : name ≠ "description") (fresh merged : Dict Json) :
    Dict.get? (described fresh merged) name = Dict.get? merged name := by
  rw [described]
  split
  · split
    · rw [Dict.get?_put_of_ne h]
    · rfl
  · rfl

/-- Only the body changes with the body. -/
theorem get?_embodied {name : String} (h : name ≠ "body") (method : Json) (fresh merged : Dict Json) :
    Dict.get? (embodied method fresh merged) name = Dict.get? merged name := by
  rw [embodied]
  split
  · rw [Dict.get?_erase_of_ne h]
  · split
    · rw [Dict.get?_put_of_ne h]
    · rfl

/-- A request that has the description already stays as it is. -/
theorem described_eq_self {fresh merged : Dict Json} (h : ∀ text,
    Dict.get? fresh "description" = some text → text.truthy = true →
      Dict.get? merged "description" = some text) : described fresh merged = merged := by
  rw [described]
  split
  · rename_i text htext
    split
    · rename_i htruthy
      rw [Dict.put_eq_self (h text htext htruthy)]
    · rfl
  · rfl

theorem embodied_eq_self {method : Json} {fresh merged : Dict Json}
    (hless : isBodyless method = true → Dict.get? merged "body" = none)
    (hbody : isBodyless method = false → ∀ body, Dict.get? fresh "body" = some body →
      Dict.get? merged "body" = some body) : embodied method fresh merged = merged := by
  rw [embodied]
  cases hm : isBodyless method with
  | true => exact Dict.erase_eq_self (hless hm)
  | false =>
    show (match Dict.get? fresh "body" with
      | some body => Dict.put merged "body" body
      | none => merged) = merged
    split
    · rename_i body hb
      rw [Dict.put_eq_self (hbody hm body hb)]
    · rfl

/-- The method of a merged request. -/
def mergedMethod (fresh existing : Dict Json) : Json :=
  Json.orElse (Dict.get? fresh "method") (Dict.get? existing "method")

/-- The URL of a merged request. -/
def mergedUrl (fresh existing : Dict Json) : Json :=
  ((Dict.get? fresh "url") <|> (Dict.get? existing "url")).getD .null

/-- Requests are merged if their headers can be, and then in this way. -/
theorem mergeRequest_eq_ok_iff {fresh existing merged : Dict Json} :
    mergeRequest fresh existing = .ok merged ↔ ∃ headers,
      Persisted.mergeHeaderFields "key" (Dict.get? fresh "header") (Dict.get? existing "header")
        = .ok headers ∧
      merged = embodied (mergedMethod fresh existing) fresh (described fresh (Dict.putAll existing
        [("method", mergedMethod fresh existing), ("url", mergedUrl fresh existing),
          ("header", headers)])) := by
  rw [mergeRequest, bind_eq_ok_iff]
  exact exists_congr fun headers => and_congr_right fun _ => pure_eq_ok_iff.trans eq_comm

/-- A request that has everything the fresh one asks for. -/
structure Settled (fresh merged : Dict Json) (method url headers : Json) : Prop where
  method_eq : Dict.get? merged "method" = some method
  url_eq : Dict.get? merged "url" = some url
  header_eq : Dict.get? merged "header" = some headers
  description : ∀ text, Dict.get? fresh "description" = some text → text.truthy = true →
    Dict.get? merged "description" = some text
  bodyless : isBodyless method = true → Dict.get? merged "body" = none
  body : isBodyless method = false → ∀ body, Dict.get? fresh "body" = some body →
    Dict.get? merged "body" = some body

/-- **A merged request has everything the fresh one asks for.** Method, URL and headers are written
    before the description and the body, and neither of these touches them. -/
theorem settled_of_mergeRequest {fresh existing merged : Dict Json}
    (h : mergeRequest fresh existing = .ok merged) : ∃ headers,
      Persisted.mergeHeaderFields "key" (Dict.get? fresh "header") (Dict.get? existing "header")
        = .ok headers ∧
      Settled fresh merged (mergedMethod fresh existing) (mergedUrl fresh existing) headers := by
  obtain ⟨headers, hheaders, rfl⟩ := mergeRequest_eq_ok_iff.mp h
  refine ⟨headers, hheaders, ?_⟩
  constructor
  case method_eq =>
    rw [get?_embodied (by decide), get?_described (by decide)]
    simp [Dict.get?_put]
  case url_eq =>
    rw [get?_embodied (by decide), get?_described (by decide)]
    simp [Dict.get?_put]
  case header_eq =>
    rw [get?_embodied (by decide), get?_described (by decide)]
    simp
  case description =>
    intro text htext htruthy
    rw [get?_embodied (by decide), described, htext]
    show Dict.get? (if text.truthy then _ else _) "description" = _
    rw [if_pos htruthy, Dict.get?_put_self]
  case bodyless =>
    intro hless
    rw [embodied, if_pos hless, Dict.get?_erase_self]
  case body =>
    intro hfull body hbody
    rw [embodied, hfull, hbody]
    exact Dict.get?_put_self ..

/-- What has everything already stays as it is. -/
theorem mergeRequest_of_settled {fresh merged : Dict Json} {h : Json}
    (hs : Settled fresh merged (mergedMethod fresh merged) (mergedUrl fresh merged) h)
    (hh : Persisted.mergeHeaderFields "key" (Dict.get? fresh "header") (some h) = .ok h) :
    mergeRequest fresh merged = .ok merged := by
  refine mergeRequest_eq_ok_iff.mpr ⟨h, by rw [hs.header_eq]; exact hh, ?_⟩
  have hput : Dict.putAll merged [("method", mergedMethod fresh merged),
      ("url", mergedUrl fresh merged), ("header", h)] = merged := by
    refine Dict.putAll_eq_self fun e he => ?_
    rcases List.mem_cons.mp he with rfl | he
    · exact hs.method_eq
    · rcases List.mem_cons.mp he with rfl | he
      · exact hs.url_eq
      · obtain rfl := List.mem_singleton.mp he
        exact hs.header_eq
  rw [hput, described_eq_self hs.description, embodied_eq_self hs.bodyless hs.body]

/-- Merging the same request once more changes nothing. -/
theorem mergeRequest_stable {fresh existing merged : Dict Json} {headers : List Json}
    (hfresh : Dict.get? fresh "header" = some (.arr headers))
    (h : mergeRequest fresh existing = .ok merged) : mergeRequest fresh merged = .ok merged := by
  obtain ⟨hs, hmerge, hsettled⟩ := settled_of_mergeRequest h
  have hmethod : mergedMethod fresh merged = mergedMethod fresh existing := by
    rw [mergedMethod, hsettled.method_eq]
    exact orElse_orElse _ _
  have hurl : mergedUrl fresh merged = mergedUrl fresh existing := by
    rw [mergedUrl, hsettled.url_eq, mergedUrl]
    cases Dict.get? fresh "url" <;> rfl
  rw [hfresh] at hmerge
  refine mergeRequest_of_settled (h := hs) ?_ ?_
  · rw [hmethod, hurl]
    exact hsettled
  · rw [hfresh]
    exact Persisted.mergeHeaderFields_stable hmerge

/-- A request with all its parts, and no body where none belongs. -/
structure CompleteRequest (request : Dict Json) : Prop where
  method : ∃ method, Dict.get? request "method" = some method ∧
    (isBodyless method = true → Dict.get? request "body" = none)
  url : ∃ url, Dict.get? request "url" = some url
  headers : ∃ headers, Dict.get? request "header" = some (.arr headers) ∧
    DistinctlyNamed "key" headers

/-- A complete request merged with itself is the same. -/
theorem mergeRequest_self {request : Dict Json} (h : CompleteRequest request) :
    mergeRequest request request = .ok request := by
  obtain ⟨method, hmethod, hbody⟩ := h.method
  obtain ⟨url, hurl⟩ := h.url
  obtain ⟨headers, hheader, hnamed⟩ := h.headers
  have hm : mergedMethod request request = method := by
    rw [mergedMethod, hmethod]
    exact orElse_self method
  have hu : mergedUrl request request = url := by
    rw [mergedUrl, hurl]
    rfl
  refine mergeRequest_of_settled (h := .arr headers) ?_ ?_
  · rw [hm, hu]
    exact ⟨hmethod, hurl, hheader, fun _ ht _ => ht, hbody, fun _ _ hb => hb⟩
  · rw [hheader]
    exact Persisted.mergeHeaderFields_self hnamed

/-! ## The fields of an item

An item is a request with a name and saved responses.  Responses are kept if there are any. -/

/-- An item with the saved responses of the fresh one, if it has none. -/
def responded (fresh merged : Dict Json) : Dict Json :=
  match Dict.get? fresh "response" with
  | some response =>
    if ((Dict.get? merged "response").getD .null).truthy then merged
    else Dict.put merged "response" response
  | none => merged

/-- Only the responses change with the responses. -/
theorem get?_responded {name : String} (h : name ≠ "response") (fresh merged : Dict Json) :
    Dict.get? (responded fresh merged) name = Dict.get? merged name := by
  rw [responded]
  split
  · split
    · rfl
    · rw [Dict.get?_put_of_ne h]
  · rfl

/-- Responses that are there, or are the fresh ones, stay. -/
theorem responded_eq_self {fresh merged : Dict Json} (h : ∀ response,
    Dict.get? fresh "response" = some response →
      ((Dict.get? merged "response").getD .null).truthy = false →
        Dict.get? merged "response" = some response) : responded fresh merged = merged := by
  rw [responded]
  split
  · rename_i response hr
    cases ht : ((Dict.get? merged "response").getD .null).truthy with
    | true => rfl
    | false => exact Dict.put_eq_self (h response hr ht)
  · rfl

/-- Responses are taken over once. -/
theorem responded_responded (fresh merged : Dict Json) :
    responded fresh (responded fresh merged) = responded fresh merged := by
  refine responded_eq_self fun response hr ht => ?_
  rw [responded, hr] at ht ⊢
  cases hm : ((Dict.get? merged "response").getD .null).truthy with
  | true =>
    rw [hm] at ht
    exact absurd (hm.symm.trans ht) (by decide)
  | false => exact Dict.get?_put_self ..

/-- The name of a merged item. -/
def mergedName (fresh existing : Dict Json) : Json :=
  Json.orElse (Dict.get? fresh "name") (Dict.get? existing "name")

/-- Items are merged if their requests can be, and then in this way. -/
theorem mergeLeaf_eq_ok_iff {fresh existing merged : Dict Json} :
    mergeLeaf fresh existing = .ok merged ↔ ∃ request,
      mergeRequest (Item.requestOf fresh) (Item.requestOf existing) = .ok request ∧
      merged = responded fresh (Dict.putAll existing
        [("name", mergedName fresh existing), ("request", .obj request)]) := by
  rw [mergeLeaf, bind_eq_ok_iff]
  exact exists_congr fun request => and_congr_right fun _ => pure_eq_ok_iff.trans eq_comm

section

variable {fresh existing merged : Dict Json} (h : mergeLeaf fresh existing = .ok merged)
include h

/-- A merged item has the fresh name, unless the fresh item has none. -/
theorem name_mergeLeaf : Dict.get? merged "name" = some (mergedName fresh existing) := by
  obtain ⟨request, -, rfl⟩ := mergeLeaf_eq_ok_iff.mp h
  rw [get?_responded (by decide)]
  simp [Dict.get?_put]

/-- The request of a merged item is the merged request. -/
theorem request_mergeLeaf : ∃ request, Dict.get? merged "request" = some (.obj request) ∧
    mergeRequest (Item.requestOf fresh) (Item.requestOf existing) = .ok request := by
  obtain ⟨request, hr, rfl⟩ := mergeLeaf_eq_ok_iff.mp h
  refine ⟨request, ?_, hr⟩
  rw [get?_responded (by decide)]
  simp

/-- A request that is merged does not become a folder. -/
theorem item_mergeLeaf : Dict.get? merged "item" = Dict.get? existing "item" := by
  obtain ⟨request, -, rfl⟩ := mergeLeaf_eq_ok_iff.mp h
  rw [get?_responded (by decide)]
  simp [Dict.get?_put]

/-- Merging the same item once more changes nothing. -/
theorem mergeLeaf_stable {headers : List Json}
    (hfresh : Dict.get? (Item.requestOf fresh) "header" = some (.arr headers)) :
    mergeLeaf fresh merged = .ok merged := by
  have hname := name_mergeLeaf h
  obtain ⟨request, hrequest, hmerge⟩ := request_mergeLeaf h
  have hof : Item.requestOf merged = request := by rw [Item.requestOf, hrequest]
  refine mergeLeaf_eq_ok_iff.mpr ⟨request, ?_, ?_⟩
  · rw [hof]
    exact mergeRequest_stable hfresh hmerge
  · have hput : Dict.putAll merged
        [("name", mergedName fresh merged), ("request", .obj request)] = merged := by
      refine Dict.putAll_eq_self fun e he => ?_
      rcases List.mem_cons.mp he with rfl | he
      · show Dict.get? merged "name" = some (mergedName fresh merged)
        rw [mergedName, hname, mergedName, orElse_orElse]
      · obtain rfl := List.mem_singleton.mp he
        exact hrequest
    obtain ⟨_, -, heq⟩ := mergeLeaf_eq_ok_iff.mp h
    rw [hput, heq, responded_responded]

end

/-! ## Keys

A key is read off the request alone, so it survives whatever else is changed. -/

/-- A key is made of two texts, and the method is not empty.  An empty method gives no key, and a
    method or a URL that is no text gives an error. -/
theorem persistedKey?_eq_some_iff {method url : Json} {key : String} :
    Persisted.key? method url = .ok (some key) ↔ ∃ m u, method = .str m ∧ m ≠ "" ∧
      url = .str u ∧ key = Persisted.keyOf m u := by
  constructor
  · intro h
    rw [Persisted.key?.eq_def] at h
    cases ht : method.truthy with
    | false => rw [ht] at h; exact absurd h (by simp)
    | true =>
      rw [ht, if_neg (by decide)] at h
      cases url with
      | str u =>
        cases method with
        | str m =>
          refine ⟨m, u, rfl, ?_, rfl, (Option.some.inj (Except.ok.inj h)).symm⟩
          rintro rfl
          exact absurd ht (by decide)
        | _ => exact absurd h (by simp)
      | _ => exact absurd h (by simp)
  · rintro ⟨m, u, rfl, hm, rfl, rfl⟩
    have ht : (Json.str m).truthy = true := bne_iff_ne.mpr hm
    rw [Persisted.key?.eq_def, ht]
    rfl

/-- What makes the key of an item: its request with a method and a URL.  A method that is missing
    counts as empty, and a URL that is missing as no text. -/
theorem key?_eq_some {fields : Dict Json} {key : String} (h : Item.key? fields = .ok (some key)) :
    ∃ request method url u, Dict.get? fields "request" = some (.obj request) ∧
      Dict.get? request "method" = some (.str method) ∧ method ≠ "" ∧
      Dict.get? request "url" = some url ∧ Item.urlOf request = .str u ∧
      key = Persisted.keyOf method u := by
  rw [Item.key?] at h
  split at h
  · rename_i request hr
    obtain ⟨method, u, hmethod, hne, hu, hk⟩ := persistedKey?_eq_some_iff.mp h
    have hm : Dict.get? request "method" = some (.str method) := by
      cases hm : Dict.get? request "method" with
      | some m => rw [hm] at hmethod; exact congrArg some hmethod
      | none => rw [hm] at hmethod; exact absurd hmethod (by simp)
    have hurl : ∃ url, Dict.get? request "url" = some url := by
      cases hurl : Dict.get? request "url" with
      | some url => exact ⟨url, rfl⟩
      | none =>
        have hnull : Item.urlOf request = .null := by
          rw [Item.urlOf, hurl]
          rfl
        exact absurd (hnull.symm.trans hu) (by simp)
    obtain ⟨url, hurl⟩ := hurl
    exact ⟨request, method, url, u, hr, hm, hne, hurl, hu, hk⟩
  · exact absurd h (by simp)

/-- The URL is read off one field of the request. -/
theorem urlOf_congr {r s : Dict Json} (h : Dict.get? r "url" = Dict.get? s "url") :
    Item.urlOf r = Item.urlOf s := by
  rw [Item.urlOf, h, Item.urlOf]

/-- The key is read off the request. -/
theorem key?_congr {f g : Dict Json} (h : Dict.get? f "request" = Dict.get? g "request") :
    Item.key? f = Item.key? g := by
  rw [Item.key?, h, Item.key?]

/-- A new name changes no key. -/
theorem key?_put_name (fields : Dict Json) (name : Json) :
    Item.key? (Dict.put fields "name" name) = Item.key? fields :=
  key?_congr (Dict.get?_put_of_ne (by decide) ..)

/-- **A merged request has the key of the fresh one.** -/
theorem key?_mergeLeaf {fresh existing merged : Dict Json} {key : String}
    (h : mergeLeaf fresh existing = .ok merged) (hkey : Item.key? fresh = .ok (some key)) :
    Item.key? merged = .ok (some key) := by
  obtain ⟨request, method, url, u, hrequest, hmethod, hne, hurl, hu, rfl⟩ := key?_eq_some hkey
  obtain ⟨request', hrequest', hmerge⟩ := request_mergeLeaf h
  have hof : Item.requestOf fresh = request := by rw [Item.requestOf, hrequest]
  rw [hof] at hmerge
  obtain ⟨headers, -, hsettled⟩ := settled_of_mergeRequest hmerge
  have htruthy : (Json.str method).truthy = true := bne_iff_ne.mpr hne
  have hm' : mergedMethod request (Item.requestOf existing) = .str method := by
    rw [mergedMethod, hmethod, orElse_of_truthy htruthy]
  have hu' : mergedUrl request (Item.requestOf existing) = url := by
    rw [mergedUrl, hurl]
    rfl
  rw [hm', hu'] at hsettled
  rw [Item.key?, hrequest']
  show Persisted.key? ((Dict.get? request' "method").getD .null) (Item.urlOf request') = _
  rw [hsettled.method_eq, urlOf_congr (hsettled.url_eq.trans hurl.symm), hu]
  exact persistedKey?_eq_some_iff.mpr ⟨method, u, rfl, hne, rfl, rfl⟩

/-! ## An item merged into itself

A complete item has all that a merge would add. -/

/-- An item with a name and a complete request. -/
structure CompleteItem (fields : Dict Json) : Prop where
  name : ∃ name, Dict.get? fields "name" = some name
  request : ∃ request, Dict.get? fields "request" = some (.obj request) ∧ CompleteRequest request

/-- A complete item has a list of headers. -/
theorem CompleteItem.header {fields : Dict Json} (h : CompleteItem fields) :
    ∃ headers, Dict.get? (Item.requestOf fields) "header" = some (.arr headers) := by
  obtain ⟨request, hrequest, hc⟩ := h.request
  obtain ⟨headers, hheaders, -⟩ := hc.headers
  exact ⟨headers, by rw [Item.requestOf, hrequest]; exact hheaders⟩

/-- A complete item merged with itself is the same. -/
theorem mergeLeaf_self {fields : Dict Json} (h : CompleteItem fields) :
    mergeLeaf fields fields = .ok fields := by
  obtain ⟨name, hname⟩ := h.name
  obtain ⟨request, hrequest, hcomplete⟩ := h.request
  have hof : Item.requestOf fields = request := by rw [Item.requestOf, hrequest]
  refine mergeLeaf_eq_ok_iff.mpr ⟨request, by rw [hof]; exact mergeRequest_self hcomplete, ?_⟩
  have hput : Dict.putAll fields
      [("name", mergedName fields fields), ("request", .obj request)] = fields := by
    refine Dict.putAll_eq_self fun e he => ?_
    rcases List.mem_cons.mp he with rfl | he
    · show Dict.get? fields "name" = some (mergedName fields fields)
      rw [mergedName, hname, orElse_self]
    · obtain rfl := List.mem_singleton.mp he
      exact hrequest
  rw [hput, responded_eq_self fun _ hr _ => hr]

end RouteAtlas.Postman
