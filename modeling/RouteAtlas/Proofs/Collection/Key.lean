/-
  The key of a request is its endpoint's.

  ==== Problem ====

  Merging finds the request of an endpoint by its key.  The formats write the endpoint's path in
  notations of their own, behind a variable for the base URL and in front of a query; merging takes
  the URL apart and displays what is left.  What was written must be found again, and so must what a
  user has written for the same path.

  ==== Program ====

  1. **URLs** - the path comes out of a URL as it was put in (`Persisted.urlPathChars_base`), so the
     request has the key of its path (`keyOf_base`).

  2. **Formats** - both rewrite the path, and what is rewritten has the same key (`keyOf_rewrite`).

  Empty segments are allowed: they are dropped when a path is displayed, and a URL may have them.
-/
import RouteAtlas.Proofs.Insomnia.Resync
import RouteAtlas.Proofs.Persisted.Base
import RouteAtlas.Proofs.Postman.Synthesis

namespace RouteAtlas.Collection

open Persisted (IsBase InUrl keyOf)
open Route (Piece IsRow Spelling slashed charsOf)

/-- The path that is made of the given segments, empty ones included. -/
def slashedPath (segments : List (List Piece)) : String := String.ofList (charsOf (slashed segments))

/-- The segments of a URL's path. -/
structure UrlRows (segments : List (List Piece)) : Prop where
  rows : ∀ ps ∈ segments, IsRow ps
  inUrl : ∀ ps ∈ segments, ∀ p ∈ ps, InUrl p

instance (segments : List (List Piece)) : Decidable (UrlRows segments) :=
  decidable_of_iff ((∀ ps ∈ segments, IsRow ps) ∧ ∀ ps ∈ segments, ∀ p ∈ ps, InUrl p)
    ⟨fun h => ⟨h.1, h.2⟩, fun h => ⟨h.rows, h.inUrl⟩⟩

/-- A path of segments begins with a slash, if there are any. -/
theorem head?_slashed (segments : List (List Piece)) :
    ∀ c ∈ (charsOf (slashed segments)).head?, c = '/' := by
  cases segments with
  | nil => exact fun c hc => absurd hc (by simp [slashed])
  | cons ps segments => exact fun c hc => (Option.some.inj hc).symm

section

variable {segments : List (List Piece)} (h : UrlRows segments)
include h

/-- **The key of a URL is the key of its path.** -/
theorem keyOf_base {base suffix url : String} (hbase : IsBase base.toList)
    (hsuffix : ∀ c ∈ suffix.toList.head?, c = '?' ∨ c = '#')
    (hurl : url = base ++ slashedPath segments ++ suffix) (method : String) :
    keyOf method url = Route.key method (slashedPath segments) := by
  have hinUrl : ∀ p ∈ slashed segments, InUrl p := by
    intro p hp
    obtain ⟨ps, hps, hp⟩ := List.mem_flatMap.mp hp
    rcases List.mem_cons.mp hp with rfl | hp
    · decide
    · exact h.inUrl ps hps p hp
  have hlegible := (Route.legible_slashed fun ps hps => (h.rows ps hps).legible).1
  have hpath := Persisted.urlPathChars_base hbase hlegible hinUrl (head?_slashed segments) hsuffix
  have hchars : url.toList = base.toList ++ (charsOf (slashed segments) ++ suffix.toList) := by
    rw [hurl, String.toList_append, String.toList_append, slashedPath, String.toList_ofList,
      List.append_assoc]
  rw [keyOf, Persisted.urlPath, hchars, hpath, slashedPath]

/-- **A rewritten path** is one of the same kind, with the same key.

    Its rows are those of the written path without the empty ones, each respelled; the root alone
    keeps one empty row.  The key reads the path in single braces only, and writing it so forgets
    the spelling it had. -/
theorem exists_rewrite (s : Spelling) : ∃ others, UrlRows others ∧
    s.rewrite (slashedPath segments) = slashedPath others ∧
    ∀ method, Route.key method (slashedPath others) = Route.key method (slashedPath segments) := by
  have hrewrite := Route.rewrite_slashed h.rows
  have hrows : ∀ ps ∈ Route.spelled s (Route.solid segments), IsRow ps ∧ charsOf ps ≠ [] ∧
      ∀ p ∈ ps, InUrl p := by
    intro ps hps
    obtain ⟨qs, hqs, rfl⟩ := List.mem_map.mp hps
    have hmem := (List.mem_filter.mp hqs).1
    refine ⟨Route.isRow_respell.mpr (h.rows qs hmem), fun hnil =>
      Route.ne_nil_of_mem_solid hqs (Route.charsOf_respell_eq_nil.mp hnil), fun p hp => ?_⟩
    obtain ⟨q, hq, rfl⟩ := List.mem_map.mp hp
    have hurl := h.inUrl qs hmem q hq
    cases q <;> exact hurl
  -- the root is a slash with an empty segment behind it
  have hothers : ∃ others, UrlRows others ∧
      Route.pathOf (Route.spelled s (Route.solid segments)) = slashedPath others := by
    cases hspelled : Route.spelled s (Route.solid segments) with
    | nil => exact ⟨[[]], by decide, rfl⟩
    | cons ps rows =>
      rw [hspelled] at hrows
      refine ⟨ps :: rows, ⟨fun qs hqs => (hrows qs hqs).1, fun qs hqs => (hrows qs hqs).2.2⟩, ?_⟩
      rw [Route.pathOf, ← Route.charsOf_rowOf]
      rfl
  obtain ⟨others, hkind, hpath⟩ := hothers
  refine ⟨others, hkind, (hrewrite s).trans hpath, fun method => ?_⟩
  have hdisplay : Route.display (slashedPath others) = Route.display (slashedPath segments) := by
    have hagain := Route.rewrite_pathOf (fun ps hps => (hrows ps hps).1)
      (fun ps hps => (hrows ps hps).2.1) .single
    rw [Route.spelled_spelled] at hagain
    rw [← hpath]
    exact hagain.trans (hrewrite .single).symm
  rw [Route.key, Route.key, hdisplay]

/-- The key of a URL with a rewritten path is that of the path. -/
theorem keyOf_rewrite {base suffix url : String} (hbase : IsBase base.toList)
    (hsuffix : ∀ c ∈ suffix.toList.head?, c = '?' ∨ c = '#') (s : Spelling)
    (hurl : url = base ++ s.rewrite (slashedPath segments) ++ suffix) (method : String) :
    keyOf method url = Route.key method (slashedPath segments) := by
  obtain ⟨others, hothers, hrewrite, hkey⟩ := exists_rewrite h s
  rw [hrewrite] at hurl
  rw [keyOf_base hothers hbase hsuffix hurl, hkey]

end

/-! ## The formats

Both formats write a reference to a base variable in front of the rewritten path, which is one of
the bases that a key drops. -/

/-- The reference of a collection is a base, if its name is one of a base variable. -/
theorem isBase_reference {name : String} (h : Persisted.IsBaseName name.toList) :
    IsBase (Example.reference name).toList := by
  have hnone : ∀ c ∈ ([] : List Char), Text.isBlank c = true := fun _ hc => absurd hc (List.not_mem_nil)
  rw [Postman.toList_reference]
  exact .variable (Persisted.IsVariable.mk hnone (.inl rfl) h hnone)

theorem isBase_spacedReference {name : String} (h : Persisted.IsBaseName name.toList) :
    IsBase (Insomnia.reference name).toList := by
  have hblank : ∀ c ∈ [' '], Text.isBlank c = true := by decide
  rw [Insomnia.toList_reference]
  exact .variable (Persisted.IsVariable.mk hblank (.inr rfl) h hblank)

/-- **The key of a request is its endpoint's.**  Whatever stands in front of a path as its base and
    behind it as a query or a fragment, the request has the key of the path; and the requests that
    both formats make of an endpoint have the endpoint's key. -/
theorem request_key_eq_endpoint_key {segments : List (List Piece)} (h : UrlRows segments) :
    (∀ method base suffix : String, method ≠ "" → IsBase base.toList →
      (∀ c ∈ suffix.toList.head?, c = '?' ∨ c = '#') →
      Persisted.key? (.str method) (.str (base ++ slashedPath segments ++ suffix))
        = .ok (some (Route.key method (slashedPath segments)))) ∧
    ∀ e : Endpoint, e.path = slashedPath segments → ∀ apps,
      Postman.Item.key? (Postman.itemOf apps e) = .ok (some e.key) ∧
      ∀ parent, Insomnia.key? (Insomnia.requestOf apps parent e) = .ok (some e.key) := by
  refine ⟨fun method base suffix hmethod hbase hsuffix => ?_, fun e hpath apps => ⟨?_, fun parent => ?_⟩⟩
  · have hkey := keyOf_base h hbase hsuffix rfl method
    exact Postman.persistedKey?_eq_some_iff.mpr ⟨method, _, rfl, hmethod, rfl, hkey.symm⟩
  · have hsuffix : ∀ c ∈ (Postman.queryText (Example.queryEntries e.parameters.query)).toList.head?,
        c = '?' ∨ c = '#' := by
      intro c hc
      rcases Postman.queryText_cases (Example.queryEntries e.parameters.query) with hnil | ⟨tail, hcons⟩
      · rw [hnil] at hc
        exact absurd hc (by simp)
      · rw [hcons] at hc
        exact .inl (Option.some.inj hc).symm
    have hkey : Postman.requestKey apps e = Route.key e.method.word (slashedPath segments) :=
      keyOf_rewrite h (isBase_reference (Folder.isBaseName_baseVariable e apps)) hsuffix .double
        (by rw [← hpath]; rfl) e.method.word
    rw [Postman.key?_itemOf, hkey, Endpoint.key, hpath]
  · have hsuffix : ∀ c ∈ "".toList.head?, c = '?' ∨ c = '#' :=
      fun c hc => absurd hc (Option.not_mem_none c)
    have hkey : Insomnia.requestKey apps e = Route.key e.method.word (slashedPath segments) :=
      keyOf_rewrite h (isBase_spacedReference (Folder.isBaseName_baseVariable e apps)) hsuffix .colon
        (by rw [← hpath, String.append_empty]; rfl) e.method.word
    rw [Insomnia.key?_requestOf, hkey, Endpoint.key, hpath]

/-- A placeholder next to a text, another notation right behind it, and an empty segment. -/
def orderRows : List (List Piece) :=
  [["orders".toList].map .text,
    [.hole .double "id".toList, .text "-v".toList, .hole .colon "x".toList], []]

/-- A path with every kind of segment, behind a host with a port and behind a variable.  The query
    holds a base variable and a slash, both of which a key has to leave out. -/
theorem request_key_eq_endpoint_key_orderRows :
    UrlRows orderRows ∧ slashedPath orderRows = "/orders/\x7b\x7bid\x7d\x7d-v:x/" ∧
    Persisted.key? (.str "get")
        (.str ("https://\x7b\x7bbaseUrl\x7d\x7d:8080" ++ slashedPath orderRows ++ "?q=\x7b\x7bbaseUrl\x7d\x7d#/"))
      = .ok (some (Route.key "get" (slashedPath orderRows))) ∧
    Persisted.key? (.str "get")
        (.str ("\x7b\x7b _.baseUrl_shop \x7d\x7d" ++ slashedPath orderRows ++ ""))
      = .ok (some (Route.key "get" (slashedPath orderRows))) ∧
    Postman.Item.key? (Postman.itemOf ["shop"] { method := .get, path := slashedPath orderRows })
      = .ok (some (Route.key "GET" (slashedPath orderRows))) ∧
    Insomnia.key? (Insomnia.requestOf ["shop"] "wrk" { method := .get, path := slashedPath orderRows })
      = .ok (some (Route.key "GET" (slashedPath orderRows))) ∧
    Route.key "get" (slashedPath orderRows) = "GET /orders/\x7bid\x7d-v\x7bx\x7d" := by
  have hrows : UrlRows orderRows := by decide
  have hhost : IsBase "https://\x7b\x7bbaseUrl\x7d\x7d:8080".toList :=
    .origin (.host (by decide) (show ∀ c ∈ "ttps".toList, _ from by decide)
      (show ∀ c ∈ "\x7b\x7bbaseUrl\x7d\x7d:8080".toList, _ from by decide))
  have hvariable : IsBase "\x7b\x7b _.baseUrl_shop \x7d\x7d".toList :=
    .variable (.mk (show ∀ c ∈ [' '], _ from by decide) (.inr rfl)
      (.service (show "shop".toList ≠ [] from by decide) (by decide))
      (show ∀ c ∈ [' '], _ from by decide))
  obtain ⟨hurl, hformats⟩ := request_key_eq_endpoint_key hrows
  obtain ⟨hitem, hresource⟩ :=
    hformats { method := .get, path := slashedPath orderRows } rfl ["shop"]
  have hquery : ∀ c ∈ "?q=\x7b\x7bbaseUrl\x7d\x7d#/".toList.head?, c = '?' ∨ c = '#' :=
    fun _ hc => .inl (Option.some.inj hc).symm
  have hnothing : ∀ c ∈ "".toList.head?, c = '?' ∨ c = '#' :=
    fun c hc => absurd hc (Option.not_mem_none c)
  exact ⟨hrows, by decide, hurl "get" _ "?q=\x7b\x7bbaseUrl\x7d\x7d#/" (by decide) hhost hquery,
    hurl "get" _ "" (by decide) hvariable hnothing, hitem, hresource "wrk", by decide⟩

end RouteAtlas.Collection
