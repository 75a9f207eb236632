/-
  The header that counts for a name.

  ==== Problem ====

  A request that was edited may have headers that no synthesis makes, and several of one name.  A
  merge must not lose the first, and has to choose among the second.

  ==== Spec ====

  Of several headers with one name, case ignored, the last one counts (`headerNamed?`).  Merging is
  a union in this view: for every name the fresh header counts if there is one, and else the
  persisted one (`headerNamed?_mergeHeaderFields`).  So a header added by hand stays as long as no
  fresh request has its name.

  ==== Proof ====

  The proof goes through the entries that headers are read as: what counts for a name is what is
  found under it in the dictionary of the entries (`headerNamed?_eq_get?`).  The program puts both
  lists behind one another before it reads them, and fails on anything that is no list
  (`headerNamed?_appended`).
-/
import RouteAtlas.Proofs.Persisted.Header

namespace RouteAtlas.Persisted

/-- The last header with a name, which is given in small letters. -/
def headerNamed? (nameField name : String) (headers : List Json) : Option Json :=
  headers.reverse.find? fun header => given (headerKey? nameField) header == some name

/-- The headers in a field, none when it is no list. -/
def headersIn (field : Option Json) : List Json :=
  match field with
  | some (.arr headers) => headers
  | _ => []

/-- Does one of the headers have the name? -/
def HasHeader (nameField : String) (headers : List Json) (name : String) : Prop :=
  ∃ header ∈ headers, headerKey? nameField header = .ok (some name)

section

variable {nameField name : String}

@[simp] theorem headerNamed?_nil : headerNamed? nameField name [] = none := rfl

/-- The last header with a name is in the second list, if one is there. -/
theorem headerNamed?_append (headers others : List Json) :
    headerNamed? nameField name (headers ++ others)
      = (headerNamed? nameField name others).or (headerNamed? nameField name headers) := by
  rw [headerNamed?, List.reverse_append, List.find?_append]
  rfl

/-- None is found exactly if no header has the name. -/
theorem headerNamed?_eq_none_iff {headers : List Json} :
    headerNamed? nameField name headers = none ↔ ¬HasHeader nameField headers name := by
  rw [headerNamed?, List.find?_eq_none, HasHeader]
  constructor
  · rintro h ⟨header, hmem, hkey⟩
    refine h header (List.mem_reverse.mpr hmem) ?_
    rw [given_eq_some_iff.mpr hkey]
    exact beq_self_eq_true _
  · intro h header hmem heq
    exact h ⟨header, List.mem_reverse.mp hmem, given_eq_some_iff.mp (eq_of_beq heq)⟩

/-- What counts for a name is the last entry under it.  The dictionary is filled from the front and
    the search goes from the back, and both end at the last entry. -/
theorem headerNamed?_eq_get? {headers : List Json} {entries : List (Option (String × Json))}
    (h : headers.mapM (underName? nameField) = .ok entries) :
    headerNamed? nameField name headers = Dict.get? (Dict.ofList (entries.filterMap id)) name := by
  rw [Dict.get?_ofList, headerNamed?]
  have hall := mapM_eq_ok_iff.mp h
  clear h
  induction hall with
  | nil => rfl
  | @cons header entry headers entries hentry _ ih =>
    obtain ⟨key, hkey, rfl⟩ := underName?_eq_ok_iff.mp hentry
    have hgiven : given (headerKey? nameField) header = key := by rw [given, hkey]
    rw [List.reverse_cons, List.find?_append, ih, List.filterMap_cons]
    cases key with
    | none =>
      have hno : [header].find? (fun h => given (headerKey? nameField) h == some name) = none := by
        rw [List.find?_singleton, hgiven]
        rfl
      rw [hno, Option.or_none]
      rfl
    | some k =>
      have hone : [header].find? (fun h => given (headerKey? nameField) h == some name)
          = Dict.get? [(k, header)] name := by
        rw [List.find?_singleton, hgiven, Dict.get?_cons, BEq.comm]
        rfl
      rw [hone]
      show _ = Dict.get? ((k, header) :: entries.filterMap id).reverse name
      rw [List.reverse_cons, Dict.get?_append]

/-- Leaving one header per name changes nothing for any name. -/
theorem headerNamed?_distinctHeaders {headers hs : List Json}
    (h : distinctHeaders nameField headers = .ok hs) :
    headerNamed? nameField name hs = headerNamed? nameField name headers := by
  obtain ⟨entries, hread, rfl⟩ := distinctHeaders_eq_ok_iff.mp h
  have hempty : Entries nameField [] := fun _ h => absurd h (List.not_mem_nil)
  have hentries : Entries nameField (Dict.ofList (entries.filterMap id)) :=
    hempty.putAll (Entries.of_mapM hread)
  rw [headerNamed?_eq_get? hentries.mapM_underName?, headerNamed?_eq_get? hread,
    List.filterMap_map, Function.id_comp, List.filterMap_some, Dict.ofList_eq_self (Dict.nodup_keys_ofList _)]

/-- Texts are no headers. -/
theorem headerNamed?_texts (texts : List String) :
    headerNamed? nameField name (texts.map .str) = none := by
  refine headerNamed?_eq_none_iff.mpr ?_
  rintro ⟨header, hmem, hkey⟩
  obtain ⟨text, -, rfl⟩ := List.mem_map.mp hmem
  exact absurd (Except.ok.inj hkey) (by simp)

/-- Only lists hold headers, and putting one behind another keeps those of both.  Texts put together
    are read as a list of characters, none of which has a name. -/
theorem headerNamed?_appended {first second : Json} {headers : List Json}
    (h : appended first second = .ok headers) : headerNamed? nameField name headers
      = (headerNamed? nameField name (headersIn (some second))).or
          (headerNamed? nameField name (headersIn (some first))) := by
  have hfault : ∀ {fault : Fault}, (Except.error fault : Except Fault (List Json)) ≠ .ok headers :=
    fun h => absurd h (by simp)
  -- two lists are put together, and so are two texts, which hold no headers; anything else fails
  cases first with
  | arr olds =>
    cases second with
    | arr news =>
      obtain rfl := Except.ok.inj h
      exact headerNamed?_append olds news
    | _ => exact absurd h hfault
  | str a =>
    cases second with
    | str b =>
      obtain rfl := Except.ok.inj h
      have htexts : headerNamed? nameField name
          (((a ++ b).toList.map fun c => c.toString).map .str) = none := headerNamed?_texts _
      rw [List.map_map] at htexts
      exact htexts
    | _ => exact absurd h hfault
  | _ =>
    rw [appended.eq_def] at h
    split at h
    · rename_i hfirst
      exact Json.noConfusion hfirst
    · rename_i hfirst
      exact Json.noConfusion hfirst
    · split at h
      · exact absurd h hfault
      · split at h <;> exact absurd h hfault

/-- **Merging headers is a union**: for every name the fresh header counts, and else the persisted
    one. -/
theorem headerNamed?_mergeHeaderFields {fresh existing : Option Json} {merged : Json}
    (h : mergeHeaderFields nameField fresh existing = .ok merged) :
    headerNamed? nameField name (headersIn (some merged))
      = (headerNamed? nameField name (headersIn fresh)).or
          (headerNamed? nameField name (headersIn existing)) := by
  obtain ⟨headers, happended, h⟩ := bind_eq_ok_iff.mp h
  obtain ⟨hs, hdistinct, h⟩ := bind_eq_ok_iff.mp h
  obtain rfl := pure_eq_ok_iff.mp h
  have hfresh : headersIn (some (fresh.getD (.arr []))) = headersIn fresh := by
    cases fresh <;> rfl
  have hexisting : headersIn (some (Json.orElse existing (some (.arr [])))) = headersIn existing := by
    cases existing with
    | none => rfl
    | some value =>
      rw [Json.orElse]
      split
      · rfl
      · rename_i hfalsy
        cases value with
        | arr headers =>
          cases headers with
          | nil => rfl
          | cons _ _ => exact absurd rfl hfalsy
        | _ => rfl
  show headerNamed? nameField name hs = _
  rw [headerNamed?_distinctHeaders hdistinct, headerNamed?_appended happended, hfresh, hexisting]

end

end RouteAtlas.Persisted
