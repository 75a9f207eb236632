/-
  Merging headers is a union.

  ==== Problem ====

  Fresh headers are laid over those of a request that is there already.  Names are compared without
  regard to case, any of them may come twice in either list, and some headers have none.  After many
  runs a header that somebody added by hand has to be where it was.

  ==== Program ====

  1. **Specification** - `IsUnion`: one header for every name, in the order in which names come first,
     and it is the last fresh one with this name, else the last of those that were there.

  2. **Entries** - headers are read as entries under their names, which succeeds as long as the names
     that are given are texts (`namedByTexts_iff`).  Then merging is laying entries over a dictionary
     (`mergeHeaders_eq`).

  3. **Again** - the outcome is read as the dictionary it was made of, so what comes later is laid over
     that dictionary in both ways of merging (`mergeHeaders_mergeHeaders`).

  ==== The crux ====

  Where a header stands comes from the first one with its name, which header it is from the last one.
  The names of the outcome tell the one, `headerNamed?` the other, and no header has two names.
-/
import RouteAtlas.Proofs.Json.Chunk
import RouteAtlas.Proofs.Persisted.LastHeader

namespace RouteAtlas.Persisted

variable {nameField : String}

/-! ## Names

When headers can be read at all: wherever a name is given, it has to be a text. -/

/-- The names of headers in small letters, for all that have one. -/
def namesIn (nameField : String) (headers : List Json) : List String :=
  headers.filterMap (given (headerKey? nameField))

/-- Where a header is given a name, the name is a text. -/
def NamedByTexts (nameField : String) (headers : List Json) : Prop :=
  ∀ header ∈ headers, ∀ value, header.field? nameField = some value → value.truthy = true →
    ∃ name, value = .str name

/-- A name can be read exactly when what is given as one is a text.  Anything empty counts as no
    name at all, so only something else that is not a text is an error. -/
theorem exists_headerKey?_iff {header : Json} :
    (∃ key, headerKey? nameField header = .ok key) ↔
      ∀ value, header.field? nameField = some value → value.truthy = true →
        ∃ name, value = .str name := by
  unfold headerKey?
  cases header.field? nameField with
  | none => exact ⟨fun _ _ h => absurd h.symm (Option.some_ne_none _), fun _ => ⟨none, rfl⟩⟩
  | some value =>
    cases value with
    | str name =>
      refine ⟨fun _ value hvalue _ => ⟨name, (Option.some.inj hvalue).symm⟩, fun _ => ?_⟩
      dsimp only
      exact ⟨_, rfl⟩
    | _ =>
      dsimp only
      split
      · rename_i htruthy
        refine ⟨fun h => absurd h (by simp), fun h => ?_⟩
        obtain ⟨name, hname⟩ := h _ rfl htruthy
        exact absurd hname (by simp)
      · rename_i hfalsy
        exact ⟨fun _ _ hvalue htruthy => absurd (Option.some.inj hvalue ▸ htruthy) hfalsy,
          fun _ => ⟨none, rfl⟩⟩

/-- Headers can be read exactly when all names that are given are texts. -/
theorem namedByTexts_iff {headers : List Json} : NamedByTexts nameField headers ↔
    ∃ entries, headers.mapM (underName? nameField) = .ok entries := by
  rw [exists_mapM_ok_iff]
  refine forall₂_congr fun header _ => ?_
  rw [← exists_headerKey?_iff]
  constructor
  · exact fun ⟨key, hkey⟩ => ⟨_, underName?_eq_ok_iff.mpr ⟨key, hkey, rfl⟩⟩
  · exact fun ⟨entry, hentry⟩ => (underName?_eq_ok_iff.mp hentry).imp fun _ h => h.1

/-- Headers are read as entries under their names. -/
theorem keys_of_mapM {headers : List Json} {entries : List (Option (String × Json))}
    (h : headers.mapM (underName? nameField) = .ok entries) :
    Dict.keys (entries.filterMap id) = namesIn nameField headers := by
  obtain ⟨-, rfl⟩ := mapM_given_eq_ok_iff.mp h
  rw [Dict.keys, namesIn, List.filterMap_map, List.map_filterMap]
  refine List.filterMap_congr fun header _ => ?_
  show (given (underName? nameField) header).map Prod.fst = _
  unfold given underName?
  cases headerKey? nameField header with
  | error fault => rfl
  | ok key => cases key <;> rfl

/-! ## One merge

Every name of either list is there, once, at its first place and with its last value. -/

/-- The headers are those of two lists brought together, the fresh ones over those that exist. -/
structure IsUnion (nameField : String) (fresh existing merged : List Json) : Prop where
  /-- Every header has a name. -/
  named : ∀ header ∈ merged, ∃ name, headerKey? nameField header = .ok (some name)
  /-- No two names are the same when case is ignored. -/
  distinct : (namesIn nameField merged).Nodup
  /-- They are the names in both lists, in the order in which they come first. -/
  names : Collected (namesIn nameField (existing ++ fresh)) (namesIn nameField merged)
  /-- The header with a name is the last fresh one, else the last that exists. -/
  counts : ∀ name, headerNamed? nameField name merged
    = (headerNamed? nameField name fresh).or (headerNamed? nameField name existing)

/-- What is merged is read as the dictionary that it was made of. -/
theorem mapM_merged {headers : List Json} {entries : List (Option (String × Json))}
    (h : headers.mapM (underName? nameField) = .ok entries) :
    (Dict.values (Dict.ofList (entries.filterMap id))).mapM (underName? nameField)
      = .ok ((Dict.ofList (entries.filterMap id)).map some) := by
  have hempty : Entries nameField [] := fun _ h => absurd h List.not_mem_nil
  exact (hempty.putAll (Entries.of_mapM h)).mapM_underName?

/-- **A merge of headers is their union.** The outcome is the values of a dictionary, whose keys are
    the names in the order in which they come first. -/
theorem isUnion_of_mergeHeaders {fresh existing merged : List Json}
    (h : mergeHeaders nameField fresh existing = .ok merged) :
    IsUnion nameField fresh existing merged := by
  obtain ⟨entries, hread, hmerged⟩ := distinctHeaders_eq_ok_iff.mp h
  have hnames : namesIn nameField merged = Dict.keys (Dict.ofList (entries.filterMap id)) := by
    have hkeys := keys_of_mapM (mapM_merged hread)
    rw [List.filterMap_map, Function.id_comp, List.filterMap_some, ← hmerged] at hkeys
    exact hkeys.symm
  have hcollected : Collected (namesIn nameField (existing ++ fresh))
      (namesIn nameField merged) := by
    rw [hnames, Dict.keys_ofList, keys_of_mapM hread]
    exact collected_eraseDups _
  refine ⟨fun header hheader => ?_, hcollected.nodup, hcollected, fun name => ?_⟩
  · have hentries := mapM_merged hread
    rw [← hmerged] at hentries
    obtain ⟨entry, hmem, hentry⟩ := exists_of_mem_mapM hentries hheader
    obtain ⟨key, hkey, rfl⟩ := underName?_eq_ok_iff.mp hentry
    cases key with
    | none => exact absurd (List.mem_map.mp hmem) (by simp)
    | some name => exact ⟨name, hkey⟩
  · rw [headerNamed?_distinctHeaders h, headerNamed?_append]

/-! ## One merge after another

Merging composes: what was merged is read as the dictionary it was made of. -/

/-- Headers behind others that could be read are laid over what was made of them. -/
theorem distinctHeaders_append {headers : List Json} {entries : List (Option (String × Json))}
    (h : headers.mapM (underName? nameField) = .ok entries) (later : List Json) :
    distinctHeaders nameField (headers ++ later) = do
      let more ← later.mapM (underName? nameField)
      return Dict.values (Dict.putAll (Dict.ofList (entries.filterMap id)) (more.filterMap id)) := by
  rw [distinctHeaders, List.mapM_append, h]
  cases later.mapM (underName? nameField) with
  | error fault => rfl
  | ok more =>
    show Except.ok (Dict.values (Dict.ofList ((entries ++ more).filterMap id))) = _
    rw [List.filterMap_append, Dict.ofList, Dict.putAll_append]
    rfl

/-- **Merging again is merging all fresh headers at once**, also where that fails. -/
theorem mergeHeaders_mergeHeaders {fresh existing merged : List Json}
    (h : mergeHeaders nameField fresh existing = .ok merged) (later : List Json) :
    mergeHeaders nameField later merged = mergeHeaders nameField (fresh ++ later) existing := by
  obtain ⟨entries, hread, hmerged⟩ := distinctHeaders_eq_ok_iff.mp h
  have hmapM := mapM_merged hread
  rw [← hmerged] at hmapM
  rw [mergeHeaders, mergeHeaders, ← List.append_assoc, distinctHeaders_append hmapM,
    distinctHeaders_append hread, List.filterMap_map, Function.id_comp, List.filterMap_some,
    Dict.ofList_eq_self (Dict.nodup_keys_ofList _)]

/-- **Merging headers is a union that does not regard case, in which the fresh ones win.**  It succeeds
    for all headers whose names are texts; the same fresh headers change nothing a second time, and
    any later ones are merged as if they had come together with the first. -/
theorem mergeHeaders_union (nameField : String) (fresh existing : List Json)
    (hfresh : NamedByTexts nameField fresh) (hexisting : NamedByTexts nameField existing) :
    ∃ merged, mergeHeaders nameField fresh existing = .ok merged ∧
      IsUnion nameField fresh existing merged ∧
      mergeHeaders nameField fresh merged = .ok merged ∧
      ∀ later, mergeHeaders nameField later merged
        = mergeHeaders nameField (fresh ++ later) existing := by
  have hall : NamedByTexts nameField (existing ++ fresh) := fun header hheader =>
    (List.mem_append.mp hheader).elim (hexisting header) (hfresh header)
  obtain ⟨entries, hread⟩ := namedByTexts_iff.mp hall
  have hmerge : mergeHeaders nameField fresh existing = .ok _ :=
    distinctHeaders_eq_ok_iff.mpr ⟨entries, hread, rfl⟩
  exact ⟨_, hmerge, isUnion_of_mergeHeaders hmerge, mergeHeaders_stable hmerge,
    mergeHeaders_mergeHeaders hmerge⟩

/-- A header with a name and a value. -/
def headerOf (name value : String) : Json := .obj [("key", .str name), ("value", .str value)]

/-- One header added by hand, one written twice, and two without a name. -/
def existingHeaders : List Json :=
  [headerOf "X-Trace" "1", headerOf "accept" "old", .str "stray", headerOf "" "2",
    headerOf "Accept" "older"]

/-- A header in another case takes the place of the one added by hand, and headers without a name
    go. -/
theorem mergeHeaders_union_existing :
    NamedByTexts "key" [headerOf "ACCEPT" "new", .obj [("key", .null)]] ∧
    NamedByTexts "key" existingHeaders ∧
    ∃ merged, mergeHeaders "key" [headerOf "ACCEPT" "new", .obj [("key", .null)]] existingHeaders
        = .ok merged ∧
      IsUnion "key" [headerOf "ACCEPT" "new", .obj [("key", .null)]] existingHeaders merged ∧
      mergeHeaders "key" [headerOf "ACCEPT" "new", .obj [("key", .null)]] merged = .ok merged ∧
      ∀ later, mergeHeaders "key" later merged = mergeHeaders "key"
        ([headerOf "ACCEPT" "new", .obj [("key", .null)]] ++ later) existingHeaders := by
  have hfresh : NamedByTexts "key" [headerOf "ACCEPT" "new", .obj [("key", .null)]] :=
    namedByTexts_iff.mpr ⟨_, rfl⟩
  have hexisting : NamedByTexts "key" existingHeaders := namedByTexts_iff.mpr ⟨_, rfl⟩
  exact ⟨hfresh, hexisting, mergeHeaders_union "key" _ _ hfresh hexisting⟩

-- the header added by hand stays where it was, the other one takes the new value
example : mergeHeaders "key" [headerOf "ACCEPT" "new", .obj [("key", .null)]] existingHeaders
    = .ok [headerOf "X-Trace" "1", headerOf "ACCEPT" "new"] := by rfl

end RouteAtlas.Persisted
