/-
  Merging headers a second time changes nothing.

  ==== Program ====

  A header is found by its name in small letters.  Position comes from the first header of a name
  and value from the last one, so a list of headers is read as entries (`distinctHeaders_eq_ok_iff`)
  and merging is laying entries over a dictionary.

  ==== Spec ====

  What comes out holds every name once (`Entries.mapM_underName?`), hence

    * laying the same fresh headers over it again gives it again (`mergeHeaderFields_stable`);
    * fresh headers that have a name each, no two the same, are what merging them with themselves
      gives (`mergeHeaderFields_self`).

  Both rest on one law of dictionaries, that setting the same entries twice is setting them once.

  The lists come from fields of requests that may be missing or no lists.  An empty list is as good
  as any other (`orElse_arr`), so the laws hold of the fields, too.
-/
import Mathlib.Data.List.Nodup
import RouteAtlas.Persisted.Header
import RouteAtlas.Proofs.Json.Dictionary
import RouteAtlas.Proofs.Persisted.Success

namespace RouteAtlas.Persisted

/-- Headers under their names. -/
def Entries (nameField : String) (entries : Dict Json) : Prop :=
  ∀ e ∈ entries, headerKey? nameField e.2 = .ok (some e.1)

/-- Every header has a name, and no two names are the same when case is ignored. -/
def DistinctlyNamed (nameField : String) (headers : List Json) : Prop :=
  ∃ names : List String, headers.mapM (headerKey? nameField) = .ok (names.map some) ∧ names.Nodup

/-! ## Headers as entries

A merge of headers reads both lists as entries under lower-case names, and makes a dictionary of
them.  The laws of dictionaries are then laws of merging. -/

/-- A header is read under its name, if it has one that can be read. -/
theorem underName?_eq_ok_iff {nameField : String} {header : Json} {entry : Option (String × Json)} :
    underName? nameField header = .ok entry ↔
      ∃ key, headerKey? nameField header = .ok key ∧ entry = key.map (·, header) := by
  rw [underName?, map_eq_ok_iff]
  exact exists_congr fun _ => and_congr_right fun _ => eq_comm

/-- Headers are told apart if all of them can be read; what is left is the dictionary of them. -/
theorem distinctHeaders_eq_ok_iff {nameField : String} {headers hs : List Json} :
    distinctHeaders nameField headers = .ok hs ↔
      ∃ entries, headers.mapM (underName? nameField) = .ok entries ∧
        hs = Dict.values (Dict.ofList (entries.filterMap id)) := by
  rw [distinctHeaders, bind_eq_ok_iff]
  exact exists_congr fun _ => and_congr_right fun _ => by
    rw [pure_eq_ok_iff]
    exact eq_comm

/-- What is read of a list of headers stands under their names. -/
theorem Entries.of_mapM {nameField : String} {headers : List Json}
    {entries : List (Option (String × Json))}
    (h : headers.mapM (underName? nameField) = .ok entries) :
    Entries nameField (entries.filterMap id) := by
  intro e he
  obtain ⟨entry, hmem, rfl⟩ : ∃ entry ∈ entries, entry = some e := by
    obtain ⟨entry, hmem, heq⟩ := List.mem_filterMap.mp he
    exact ⟨entry, hmem, heq⟩
  obtain ⟨header, -, hu⟩ := exists_of_mem_of_mapM h hmem
  obtain ⟨key, hkey, heq⟩ := underName?_eq_ok_iff.mp hu
  cases key with
  | none => exact absurd heq (by simp)
  | some k =>
    obtain rfl : e = (k, header) := by simpa using heq
    exact hkey

/-- Reading headers that stand under their names gives these entries. -/
theorem Entries.mapM_underName? {nameField : String} {entries : Dict Json}
    (h : Entries nameField entries) :
    (Dict.values entries).mapM (underName? nameField) = .ok (entries.map some) := by
  induction entries with
  | nil => rfl
  | cons e entries ih =>
    have hhead : underName? nameField e.2 = .ok (some e) := by
      rw [underName?, h e (List.mem_cons_self ..)]
      rfl
    have htail := ih fun e he => h e (List.mem_cons_of_mem _ he)
    show (e.2 :: Dict.values entries).mapM (underName? nameField) = _
    rw [List.mapM_cons, hhead]
    show ((Dict.values entries).mapM (underName? nameField) >>= _) = _
    rw [htail]
    rfl

/-- Headers under their names, laid over such, are headers under their names.  Setting one entry
    leaves each entry what it was or makes it the new one. -/
theorem Entries.putAll {nameField : String} {d entries : Dict Json} (hd : Entries nameField d)
    (h : Entries nameField entries) : Entries nameField (Dict.putAll d entries) := by
  induction entries generalizing d with
  | nil => exact hd
  | cons e entries ih =>
    refine ih (fun e' he' => ?_) fun e' he' => h e' (List.mem_cons_of_mem _ he')
    have hput : ∀ {d : Dict Json}, e' ∈ Dict.put d e.1 e.2 → e' = e ∨ e' ∈ d := by
      intro d
      induction d with
      | nil => exact fun h => Or.inl (List.mem_singleton.mp h)
      | cons f d ihd =>
        intro hmem
        rw [Dict.put] at hmem
        split at hmem
        · rename_i hk
          rcases List.mem_cons.mp hmem with rfl | hmem
          · exact Or.inl (by rw [eq_of_beq hk])
          · exact Or.inr (List.mem_cons_of_mem _ hmem)
        · rcases List.mem_cons.mp hmem with rfl | hmem
          · exact Or.inr (List.mem_cons_self ..)
          · exact (ihd hmem).imp id (List.mem_cons_of_mem _)
    rcases hput he' with rfl | hmem
    · exact h e' (List.mem_cons_self ..)
    · exact hd e' hmem

/-! ## A second merge

The outcome is a list of headers that are read as themselves, so merging the same headers over it
only sets what is there. -/

/-- Laying the same fresh headers over the outcome again gives the outcome.  Reading the outcome
    gives its entries back, and setting the fresh ones twice is setting them once. -/
theorem mergeHeaders_stable {nameField : String} {fresh existing hs : List Json}
    (h : mergeHeaders nameField fresh existing = .ok hs) :
    mergeHeaders nameField fresh hs = .ok hs := by
  obtain ⟨entries, hread, rfl⟩ := distinctHeaders_eq_ok_iff.mp h
  rw [List.mapM_append, bind_eq_ok_iff] at hread
  obtain ⟨old, hold, hread⟩ := hread
  obtain ⟨new, hnew, hread⟩ := bind_eq_ok_iff.mp hread
  obtain rfl := pure_eq_ok_iff.mp hread
  have hdict : Dict.ofList ((old ++ new).filterMap id)
      = Dict.putAll (Dict.ofList (old.filterMap id)) (new.filterMap id) := by
    rw [List.filterMap_append, Dict.ofList, Dict.putAll_append]
    rfl
  rw [hdict]
  have hempty : Entries nameField [] := fun _ h => absurd h (List.not_mem_nil)
  have hmerged := (hempty.putAll (Entries.of_mapM hold)).putAll (Entries.of_mapM hnew)
  have hnodup : (Dict.keys (Dict.ofList (old.filterMap id))).Nodup := Dict.nodup_keys_ofList _
  generalize hd : Dict.ofList (old.filterMap id) = d at hnodup ⊢
  have hmerged' : Entries nameField (Dict.putAll d (new.filterMap id)) := by
    rw [← hd]
    exact hmerged
  refine distinctHeaders_eq_ok_iff.mpr ⟨(Dict.putAll d (new.filterMap id)).map some ++ new, ?_, ?_⟩
  · rw [List.mapM_append, hmerged'.mapM_underName?]
    show (fresh.mapM (underName? nameField) >>= _) = _
    rw [hnew]
    rfl
  · rw [List.filterMap_append, List.filterMap_map, Function.id_comp, List.filterMap_some,
      Dict.ofList, Dict.putAll_append]
    have hself := Dict.ofList_eq_self (Dict.nodup_keys_putAll hnodup (new.filterMap id))
    rw [Dict.ofList] at hself
    rw [hself, Dict.putAll_putAll hnodup]

/-- Headers with a name each, no two the same, are their own merge.  Without headers that are left
    out and without names that come twice, the list is read as it is. -/
theorem mergeHeaders_self {nameField : String} {headers : List Json}
    (h : DistinctlyNamed nameField headers) :
    mergeHeaders nameField headers headers = .ok headers := by
  obtain ⟨names, hnames, hnodup⟩ := h
  have hentries : ∃ entries : Dict Json, headers.mapM (underName? nameField) = .ok (entries.map some) ∧
      Dict.keys entries = names ∧ Dict.values entries = headers := by
    have hall := mapM_eq_ok_iff.mp hnames
    clear hnames hnodup
    induction headers generalizing names with
    | nil =>
      obtain rfl := List.map_eq_nil_iff.mp (List.forall₂_nil_left_iff.mp hall)
      exact ⟨[], rfl, rfl, rfl⟩
    | cons header headers ih =>
      cases names with
      | nil => exact absurd hall (by simp)
      | cons name names =>
        obtain ⟨hname, hrest⟩ := List.forall₂_cons.mp hall
        obtain ⟨entries, hread, rfl, rfl⟩ := ih names hrest
        refine ⟨(name, header) :: entries, ?_, rfl, rfl⟩
        have hhead : underName? nameField header = .ok (some (name, header)) := by
          rw [underName?, hname]
          rfl
        rw [List.mapM_cons, hhead]
        show ((Dict.values entries).mapM (underName? nameField) >>= _) = _
        rw [hread]
        rfl
  -- both lists are read as the same entries, and setting these twice is setting them once
  obtain ⟨entries, hread, rfl, rfl⟩ := hentries
  refine distinctHeaders_eq_ok_iff.mpr ⟨entries.map some ++ entries.map some, ?_, ?_⟩
  · rw [List.mapM_append, hread]
    rfl
  · rw [List.filterMap_append, List.filterMap_map, Function.id_comp, List.filterMap_some,
      Dict.ofList, Dict.putAll_append]
    have hself := Dict.ofList_eq_self hnodup
    rw [Dict.ofList] at hself
    have hagain := Dict.putAll_putAll (d := ([] : Dict Json)) (by simp [Dict.keys]) entries
    rw [hself] at hagain
    rw [hself, hagain]

/-! ## Headers as fields

Requests hold their headers in a field that may be missing.  What is empty in the persisted one counts
as no headers, and the merge fails on most other values. -/

/-- Two headers with different names, each of them there or not. -/
theorem distinctlyNamed_pair {nameField : String} {a b : Json} {m n : String}
    (ha : headerKey? nameField a = .ok (some m)) (hb : headerKey? nameField b = .ok (some n))
    (hne : m ≠ n) (p q : Bool) :
    DistinctlyNamed nameField ((if p then [a] else []) ++ (if q then [b] else [])) := by
  cases p with
  | false =>
    cases q with
    | false => exact ⟨[], rfl, List.nodup_nil⟩
    | true => exact ⟨[n], mapM_eq_ok_iff.mpr (.cons hb .nil), List.nodup_singleton n⟩
  | true =>
    cases q with
    | false => exact ⟨[m], mapM_eq_ok_iff.mpr (.cons ha .nil), List.nodup_singleton m⟩
    | true =>
      have hnodup : [m, n].Nodup := List.nodup_cons.mpr
        ⟨fun hmem => hne (List.mem_singleton.mp hmem), List.nodup_singleton n⟩
      exact ⟨[m, n], mapM_eq_ok_iff.mpr (.cons ha (.cons hb .nil)), hnodup⟩

/-- A list of headers, empty or not, is taken as it is. -/
theorem orElse_arr (headers : List Json) :
    Json.orElse (some (.arr headers)) (some (.arr [])) = .arr headers := by
  cases headers <;> rfl

/-- Lists of headers are merged as lists. -/
theorem mergeHeaderFields_arr (nameField : String) (fresh existing : List Json) :
    mergeHeaderFields nameField (some (.arr fresh)) (some (.arr existing))
      = (mergeHeaders nameField fresh existing).map .arr := by
  rw [mergeHeaderFields, orElse_arr, mergeHeaders]
  show ((distinctHeaders nameField (existing ++ fresh)) >>= _) = _
  cases distinctHeaders nameField (existing ++ fresh) <;> rfl

/-- Merging the same fresh headers once more changes nothing. -/
theorem mergeHeaderFields_stable {nameField : String} {fresh : List Json} {existing : Option Json}
    {h : Json} (hm : mergeHeaderFields nameField (some (.arr fresh)) existing = .ok h) :
    mergeHeaderFields nameField (some (.arr fresh)) (some h) = .ok h := by
  rw [mergeHeaderFields] at hm
  obtain ⟨headers, happ, hm⟩ := bind_eq_ok_iff.mp hm
  obtain ⟨hs, hdist, hm⟩ := bind_eq_ok_iff.mp hm
  obtain rfl := pure_eq_ok_iff.mp hm
  -- only a list can stand in front of the fresh list
  obtain ⟨old, rfl⟩ : ∃ old, headers = old ++ fresh := by
    cases hold : Json.orElse existing (some (.arr [])) with
    | arr old =>
      rw [hold] at happ
      exact ⟨old, (Except.ok.inj happ).symm⟩
    | _ =>
      rw [hold] at happ
      simp [appended, Json.kind, isNumber] at happ
  have hstable := mergeHeaders_stable (show mergeHeaders nameField fresh old = .ok hs from hdist)
  rw [mergeHeaderFields_arr, hstable]
  rfl

/-- Headers with names of their own merged with themselves are the same. -/
theorem mergeHeaderFields_self {nameField : String} {headers : List Json}
    (h : DistinctlyNamed nameField headers) :
    mergeHeaderFields nameField (some (.arr headers)) (some (.arr headers)) = .ok (.arr headers) := by
  rw [mergeHeaderFields_arr, mergeHeaders_self h]
  rfl

end RouteAtlas.Persisted
