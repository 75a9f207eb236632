/-
  Dictionaries made in chunks.

  ==== Problem ====

  Endpoints are settled file by file and then altogether, and headers are merged more than
  once.  Each time a dictionary is made of dictionaries, and it should not matter how the entries
  were grouped.

  ==== Spec ====

  The keys of a dictionary stand in the order of their first entries, and under each is the value of
  its last one.  Both views go through chunks: setting the entries of a dictionary is setting those
  it was made of (`putAll_ofList`), so dictionaries put together are the dictionary of all their
  entries (`ofList_chunks`).

  ==== The crux ====

  The place comes from the first entry with a key and the value from the last, so no induction on
  the entries carries both.  A dictionary is told by the order of its keys and by the value under
  each of them; the keys go through chunks by `eraseDups_append_eraseDups`, the values because a
  dictionary has nothing under a key but the last value set.
-/
import Mathlib.Data.List.Induction
import RouteAtlas.Proofs.Json.Dictionary
import RouteAtlas.Proofs.Text.Distinct

namespace RouteAtlas.Dict

variable {κ α : Type} [BEq κ] [LawfulBEq κ]

/-! ## Keys in chunks

Setting entries in chunks, each of which was made a dictionary before, is setting them one by one.
For the keys this is taking the distinct ones. -/

/-- The keys of a dictionary are those that it had and those of the entries, each once. -/
theorem keys_putAll {d : List (κ × α)} (hd : (keys d).Nodup) (entries : List (κ × α)) :
    keys (putAll d entries) = (keys d ++ keys entries).eraseDups := by
  induction entries using List.reverseRecOn with
  | nil => exact (List.append_nil (keys d)).symm ▸ (eraseDups_of_nodup hd).symm
  | append_singleton entries entry ih =>
    obtain ⟨k, v⟩ := entry
    have hkeys : keys (entries ++ [(k, v)]) = keys entries ++ [k] := List.map_append
    have hthere : (get? (putAll d entries) k).isSome ↔ k ∈ keys d ++ keys entries := by
      rw [← List.mem_eraseDups, ← ih, ← has_iff]
      exact Iff.rfl
    rw [putAll_append, putAll_cons, putAll_nil, keys_put, hkeys, ← List.append_assoc,
      eraseDups_concat, ih]
    exact if_congr hthere rfl rfl

/-- The keys of a dictionary of entries are those of the entries, each where it comes first. -/
theorem keys_ofList (entries : List (κ × α)) : keys (ofList entries) = (keys entries).eraseDups :=
  keys_putAll (d := []) .nil entries

/-! ## Entries in chunks -/

/-- The last value under a key is its only one in the dictionary. -/
theorem get?_reverse_ofList (entries : List (κ × α)) (key : κ) :
    get? (ofList entries).reverse key = get? entries.reverse key := by
  rw [← get?_ofList (ofList entries), ofList_eq_self (nodup_keys_ofList entries), get?_ofList]

/-- **Setting the entries of a dictionary is setting those it was made of.** -/
theorem putAll_ofList {d : List (κ × α)} (hd : (keys d).Nodup) (entries : List (κ × α)) :
    putAll d (ofList entries) = putAll d entries := by
  refine ext_of_keys (nodup_keys_putAll hd _) ?_ fun key => ?_
  · rw [keys_putAll hd, keys_putAll hd, keys_ofList]
    exact eraseDups_append_eraseDups _ _
  · rw [get?_putAll, get?_putAll, get?_reverse_ofList]

/-- Setting dictionaries of chunks is setting their entries. -/
theorem putAll_chunks {d : List (κ × α)} (hd : (keys d).Nodup) (chunks : List (List (κ × α))) :
    putAll d (chunks.map ofList).flatten = putAll d chunks.flatten := by
  induction chunks generalizing d with
  | nil => rfl
  | cons chunk chunks ih =>
    rw [List.map_cons, List.flatten_cons, List.flatten_cons, putAll_append, putAll_append,
      putAll_ofList hd, ih (nodup_keys_putAll hd chunk)]

/-- A dictionary made of dictionaries is made of all their entries. -/
theorem ofList_chunks (chunks : List (List (κ × α))) :
    ofList (chunks.map ofList).flatten = ofList chunks.flatten := putAll_chunks (d := []) .nil chunks

end RouteAtlas.Dict
