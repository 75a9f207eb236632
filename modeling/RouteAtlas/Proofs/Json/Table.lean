/-
  Tables of any keys that can be looked up by.

  ==== Problem ====

  `Tells` serves tables whose keys stand for places, and have one owner each.  In a persisted export
  that users have edited, keys come twice, as `1` and `1.0`, say, and the table has one entry for
  both, under the spelling that came first and with the value that came last.

  ==== Spec ====

  All that is known of such keys is that they are compared either way round and from one to the next
  (`Comparable`).  That is enough for the two views of a dictionary: what is found under a key is
  what the last entry with such a key says (`Comparable.get?_ofList`), and two keys that count as
  one find the same (`Comparable.get?_congr`).

  The other way round, an entry of a table was set (`mem_putAll`): its value was, with a key that
  counts as one with the key it stands under.

  Identifiers and folder paths are the two kinds of keys that this is used for (`comparable_keys`,
  `comparable_paths`).
-/
import RouteAtlas.Proofs.Json.Index
import RouteAtlas.Proofs.Json.Sameness

namespace RouteAtlas.Dict

variable {κ α : Type}

/-! ## What is in a table was set

Without any law of comparison: every entry of a table comes from one that was set, though its key
may be spelt as an earlier one. -/

theorem mem_keys_of_mem {d : List (κ × α)} {k : κ} {v : α} (h : (k, v) ∈ d) : k ∈ keys d :=
  List.mem_map_of_mem (f := Prod.fst) h

variable [BEq κ]

/-- An entry after setting one: it was there before, or has the new value under a key that counts as
    one with the new one. -/
theorem mem_put {d : List (κ × α)} {key k : κ} {value v : α} (h : (k, v) ∈ put d key value) :
    (k, v) ∈ d ∨ v = value ∧ (k = key ∨ k ∈ keys d ∧ (k == key) = true) := by
  induction d with
  | nil =>
    obtain ⟨rfl, rfl⟩ := Prod.mk.inj (List.mem_singleton.mp h)
    exact .inr ⟨rfl, .inl rfl⟩
  | cons e d ih =>
    rw [put] at h
    split at h
    · rename_i heq
      rcases List.mem_cons.mp h with hkv | hkv
      · obtain ⟨rfl, rfl⟩ := Prod.mk.inj hkv
        exact .inr ⟨rfl, .inr ⟨List.mem_cons_self .., heq⟩⟩
      · exact .inl (List.mem_cons_of_mem _ hkv)
    · rcases List.mem_cons.mp h with hkv | hkv
      · exact .inl (hkv ▸ List.mem_cons_self ..)
      · rcases ih hkv with hd | ⟨hv, hk⟩
        · exact .inl (List.mem_cons_of_mem _ hd)
        · exact .inr ⟨hv, hk.imp_right fun hk => ⟨List.mem_cons_of_mem _ hk.1, hk.2⟩⟩

/-- An entry of a table was there before, or was set: its value under this key or, where such a key
    was there already, under one that counts as one with it. -/
theorem mem_putAll {d es : List (κ × α)} {k : κ} {v : α} (h : (k, v) ∈ putAll d es) :
    (k, v) ∈ d ∨ ∃ k', (k', v) ∈ es ∧ (k = k' ∨ k ∈ keys d ++ keys es ∧ (k == k') = true) := by
  induction es generalizing d with
  | nil => exact .inl h
  | cons e es ih =>
    obtain ⟨key, value⟩ := e
    have hput : ∀ {k'}, k' ∈ keys (put d key value) → k' ∈ keys d ++ keys ((key, value) :: es) := by
      intro k' hk'
      obtain ⟨e, he, rfl⟩ := List.mem_map.mp hk'
      rcases mem_put he with hd | ⟨-, hk | hk⟩
      · exact List.mem_append_left _ (mem_keys_of_mem hd)
      · exact List.mem_append_right _ (hk ▸ List.mem_cons_self ..)
      · exact List.mem_append_left _ hk.1
    rcases ih h with hd | ⟨k', hmem, hk⟩
    · rcases mem_put hd with hd | ⟨rfl, hk⟩
      · exact .inl hd
      · refine .inr ⟨key, List.mem_cons_self .., hk.imp_right fun hk => ⟨?_, hk.2⟩⟩
        exact List.mem_append_left _ hk.1
    · refine .inr ⟨k', List.mem_cons_of_mem _ hmem, hk.imp_right fun hk => ⟨?_, hk.2⟩⟩
      rcases List.mem_append.mp hk.1 with hd | hes
      · exact hput hd
      · exact List.mem_append_right _ (List.mem_cons_of_mem _ hes)

/-- An entry of a table has the value of one that was set, under a key that counts as one with its
    own. -/
theorem mem_ofList {es : List (κ × α)} {k : κ} {v : α} (h : (k, v) ∈ ofList es) :
    ∃ k', (k', v) ∈ es ∧ (k = k' ∨ k ∈ keys es ∧ (k == k') = true) :=
  (mem_putAll h).resolve_left (List.not_mem_nil)

/-- A table has the keys of its entries and no others. -/
theorem mem_keys_of_mem_putAll {d es : List (κ × α)} {k : κ} (h : k ∈ keys (putAll d es)) :
    k ∈ keys d ∨ k ∈ keys es := by
  obtain ⟨⟨k, v⟩, hmem, rfl⟩ := List.mem_map.mp h
  rcases mem_putAll hmem with hd | ⟨k', hes, rfl | ⟨hk, -⟩⟩
  · exact .inl (mem_keys_of_mem hd)
  · exact .inr (mem_keys_of_mem hes)
  · exact List.mem_append.mp hk

/-- Something is found exactly when there is such a key. -/
theorem isSome_get?_iff {d : List (κ × α)} {key : κ} :
    (get? d key).isSome = true ↔ ∃ k ∈ keys d, (key == k) = true := by
  induction d with
  | nil => exact ⟨fun h => absurd h (by simp), fun ⟨_, h, _⟩ => absurd h (List.not_mem_nil)⟩
  | cons e d ih =>
    rw [get?_cons]
    by_cases heq : (key == e.1) = true
    · rw [if_pos heq]
      exact ⟨fun _ => ⟨e.1, List.mem_cons_self .., heq⟩, fun _ => rfl⟩
    · rw [if_neg heq, ih]
      constructor
      · rintro ⟨k, hk, hkey⟩
        exact ⟨k, List.mem_cons_of_mem _ hk, hkey⟩
      · rintro ⟨k, hk, hkey⟩
        rcases List.mem_cons.mp hk with rfl | hk
        · exact absurd hkey heq
        · exact ⟨k, hk, hkey⟩

/-! ## Keys that can be compared

With symmetry and transitivity for the keys at hand, tables behave like dictionaries up to spelling. -/

/-- The values with `P` are compared either way round, and from one to the next. -/
structure Comparable (P : κ → Prop) : Prop where
  symm : ∀ {a b}, P a → P b → (a == b) = true → (b == a) = true
  trans : ∀ {a b c}, P a → P b → P c → (a == b) = true → (b == c) = true → (a == c) = true

namespace Comparable

variable {P : κ → Prop} (h : Comparable P)
include h

/-- Two keys that count as one are compared alike with any third. -/
theorem beq_congr {a b c : κ} (ha : P a) (hb : P b) (hc : P c) (hab : (a == b) = true) :
    (a == c) = (b == c) := by
  rw [Bool.eq_iff_iff]
  exact ⟨h.trans hb ha hc (h.symm ha hb hab), h.trans ha hb hc hab⟩

/-- They find the same. -/
theorem get?_congr {d : List (κ × α)} (hd : ∀ k ∈ keys d, P k) {a b : κ} (ha : P a) (hb : P b)
    (hab : (a == b) = true) : get? d a = get? d b := by
  induction d with
  | nil => rfl
  | cons e d ih =>
    rw [get?_cons, get?_cons, h.beq_congr ha hb (hd e.1 (List.mem_cons_self ..)) hab,
      ih fun k hk => hd k (List.mem_cons_of_mem _ hk)]

/-- A key that is set has the value, and so has every one that counts as one with it. -/
theorem get?_put {d : List (κ × α)} (hd : ∀ k ∈ keys d, P k) {key : κ} (hkey : P key) (value : α)
    {key' : κ} (hkey' : P key') :
    get? (put d key value) key' = if key' == key then some value else get? d key' := by
  induction d with
  | nil => rw [put, get?_cons]
  | cons e d ih =>
    have he : P e.1 := hd e.1 (List.mem_cons_self ..)
    rw [put]
    by_cases heq : (e.1 == key) = true
    · rw [if_pos heq, get?_cons, get?_cons]
      by_cases hsame : (key' == key) = true
      · rw [if_pos hsame, if_pos (h.trans hkey' hkey he hsame (h.symm he hkey heq))]
      · have hne : ¬(key' == e.1) = true := fun hk => hsame (h.trans hkey' he hkey hk heq)
        rw [if_neg hsame, if_neg hne, if_neg hne]
    · rw [if_neg heq, get?_cons, get?_cons, ih fun k hk => hd k (List.mem_cons_of_mem _ hk)]
      by_cases hk : (key' == e.1) = true
      · rw [if_pos hk, if_pos hk, if_neg fun hsame =>
          heq (h.trans he hkey' hkey (h.symm hkey' he hk) hsame)]
      · rw [if_neg hk, if_neg hk]

/-- The last entry with such a key decides; without one, what was there before. -/
theorem get?_putAll {d es : List (κ × α)} (hd : ∀ k ∈ keys d, P k) (hes : ∀ k ∈ keys es, P k)
    {key : κ} (hkey : P key) :
    get? (putAll d es) key = (get? es.reverse key).or (get? d key) := by
  induction es generalizing d with
  | nil => rfl
  | cons e es ih =>
    have he : P e.1 := hes e.1 (List.mem_cons_self ..)
    have hput : ∀ k ∈ keys (put d e.1 e.2), P k := by
      intro k hk
      have hone : k ∈ keys (putAll d [e]) := hk
      rcases mem_keys_of_mem_putAll hone with hk | hk
      · exact hd k hk
      · exact List.mem_singleton.mp hk ▸ he
    rw [putAll_cons, ih hput fun k hk => hes k (List.mem_cons_of_mem _ hk), h.get?_put hd he _ hkey,
      List.reverse_cons, get?_append, get?_cons]
    cases get? es.reverse key with
    | some w => rfl
    | none => cases key == e.1 <;> rfl

/-- The last entry with such a key decides. -/
theorem get?_ofList {es : List (κ × α)} (hes : ∀ k ∈ keys es, P k) {key : κ} (hkey : P key) :
    get? (ofList es) key = get? es.reverse key := by
  rw [ofList, h.get?_putAll (d := []) (fun _ hk => absurd hk (List.not_mem_nil)) hes hkey]
  exact Option.or_none

end Comparable

end RouteAtlas.Dict

namespace RouteAtlas.Json

/-- Identifiers that can be looked up by. -/
theorem comparable_keys : Dict.Comparable fun j : Json => j.kind.isKey = true :=
  ⟨beq_symm_of_key, fun ha hb _ => beq_trans_of_key ha hb⟩

/-- Folder paths that can be looked up by. -/
theorem comparable_paths : Dict.Comparable KeyPath :=
  ⟨path_beq_symm, fun ha hb _ => path_beq_trans ha hb⟩

end RouteAtlas.Json
