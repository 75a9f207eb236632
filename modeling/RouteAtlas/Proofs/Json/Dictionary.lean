/-
  Ordered dictionaries: what each operation does to the two things one can see of a dictionary.

  A dictionary is seen through `get?`, the value under a key, and through `keys`, the order of
  first appearance.  Every operation of `Dict` has one lemma for each view (`get?_put`,
  `keys_put`, `get?_erase`, …), and the laws that merging rests on follow from them:

    * setting a key to the value it has changes nothing (`put_eq_self`, `putAll_eq_self`);
    * setting the same entries a second time changes nothing (`putAll_putAll`), although position
      comes from the first and value from the last occurrence of a key;
    * a dictionary built from entries with distinct keys is the list of those entries
      (`ofList_eq_self`), and the value under a key is that of the last entry with it
      (`get?_ofList`);
    * an operation on some keys leaves all entries `besides` them as they are, order included
      (`besides_putAll`, `besides_erase`).

  The two views determine a dictionary whose keys are distinct (`ext_of_keys`).
-/
import RouteAtlas.Json.Basic

namespace RouteAtlas.Dict

variable {κ α : Type} [BEq κ]

/-! ## The value under a key

What is found under a key, through each of the operations. -/

@[simp] theorem get?_nil (key : κ) : get? ([] : List (κ × α)) key = none := rfl

/-- The first entry counts if it has the key. -/
theorem get?_cons (k key : κ) (v : α) (d : List (κ × α)) :
    get? ((k, v) :: d) key = if key == k then some v else get? d key := by
  rw [get?, List.lookup_cons]
  cases key == k <;> rfl

theorem get?_append (d e : List (κ × α)) (key : κ) :
    get? (d ++ e) key = (get? d key).or (get? e key) := List.lookup_append

@[simp] theorem putAll_nil (d : List (κ × α)) : putAll d [] = d := rfl

@[simp] theorem putAll_cons (d : List (κ × α)) (k : κ) (v : α) (entries : List (κ × α)) :
    putAll d ((k, v) :: entries) = putAll (put d k v) entries := rfl

/-- Setting two lists of entries is setting one after the other. -/
theorem putAll_append (d es fs : List (κ × α)) : putAll d (es ++ fs) = putAll (putAll d es) fs := by
  rw [putAll, List.foldl_append]
  rfl

theorem putNew_eq_self {d : List (κ × α)} {key : κ} (h : (get? d key).isSome) (value : α) :
    putNew d key value = d := if_pos h

variable [LawfulBEq κ]

/-- A key that is set has the value, all others have theirs. -/
theorem get?_put (d : List (κ × α)) (key : κ) (value : α) (key' : κ) :
    get? (put d key value) key' = if key' == key then some value else get? d key' := by
  induction d with
  | nil => rw [put, get?_cons]
  | cons entry d ih =>
    obtain ⟨k, v⟩ := entry
    rw [put]
    by_cases hk : (k == key) = true
    · obtain rfl : k = key := eq_of_beq hk
      rw [if_pos hk, get?_cons, get?_cons]
      cases key' == k <;> rfl
    · rw [if_neg hk, get?_cons, get?_cons, ih]
      by_cases hk' : (key' == k) = true
      · obtain rfl : key' = k := eq_of_beq hk'
        rw [if_pos hk', if_pos hk', if_neg hk]
      · rw [if_neg hk', if_neg hk']

@[simp] theorem get?_put_self (d : List (κ × α)) (key : κ) (value : α) :
    get? (put d key value) key = some value := by
  rw [get?_put, if_pos (beq_self_eq_true key)]

/-- Setting one key leaves the others. -/
theorem get?_put_of_ne {key key' : κ} (h : key' ≠ key) (d : List (κ × α)) (value : α) :
    get? (put d key value) key' = get? d key' := by
  rw [get?_put, if_neg (by simpa using h)]

/-- The last entry with a key decides; without one, what was there before. -/
theorem get?_putAll (entries d : List (κ × α)) (key : κ) :
    get? (putAll d entries) key = (get? entries.reverse key).or (get? d key) := by
  induction entries generalizing d with
  | nil => rfl
  | cons entry entries ih =>
    obtain ⟨k, v⟩ := entry
    rw [putAll_cons, ih, get?_put, List.reverse_cons]
    rw [get?_append, get?_cons]
    cases get? entries.reverse key with
    | some w => rfl
    | none => cases key == k <;> rfl

/-- The value under a key of a dictionary of entries is that of the last entry with the key. -/
theorem get?_ofList (entries : List (κ × α)) (key : κ) :
    get? (ofList entries) key = get? entries.reverse key := by
  rw [ofList, get?_putAll]
  cases get? entries.reverse key <;> rfl

/-- Keys that are kept keep their values. -/
theorem get?_filter_key (p : κ → Bool) (d : List (κ × α)) (key : κ) :
    get? (d.filter fun e => p e.1) key = if p key then get? d key else none := by
  induction d with
  | nil => cases p key <;> rfl
  | cons entry d ih =>
    obtain ⟨k, v⟩ := entry
    rw [List.filter_cons, get?_cons]
    by_cases hk : (key == k) = true
    · obtain rfl : key = k := eq_of_beq hk
      by_cases hp : p key = true
      · rw [if_pos hp, if_pos hp, if_pos hk, get?_cons, if_pos hk]
      · rw [if_neg hp, if_neg hp, ih, if_neg hp]
    · rw [if_neg hk, ← ih]
      split
      · rw [get?_cons, if_neg hk]
      · rfl

/-- A key that is taken out has no value, all others have theirs. -/
theorem get?_erase (d : List (κ × α)) (key key' : κ) :
    get? (erase d key) key' = if key' == key then none else get? d key' := by
  rw [erase, get?_filter_key fun k => k != key, bne]
  cases key' == key <;> rfl

@[simp] theorem get?_erase_self (d : List (κ × α)) (key : κ) : get? (erase d key) key = none := by
  rw [get?_erase, if_pos (beq_self_eq_true key)]

/-- Taking out one key leaves the others. -/
theorem get?_erase_of_ne {key key' : κ} (h : key' ≠ key) (d : List (κ × α)) :
    get? (erase d key) key' = get? d key' := by
  rw [get?_erase, if_neg (by simpa using h)]

/-! ## Membership

A value that is found stands in the list, and without repeated keys whatever stands there is found. -/

/-- What is found is an entry. -/
theorem mem_of_get? {d : List (κ × α)} {key : κ} {value : α} (h : get? d key = some value) :
    (key, value) ∈ d := by
  induction d with
  | nil => exact absurd h (by simp)
  | cons entry d ih =>
    obtain ⟨k, v⟩ := entry
    rw [get?_cons] at h
    by_cases hk : (key == k) = true
    · obtain rfl : key = k := eq_of_beq hk
      rw [if_pos hk] at h
      rw [Option.some.inj h]
      exact List.mem_cons_self ..
    · rw [if_neg hk] at h
      exact List.mem_cons_of_mem _ (ih h)

/-- A key without a value is no key of the dictionary. -/
theorem get?_eq_none_iff {d : List (κ × α)} {key : κ} : get? d key = none ↔ key ∉ keys d := by
  induction d with
  | nil => simp [keys]
  | cons entry d ih =>
    obtain ⟨k, v⟩ := entry
    rw [get?_cons]
    by_cases hk : (key == k) = true
    · obtain rfl : key = k := eq_of_beq hk
      simp [keys]
    · rw [if_neg hk, ih]
      have hne : key ≠ k := fun e => hk (by simp [e])
      simp [keys, hne]

/-- A key with a value is one. -/
theorem mem_keys_of_get? {d : List (κ × α)} {key : κ} {value : α} (h : get? d key = some value) :
    key ∈ keys d :=
  List.mem_map_of_mem (mem_of_get? h)

/-- Every key has a value. -/
theorem exists_get?_of_mem_keys {d : List (κ × α)} {key : κ} (h : key ∈ keys d) :
    ∃ value, get? d key = some value :=
  Option.ne_none_iff_exists'.mp fun hnone => get?_eq_none_iff.mp hnone h

/-- A dictionary has the keys that are its own. -/
theorem has_iff {d : List (κ × α)} {key : κ} : has d key = true ↔ key ∈ keys d := by
  show (get? d key).isSome = true ↔ _
  rw [Option.isSome_iff_ne_none, ne_eq, get?_eq_none_iff, Classical.not_not]

/-- Under distinct keys every entry is found. -/
theorem get?_of_mem {d : List (κ × α)} (hd : (keys d).Nodup) {key : κ} {value : α}
    (h : (key, value) ∈ d) : get? d key = some value := by
  induction d with
  | nil => exact absurd h (List.not_mem_nil)
  | cons entry d ih =>
    obtain ⟨k, v⟩ := entry
    obtain ⟨hk, hrest⟩ := List.nodup_cons.mp hd
    rw [get?_cons]
    rcases List.mem_cons.mp h with heq | hmem
    · obtain ⟨rfl, rfl⟩ := Prod.mk.inj heq
      rw [if_pos (beq_self_eq_true key)]
    · have hne : key ≠ k := fun e => hk (e ▸ List.mem_map_of_mem (f := (·.1)) hmem)
      rw [if_neg (by simpa using hne)]
      exact ih hrest hmem

/-! ## The order of keys

A key keeps its place when it is set again; a new one comes last. -/

/-- Setting a key adds it at the end, unless it is there. -/
theorem keys_put (d : List (κ × α)) (key : κ) (value : α) :
    keys (put d key value) = if (get? d key).isSome then keys d else keys d ++ [key] := by
  induction d with
  | nil => rfl
  | cons entry d ih =>
    obtain ⟨k, v⟩ := entry
    rw [put, get?_cons, BEq.comm (a := key)]
    by_cases hk : (k == key) = true
    · rw [if_pos hk, if_pos hk]
      rfl
    · rw [if_neg hk, if_neg hk]
      show k :: keys (put d key value) = _
      rw [ih]
      cases (get? d key).isSome <;> rfl

/-- The keys after setting one. -/
theorem mem_keys_put {d : List (κ × α)} {key key' : κ} {value : α} :
    key' ∈ keys (put d key value) ↔ key' = key ∨ key' ∈ keys d := by
  rw [keys_put]
  by_cases hs : (get? d key).isSome = true
  · rw [if_pos hs]
    refine ⟨Or.inr, fun h => h.elim (fun e => ?_) id⟩
    by_cases hin : key ∈ keys d
    · exact e ▸ hin
    · rw [get?_eq_none_iff.mpr hin] at hs
      exact absurd hs (by simp)
  · rw [if_neg hs, List.mem_append, List.mem_singleton]
    exact or_comm

/-- Keys stay distinct when one is set. -/
theorem nodup_keys_put {d : List (κ × α)} (hd : (keys d).Nodup) (key : κ) (value : α) :
    (keys (put d key value)).Nodup := by
  rw [keys_put]
  by_cases hs : (get? d key).isSome = true
  · rwa [if_pos hs]
  · rw [if_neg hs]
    have hnone : get? d key = none := by simpa using hs
    refine List.nodup_append.mpr ⟨hd, by simp, ?_⟩
    rintro a ha b hb rfl
    exact get?_eq_none_iff.mp hnone (List.mem_singleton.mp hb ▸ ha)

theorem nodup_keys_putAll {d : List (κ × α)} (hd : (keys d).Nodup) (entries : List (κ × α)) :
    (keys (putAll d entries)).Nodup := by
  induction entries generalizing d with
  | nil => exact hd
  | cons entry entries ih => exact ih (nodup_keys_put hd entry.1 entry.2)

/-- The keys of a dictionary of entries are distinct. -/
theorem nodup_keys_ofList (entries : List (κ × α)) : (keys (ofList entries)).Nodup :=
  nodup_keys_putAll (by simp [keys]) entries

/-- The keys after setting many. -/
theorem mem_keys_putAll {entries d : List (κ × α)} {key : κ} :
    key ∈ keys (putAll d entries) ↔ key ∈ keys d ∨ key ∈ keys entries := by
  induction entries generalizing d with
  | nil => simp [keys]
  | cons entry entries ih =>
    obtain ⟨k, v⟩ := entry
    rw [putAll_cons, ih, mem_keys_put]
    simp only [keys, List.map_cons, List.mem_cons]
    constructor
    · rintro ((h | h) | h)
      · exact Or.inr (Or.inl h)
      · exact Or.inl h
      · exact Or.inr (Or.inr h)
    · rintro (h | h | h)
      · exact Or.inl (Or.inr h)
      · exact Or.inl (Or.inl h)
      · exact Or.inr h

/-- A dictionary has the keys of its entries. -/
theorem mem_keys_ofList {entries : List (κ × α)} {key : κ} :
    key ∈ keys (ofList entries) ↔ key ∈ keys entries := by
  rw [ofList, mem_keys_putAll]
  exact ⟨fun h => h.elim (fun h => absurd h (List.not_mem_nil)) id, Or.inr⟩

/-- Keys that are there stay where they are. -/
theorem keys_putAll_of_subset {d entries : List (κ × α)} (h : ∀ k ∈ keys entries, k ∈ keys d) :
    keys (putAll d entries) = keys d := by
  induction entries generalizing d with
  | nil => rfl
  | cons entry entries ih =>
    obtain ⟨k, v⟩ := entry
    have hk : k ∈ keys d := h k (by simp [keys])
    have hput : keys (put d k v) = keys d := by
      rw [keys_put, if_pos]
      cases hg : get? d k with
      | some _ => rfl
      | none => exact absurd hk (get?_eq_none_iff.mp hg)
    rw [putAll_cons, ih, hput]
    intro k' hk'
    rw [hput]
    exact h k' (by simpa [keys] using Or.inr (by simpa [keys] using hk'))

/-! ## What is not there yet -/

/-- What was there comes before what is set if missing. -/
theorem get?_putNew (d : List (κ × α)) (key : κ) (value : α) (key' : κ) :
    get? (putNew d key value) key' = (get? d key').or (if key' == key then some value else none) := by
  rw [putNew, has]
  split
  · rename_i hsome
    by_cases hkey : (key' == key) = true
    · obtain rfl : key' = key := eq_of_beq hkey
      obtain ⟨old, hold⟩ := Option.isSome_iff_exists.mp hsome
      have hold : get? d key' = some old := hold
      rw [hold]
      rfl
    · rw [if_neg hkey, Option.or_none]
  · rw [get?_append, get?_cons, get?_nil]

/-- As far as keys go, it does not matter whether what is there is kept. -/
theorem keys_putNew (d : List (κ × α)) (key : κ) (value : α) :
    keys (putNew d key value) = keys (put d key value) := by
  rw [keys_put]
  show keys (if (get? d key).isSome then d else d ++ [(key, value)]) = _
  split
  · rfl
  · exact List.map_append

section

variable {β : Type} (value : β → α)

/-- What is there already comes before the new entries. -/
theorem get?_foldl_putNew (entries : List (κ × β)) (d : List (κ × α)) (key : κ) :
    get? (entries.foldl (fun d e => putNew d e.1 (value e.2)) d) key
      = (get? d key).or ((get? entries key).map value) := by
  induction entries generalizing d with
  | nil => exact (Option.or_none).symm
  | cons entry entries ih =>
    rw [List.foldl_cons, ih, get?_putNew, get?_cons, Option.or_assoc]
    cases key == entry.1 <;> rfl

/-- The keys after many were set if missing. -/
theorem mem_keys_foldl_putNew {entries : List (κ × β)} {d : List (κ × α)} {key : κ} :
    key ∈ keys (entries.foldl (fun d e => putNew d e.1 (value e.2)) d)
      ↔ key ∈ keys d ∨ key ∈ keys entries := by
  induction entries generalizing d with
  | nil => exact ⟨.inl, fun h => h.elim id fun h => absurd h (List.not_mem_nil)⟩
  | cons entry entries ih =>
    rw [List.foldl_cons, ih, keys_putNew, mem_keys_put, or_comm (a := key = entry.1),
      or_assoc]
    exact or_congr_right List.mem_cons.symm

theorem nodup_keys_foldl_putNew {entries : List (κ × β)} {d : List (κ × α)} (hd : (keys d).Nodup) :
    (keys (entries.foldl (fun d e => putNew d e.1 (value e.2)) d)).Nodup := by
  induction entries generalizing d with
  | nil => exact hd
  | cons entry entries ih =>
    refine ih ?_
    rw [keys_putNew]
    exact nodup_keys_put hd _ _

end

/-! ## What changes nothing

Laws of idempotence, for which the order of the entries counts as well. -/

/-- Keys in their order and the values under them make up a dictionary.  Without the order of the
    keys this would fail, as would it with a key that is there twice. -/
theorem ext_of_keys {d e : List (κ × α)} (hd : (keys d).Nodup) (hk : keys d = keys e)
    (hg : ∀ key, get? d key = get? e key) : d = e := by
  induction d generalizing e with
  | nil => exact (List.map_eq_nil_iff.mp hk.symm).symm
  | cons entry d ih =>
    obtain ⟨k, v⟩ := entry
    cases e with
    | nil => exact absurd hk (by simp [keys])
    | cons entry' e =>
      obtain ⟨k', v'⟩ := entry'
      obtain ⟨rfl, hrest⟩ : k = k' ∧ keys d = keys e := by simpa [keys] using hk
      obtain ⟨hkd, hdd⟩ := List.nodup_cons.mp hd
      have hv : v = v' := by
        have hgk := hg k
        rw [get?_cons, get?_cons, if_pos (beq_self_eq_true k), if_pos (beq_self_eq_true k)] at hgk
        exact Option.some.inj hgk
      have htail : d = e := by
        refine ih hdd hrest fun key => ?_
        by_cases hne : key = k
        · subst hne
          rw [get?_eq_none_iff.mpr hkd, get?_eq_none_iff.mpr (hrest ▸ hkd)]
        · have hgk := hg key
          rwa [get?_cons, get?_cons, if_neg (by simpa using hne), if_neg (by simpa using hne)] at hgk
      rw [hv, htail]

/-- Setting a key to the value that it has changes nothing. -/
theorem put_eq_self {d : List (κ × α)} {key : κ} {value : α} (h : get? d key = some value) :
    put d key value = d := by
  induction d with
  | nil => exact absurd h (by simp)
  | cons entry d ih =>
    obtain ⟨k, v⟩ := entry
    rw [get?_cons, BEq.comm] at h
    rw [put]
    by_cases hk : (k == key) = true
    · rw [if_pos hk] at h ⊢
      rw [Option.some.inj h]
    · rw [if_neg hk] at h ⊢
      rw [ih h]

theorem putAll_eq_self {d entries : List (κ × α)}
    (h : ∀ e ∈ entries, get? d e.1 = some e.2) : putAll d entries = d := by
  induction entries with
  | nil => rfl
  | cons entry entries ih =>
    rw [putAll_cons, put_eq_self (h entry (List.mem_cons_self ..))]
    exact ih fun e he => h e (List.mem_cons_of_mem _ he)

/-- A field that was set is dropped as if it had never been. -/
theorem erase_put (d : List (κ × α)) (key : κ) (value : α) :
    erase (put d key value) key = erase d key := by
  induction d with
  | nil =>
    show List.filter _ [(key, value)] = []
    rw [List.filter_cons_of_neg (by simp), List.filter_nil]
  | cons entry d ih =>
    obtain ⟨k, v⟩ := entry
    by_cases hk : (k == key) = true
    · obtain rfl := eq_of_beq hk
      rw [put, if_pos hk, erase, erase, List.filter_cons_of_neg (by simp),
        List.filter_cons_of_neg (by simp)]
    · rw [put, if_neg hk]
      have hne : (k != key) = true := by rw [bne, Bool.not_eq_true', Bool.eq_false_iff]; exact hk
      have hkeep : ∀ e : List (κ × α), erase ((k, v) :: e) key = (k, v) :: erase e key :=
        fun e => List.filter_cons_of_pos hne
      rw [hkeep, hkeep, ih]

theorem erase_eq_self {d : List (κ × α)} {key : κ} (h : get? d key = none) : erase d key = d := by
  refine List.filter_eq_self.mpr fun e he => ?_
  have hne : e.1 ≠ key := fun heq => get?_eq_none_iff.mp h (heq ▸ List.mem_map_of_mem (f := (·.1)) he)
  simpa [bne_iff_ne] using hne

/-- A key that is not there is set at the end. -/
theorem put_eq_append {d : List (κ × α)} {key : κ} (h : get? d key = none) (value : α) :
    put d key value = d ++ [(key, value)] := by
  induction d with
  | nil => rfl
  | cons entry d ih =>
    obtain ⟨k, v⟩ := entry
    rw [get?_cons, BEq.comm] at h
    by_cases hk : (k == key) = true
    · rw [if_pos hk] at h
      exact absurd h (by simp)
    · rw [if_neg hk] at h
      rw [put, if_neg hk, ih h]
      rfl

/-- Entries with distinct keys are the dictionary they make. -/
theorem putAll_eq_append {d entries : List (κ × α)} (h : (keys (d ++ entries)).Nodup) :
    putAll d entries = d ++ entries := by
  induction entries generalizing d with
  | nil => rw [putAll_nil, List.append_nil]
  | cons entry entries ih =>
    obtain ⟨k, v⟩ := entry
    have hk : get? d k = none := by
      refine get?_eq_none_iff.mpr fun hin => ?_
      have hnd := h
      simp only [keys, List.map_append, List.map_cons] at hnd
      exact (List.nodup_append.mp hnd).2.2 k hin k (List.mem_cons_self ..) rfl
    have happ : d ++ (k, v) :: entries = (d ++ [(k, v)]) ++ entries := by simp
    rw [putAll_cons, put_eq_append hk, happ]
    exact ih (happ ▸ h)

theorem ofList_eq_self {entries : List (κ × α)} (h : (keys entries).Nodup) :
    ofList entries = entries := putAll_eq_append (d := []) h

/-- Setting the same entries again changes nothing. -/
theorem putAll_putAll {d : List (κ × α)} (hd : (keys d).Nodup) (entries : List (κ × α)) :
    putAll (putAll d entries) entries = putAll d entries := by
  have hkeys : keys (putAll (putAll d entries) entries) = keys (putAll d entries) :=
    keys_putAll_of_subset fun _ hk => mem_keys_putAll.mpr (Or.inr hk)
  refine ext_of_keys (nodup_keys_putAll (nodup_keys_putAll hd _) _) hkeys fun key => ?_
  rw [get?_putAll, get?_putAll]
  cases get? entries.reverse key <;> rfl

/-! ## What is left besides some keys

The entries under all other keys, in their order.  What a merge does not write is stated in terms of
these. -/

/-- The entries under other keys than the given ones. -/
def besides (names : List κ) (d : List (κ × α)) : List (κ × α) :=
  d.filter fun e => !names.contains e.1

section

variable {names : List κ}

theorem get?_besides {key : κ} (h : key ∉ names) (d : List (κ × α)) :
    get? (besides names d) key = get? d key := by
  rw [besides, get?_filter_key fun k => !names.contains k, if_pos]
  rw [Bool.not_eq_true', ← Bool.not_eq_true, List.contains_iff_mem]
  exact h

theorem besides_cons_of_mem {key : κ} (h : key ∈ names) (value : α) (d : List (κ × α)) :
    besides names ((key, value) :: d) = besides names d :=
  List.filter_cons_of_neg (by rw [List.contains_iff_mem.mpr h]; exact Bool.false_ne_true)

theorem besides_put {key : κ} (h : key ∈ names) (d : List (κ × α)) (value : α) :
    besides names (put d key value) = besides names d := by
  induction d with
  | nil => exact besides_cons_of_mem h value []
  | cons entry d ih =>
    obtain ⟨k, v⟩ := entry
    rw [put]
    split
    · rename_i hk
      rw [eq_of_beq hk, besides_cons_of_mem h, besides_cons_of_mem h]
    · have hcons : ∀ e : List (κ × α), besides names ((k, v) :: e)
          = besides names [(k, v)] ++ besides names e := fun e => List.filter_append [(k, v)] e
      rw [hcons (put d key value), ih, ← hcons]

theorem besides_putAll {entries : List (κ × α)} (h : ∀ k ∈ keys entries, k ∈ names)
    (d : List (κ × α)) : besides names (putAll d entries) = besides names d := by
  induction entries generalizing d with
  | nil => rfl
  | cons entry entries ih =>
    obtain ⟨k, v⟩ := entry
    rw [putAll_cons, ih fun k' hk' => h k' (List.mem_cons_of_mem _ hk'),
      besides_put (h k (List.mem_cons_self ..))]

theorem besides_erase {key : κ} (h : key ∈ names) (d : List (κ × α)) :
    besides names (erase d key) = besides names d := by
  rw [besides, erase, List.filter_filter]
  refine List.filter_congr fun e _ => ?_
  cases hk : e.1 != key with
  | true => rw [Bool.and_true]
  | false =>
    have hname : e.1 = key := by simpa using hk
    rw [hname, List.contains_iff_mem.mpr h]
    rfl

/-- What is left besides some keys settles what is left besides more of them. -/
theorem besides_congr {names' : List κ} (hsub : ∀ k ∈ names, k ∈ names') {d e : List (κ × α)}
    (h : besides names d = besides names e) : besides names' d = besides names' e := by
  have htwice : ∀ d : List (κ × α), besides names' (besides names d) = besides names' d := by
    intro d
    rw [besides, besides, List.filter_filter]
    refine List.filter_congr fun e _ => ?_
    cases hk : names'.contains e.1 with
    | true => rfl
    | false =>
      have hno : names.contains e.1 = false := by
        rw [← Bool.not_eq_true, List.contains_iff_mem] at hk ⊢
        exact fun hmem => hk (hsub _ hmem)
      rw [hno]
      rfl
  rw [← htwice d, h, htwice]

end

end RouteAtlas.Dict
