/-
  Of several entries with one key, the last.

  ==== Problem ====

  A dictionary made of entries keeps one entry for every key.  How many entries of some sort are
  lost on the way, and when is it none?

  ==== Spec ====

  `countP_le_ofList_iff`: as many entries of a sort are kept as there were exactly when none of them
  is followed by another entry with its key.

  `countP_le_of_carried` and `unshadowed_of_countP_le` say the same, one direction each, of what is
  made of the dictionary afterwards: the first when every kept value goes on under its key and looks
  the same (`Carried`), the second when nothing else is added (`Derived`).

  ==== The crux ====

  `lasts` goes through the entries and drops those whose key comes once more.  It has the entries of
  the dictionary (`ofList_perm_lasts`) and the recursion of the list, so counting is an induction.
-/
import Mathlib.Data.List.Nodup
import Mathlib.Data.List.Perm.Subperm
import RouteAtlas.Proofs.Json.Dictionary

namespace RouteAtlas.Dict

variable {κ α β γ : Type} [DecidableEq κ]

/-! ## The last entry of each key

A dictionary of entries has the last value of each key, in the place of the first.  Without regard
to places it is the list of last entries. -/

/-- The entries whose key does not come once more. -/
def lasts : List (κ × α) → List (κ × α)
  | [] => []
  | e :: entries => if e.1 ∈ keys entries then lasts entries else e :: lasts entries

theorem lasts_cons_of_mem {e : κ × α} {entries : List (κ × α)} (h : e.1 ∈ keys entries) :
    lasts (e :: entries) = lasts entries := if_pos h

theorem lasts_cons_of_not_mem {e : κ × α} {entries : List (κ × α)} (h : e.1 ∉ keys entries) :
    lasts (e :: entries) = e :: lasts entries := if_neg h

/-- The last entries are some of the entries, in their order. -/
theorem lasts_sublist (entries : List (κ × α)) : (lasts entries).Sublist entries := by
  induction entries with
  | nil => exact .slnil
  | cons e entries ih =>
    by_cases h : e.1 ∈ keys entries
    · rw [lasts_cons_of_mem h]
      exact ih.cons _
    · rw [lasts_cons_of_not_mem h]
      exact ih.cons_cons _

/-- No key has two last entries. -/
theorem nodup_keys_lasts (entries : List (κ × α)) : (keys (lasts entries)).Nodup := by
  induction entries with
  | nil => exact List.nodup_nil
  | cons e entries ih =>
    by_cases h : e.1 ∈ keys entries
    · rwa [lasts_cons_of_mem h]
    · rw [lasts_cons_of_not_mem h]
      exact List.nodup_cons.mpr ⟨fun hmem => h (((lasts_sublist entries).map _).subset hmem), ih⟩

/-- The value under a key is that of its last entry. -/
theorem get?_lasts (entries : List (κ × α)) (key : κ) :
    get? (lasts entries) key = get? entries.reverse key := by
  induction entries with
  | nil => rfl
  | cons e entries ih =>
    obtain ⟨k, v⟩ := e
    rw [List.reverse_cons, get?_append]
    -- an entry whose key comes again is found in neither; otherwise it is found if its key is asked
    -- for
    by_cases h : k ∈ keys entries
    · rw [lasts_cons_of_mem h, ih]
      by_cases hk : key = k
      · subst hk
        have hsome : get? entries.reverse key ≠ none := by
          rw [Ne, get?_eq_none_iff, keys, List.map_reverse, List.mem_reverse]
          exact fun hno => hno h
        obtain ⟨w, hw⟩ := Option.ne_none_iff_exists'.mp hsome
        rw [hw]
        rfl
      · rw [get?_cons, if_neg (by simpa using hk), get?_nil, Option.or_none]
    · rw [lasts_cons_of_not_mem h, get?_cons]
      by_cases hk : key = k
      · subst hk
        have hnone : get? entries.reverse key = none := by
          rw [get?_eq_none_iff, keys, List.map_reverse, List.mem_reverse]
          exact h
        rw [if_pos (beq_self_eq_true key), hnone, get?_cons, if_pos (beq_self_eq_true key)]
        rfl
      · rw [if_neg (by simpa using hk), ih, get?_cons, if_neg (by simpa using hk), get?_nil,
          Option.or_none]

/-- The dictionary of entries has the last one of each key. -/
theorem ofList_perm_lasts (entries : List (κ × α)) : (ofList entries).Perm (lasts entries) := by
  have hdict := nodup_keys_ofList entries
  have hlasts := nodup_keys_lasts entries
  have hnodup : ∀ {d : List (κ × α)}, (keys d).Nodup → d.Nodup := fun h => List.Nodup.of_map _ h
  refine (List.perm_ext_iff_of_nodup (hnodup hdict) (hnodup hlasts)).mpr fun e => ?_
  have hsame : get? (ofList entries) e.1 = get? (lasts entries) e.1 := by
    rw [get?_ofList, get?_lasts]
  constructor
  · intro he
    have hget : get? (ofList entries) e.1 = some e.2 := get?_of_mem hdict he
    exact mem_of_get? (hsame.symm.trans hget)
  · intro he
    have hget : get? (lasts entries) e.1 = some e.2 := get?_of_mem hlasts he
    exact mem_of_get? (hsame.trans hget)

/-! ## Counting

How many entries of a sort a dictionary keeps, compared with how many there were. -/

/-- None of the entries of a sort is followed by another one with its key. -/
def Unshadowed (p : α → Bool) (entries : List (κ × α)) : Prop :=
  entries.Pairwise fun e e' => p e.2 = true → e.1 ≠ e'.1

instance (p : α → Bool) (entries : List (κ × α)) : Decidable (Unshadowed p entries) :=
  inferInstanceAs (Decidable (entries.Pairwise fun e e' => p e.2 = true → e.1 ≠ e'.1))

omit [DecidableEq κ] in
/-- Where no key comes twice, nothing is shadowed. -/
theorem unshadowed_of_nodup {entries : List (κ × α)} (h : (keys entries).Nodup) (p : α → Bool) :
    Unshadowed p entries := by
  have hpair : entries.Pairwise fun e e' => e.1 ≠ e'.1 := List.pairwise_map.mp h
  exact hpair.imp fun {e _} hne (_ : p e.2 = true) => hne

/-- No last entry of a sort is missing exactly when none of the sort is followed by its key.  An
    entry that is shadowed is lost, and if it is of the sort, no later one makes up for it: the
    later ones were counted themselves. -/
theorem countP_le_lasts_iff {p : α → Bool} {entries : List (κ × α)} :
    entries.countP (fun e => p e.2) ≤ (lasts entries).countP (fun e => p e.2) ↔
      Unshadowed p entries := by
  induction entries with
  | nil => exact ⟨fun _ => .nil, fun _ => Nat.le_refl _⟩
  | cons e entries ih =>
    have hle := (lasts_sublist entries).countP_le (p := fun e => p e.2)
    rw [Unshadowed, List.pairwise_cons]
    by_cases h : e.1 ∈ keys entries
    · rw [lasts_cons_of_mem h]
      obtain ⟨e', he', hkey⟩ := List.mem_map.mp h
      cases hp : p e.2 with
      | true =>
        -- this one is counted before, and it is lost
        rw [List.countP_cons_of_pos (p := fun e : κ × α => p e.2) hp]
        refine ⟨fun hcount => absurd hcount (by omega), fun hpair => ?_⟩
        exact absurd hkey.symm (hpair.1 e' he' rfl)
      | false =>
        rw [List.countP_cons_of_neg (p := fun e : κ × α => p e.2)
          (by rw [hp]; exact Bool.false_ne_true), ih]
        exact ⟨fun hrest => ⟨fun _ _ hp => absurd hp Bool.false_ne_true, hrest⟩, fun h => h.2⟩
    · rw [lasts_cons_of_not_mem h, List.countP_cons, List.countP_cons, Nat.add_le_add_iff_right, ih]
      refine ⟨fun hrest => ⟨fun e' he' _ heq => h ?_, hrest⟩, fun h => h.2⟩
      exact heq ▸ List.mem_map_of_mem (f := Prod.fst) he'

/-- **As many entries of a sort are kept as there were exactly when none of them is shadowed.** -/
theorem countP_le_ofList_iff {p : α → Bool} {entries : List (κ × α)} :
    entries.countP (fun e => p e.2) ≤ (ofList entries).countP (fun e => p e.2) ↔
      Unshadowed p entries := by
  rw [(ofList_perm_lasts entries).countP_eq]
  exact countP_le_lasts_iff

omit [DecidableEq κ] in
/-- Entries with distinct keys are no more than those they are found among. -/
theorem countP_le_of_forall {p : α → Bool} {q : β → Bool} {d : List (κ × α)} {d' : List (κ × β)}
    (hd : (keys d).Nodup) (h : ∀ e ∈ d, p e.2 = true → ∃ v, (e.1, v) ∈ d' ∧ q v = true) :
    d.countP (fun e => p e.2) ≤ d'.countP (fun e => q e.2) := by
  have hkeys : (keys (d.filter fun e => p e.2)).Nodup := hd.sublist (List.filter_sublist.map _)
  have hsub : keys (d.filter fun e => p e.2) ⊆ keys (d'.filter fun e => q e.2) := by
    intro key hkey
    obtain ⟨e, he, rfl⟩ := List.mem_map.mp hkey
    obtain ⟨hmem, hp⟩ := List.mem_filter.mp he
    obtain ⟨v, hv, hq⟩ := h e hmem hp
    exact List.mem_map.mpr ⟨(e.1, v), List.mem_filter.mpr ⟨hv, hq⟩, rfl⟩
  have hlength := (hkeys.subperm hsub).length_le
  rwa [keys, keys, List.length_map, List.length_map, ← List.countP_eq_length_filter,
    ← List.countP_eq_length_filter] at hlength

omit [DecidableEq κ] in
/-- Where no key is given twice, the one item with a key is all there is under it.  The items may
    differ in all else: what is distinct are the keys. -/
theorem filter_eq_singleton [BEq κ] [LawfulBEq κ] {key? : α → Option κ} {items : List α}
    (h : (items.filterMap key?).Nodup) {x : α} (hx : x ∈ items) {key : κ} (hkey : key? x = some key) :
    items.filter (fun y => key? y == some key) = [x] := by
  induction items with
  | nil => exact absurd hx (List.not_mem_nil)
  | cons y items ih =>
    have hnone : ∀ {ys : List α}, key ∉ ys.filterMap key? →
        ys.filter (fun y => key? y == some key) = [] := by
      intro ys hno
      refine List.filter_eq_nil_iff.mpr fun z hz heq => hno ?_
      exact List.mem_filterMap.mpr ⟨z, hz, eq_of_beq heq⟩
    cases hy : key? y with
    | none =>
      rw [List.filterMap_cons_none hy] at h
      have hmem : x ∈ items := by
        rcases List.mem_cons.mp hx with rfl | hmem
        · exact absurd (hy.symm.trans hkey) (by simp)
        · exact hmem
      rw [List.filter_cons_of_neg (by rw [hy]; exact Bool.false_ne_true), ih h hmem]
    | some k =>
      rw [List.filterMap_cons_some hy] at h
      obtain ⟨hk, hrest⟩ := List.nodup_cons.mp h
      rcases List.mem_cons.mp hx with rfl | hmem
      · obtain rfl : k = key := Option.some.inj (hy.symm.trans hkey)
        rw [List.filter_cons_of_pos (by rw [hy]; exact beq_self_eq_true _), hnone hk]
      · have hne : k ≠ key := by
          rintro rfl
          exact hk (List.mem_filterMap.mpr ⟨x, hmem, hkey⟩)
        rw [List.filter_cons_of_neg, ih hrest hmem]
        rw [hy]
        exact fun heq => hne (Option.some.inj (eq_of_beq heq))

/-! ## What is made of the dictionary

What a merge makes of a dictionary: its values go on under their keys, and nothing is added. -/

section

variable {before after : List (κ × α)} {view : α → γ}

/-- The values of a dictionary are carried over: each goes on under its key, as one that looks the
    same. -/
def Carried (view : α → γ) (before after : List (κ × α)) : Prop :=
  ∀ key v, get? (ofList before) key = some v → ∃ w, (key, w) ∈ after ∧ view w = view v

/-- Nothing is added: what looks like something comes from the dictionary. -/
def Derived (view : α → γ) (nothing : γ) (before after : List (κ × α)) : Prop :=
  ∀ key w, (key, w) ∈ after →
    view w = nothing ∨ ∃ v, get? (ofList before) key = some v ∧ view w = view v

/-- **What is not shadowed is still there.** -/
theorem countP_le_of_carried (h : Carried view before after) {p : γ → Bool}
    (hp : Unshadowed (fun v => p (view v)) before) :
    before.countP (fun e => p (view e.2)) ≤ after.countP (fun e => p (view e.2)) := by
  refine Nat.le_trans (countP_le_ofList_iff.mpr hp) ?_
  refine countP_le_of_forall (p := fun v => p (view v)) (q := fun v => p (view v))
    (nodup_keys_ofList before) fun e he hpe => ?_
  obtain ⟨w, hw, hview⟩ := h e.1 e.2 (get?_of_mem (nodup_keys_ofList before) he)
  exact ⟨w, hw, by rw [hview]; exact hpe⟩

/-- **Only what is not shadowed is still there**, when every key occurs once and nothing is added. -/
theorem unshadowed_of_countP_le {nothing : γ} (h : Derived view nothing before after)
    (hafter : (keys after).Nodup) {p : γ → Bool} (hnothing : p nothing = false)
    (hcount : before.countP (fun e => p (view e.2)) ≤ after.countP (fun e => p (view e.2))) :
    Unshadowed (fun v => p (view v)) before := by
  refine countP_le_ofList_iff.mp (Nat.le_trans hcount ?_)
  refine countP_le_of_forall (p := fun v => p (view v)) (q := fun v => p (view v)) hafter
    fun e he hpe => ?_
  rcases h e.1 e.2 he with hnone | ⟨v, hget, hview⟩
  · rw [hnone] at hpe
    exact absurd (hpe.symm.trans hnothing) (by decide)
  · exact ⟨v, mem_of_get? hget, by rw [← hview]; exact hpe⟩

end

end RouteAtlas.Dict
