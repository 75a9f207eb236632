/-
  Tables whose keys stand for something.

  ==== Problem ====

  Identifiers and folder paths are values of any kind, compared by number and text; that is no
  lawful equality, so the laws of dictionaries do not hold of tables with such keys.

  ==== Spec ====

  In a tree, though, every key stands for a place, and two keys are the same exactly when they stand
  for the same place (`Tells`).  Such a table behaves like one with the places for keys: looking up
  (`get?_index`), setting new keys (`putAll_index`) and taking one out (`filter_index`) are what
  they are for the list of places.

  ==== The crux ====

  A table that is made by the program is a fold of `put`, which compares keys as it goes.  That it
  is the plain list of entries, place by place, is shown once for new places (`put_index`);
  everything else is read off that list.  Where keys are merely apart in order, without places, the
  same is said by `putAll_of_apart`.
-/
import RouteAtlas.Proofs.Json.Dictionary

namespace RouteAtlas.Dict

variable {ι κ α : Type} [BEq κ]

/-! ## Values, whatever the keys

What can be said of a table with nothing asked of the comparison of its keys. -/

/-- What is found is a value of the table. -/
theorem mem_values_of_get? {d : List (κ × α)} {key : κ} {v : α} (h : get? d key = some v) :
    v ∈ values d := by
  induction d with
  | nil => exact absurd h (by simp)
  | cons e d ih =>
    rw [get?_cons] at h
    split at h
    · exact Option.some.inj h ▸ List.mem_cons_self ..
    · exact List.mem_cons_of_mem _ (ih h)

/-- A value of a table in which one was set is that one, or was there before. -/
theorem mem_values_put {d : List (κ × α)} {key : κ} {value v : α}
    (h : v ∈ values (put d key value)) : v = value ∨ v ∈ values d := by
  induction d with
  | nil => exact .inl (List.mem_singleton.mp h)
  | cons e d ih =>
    rw [put] at h
    split at h
    · rcases List.mem_cons.mp h with hv | hv
      · exact .inl hv
      · exact .inr (List.mem_cons_of_mem _ hv)
    · rcases List.mem_cons.mp h with hv | hv
      · exact .inr (hv ▸ List.mem_cons_self ..)
      · exact (ih hv).imp_right (List.mem_cons_of_mem _)

/-- A value in a table is one of those that were set. -/
theorem mem_values_ofList {entries : List (κ × α)} {v : α} (h : v ∈ values (ofList entries)) :
    v ∈ values entries := by
  have hall : ∀ {d es : List (κ × α)}, v ∈ values (putAll d es) → v ∈ values d ∨ v ∈ values es := by
    intro d es
    induction es generalizing d with
    | nil => exact .inl
    | cons e es ih =>
      intro hv
      rcases ih hv with hd | hes
      · rcases mem_values_put hd with rfl | hd
        · exact .inr (List.mem_cons_self ..)
        · exact .inl hd
      · exact .inr (List.mem_cons_of_mem _ hes)
  exact (hall h).resolve_left (List.not_mem_nil)

/-- What is found is there, under a key that the asked one is compared with. -/
theorem exists_mem_of_get? {d : List (κ × α)} {key : κ} {v : α} (h : get? d key = some v) :
    ∃ k, (k, v) ∈ d ∧ (key == k) = true := by
  induction d with
  | nil => exact absurd h (by simp)
  | cons e d ih =>
    rw [get?_cons] at h
    split at h
    · rename_i heq
      exact ⟨e.1, Option.some.inj h ▸ List.mem_cons_self .., heq⟩
    · obtain ⟨k, hk, heq⟩ := ih h
      exact ⟨k, List.mem_cons_of_mem _ hk, heq⟩

/-- A key that equals no other one finds nothing but what was set under it.  Keys are compared by an
    equality that need not be that of Lean, so that an entry could else be overwritten under a key
    that is spelled differently. -/
theorem mem_of_get?_ofList {entries : List (κ × α)} {key : κ} {v : α}
    (hkey : ∀ k, (key == k) = true → k = key) (h : get? (ofList entries) key = some v) :
    (key, v) ∈ entries := by
  -- one entry: what is found afterwards is it, or was found before
  have hput : ∀ {d : List (κ × α)} {k : κ} {w : α}, get? (put d k w) key = some v →
      (key, v) = (k, w) ∨ get? d key = some v := by
    intro d k w
    induction d with
    | nil =>
      intro h
      obtain ⟨k', hk', heq⟩ := exists_mem_of_get? h
      obtain ⟨rfl, rfl⟩ := Prod.mk.inj (List.mem_singleton.mp hk')
      exact .inl (Prod.ext (hkey _ heq).symm rfl)
    | cons e d ih =>
      rw [put]
      split
      · rename_i hek
        rw [get?_cons, get?_cons]
        split
        · rename_i heq
          intro h
          obtain rfl := Option.some.inj h
          have hsame : (key == k) = true := hkey e.1 heq ▸ hek
          exact .inl (Prod.ext (hkey k hsame).symm rfl)
        · exact .inr
      · rw [get?_cons, get?_cons]
        split
        · exact .inr
        · exact ih
  -- all entries, by induction
  have hall : ∀ {d es : List (κ × α)}, get? (putAll d es) key = some v →
      get? d key = some v ∨ (key, v) ∈ es := by
    intro d es
    induction es generalizing d with
    | nil => exact .inl
    | cons e es ih =>
      intro h
      rcases ih h with hd | hes
      · rcases hput hd with heq | hd
        · exact .inr (heq ▸ List.mem_cons_self ..)
        · exact .inl hd
      · exact .inr (List.mem_cons_of_mem _ hes)
  exact (hall h).resolve_left (by simp)

/-- Setting keys none of which is there adds them at the end.  Each key is compared with all before
    it, and therefore the hypothesis is on pairs in their order. -/
theorem putAll_of_apart {d entries : List (κ × α)}
    (h : (keys (d ++ entries)).Pairwise fun k k' => (k == k') = false) :
    putAll d entries = d ++ entries := by
  have hput : ∀ {d : List (κ × α)} {k : κ} (v : α), (∀ k' ∈ keys d, (k' == k) = false) →
      put d k v = d ++ [(k, v)] := by
    intro d k v hd
    induction d with
    | nil => rfl
    | cons e d ih =>
      have hne : ¬(e.1 == k) = true := by
        rw [hd e.1 (List.mem_cons_self ..)]
        exact Bool.false_ne_true
      rw [put, if_neg hne, ih fun k' hk' => hd k' (List.mem_cons_of_mem _ hk')]
      rfl
  induction entries generalizing d with
  | nil => rw [putAll_nil, List.append_nil]
  | cons e entries ih =>
    have hmid : d ++ e :: entries = d ++ [e] ++ entries := by
      rw [List.append_assoc, List.singleton_append]
    have hnew : ∀ k' ∈ keys d, (k' == e.1) = false := by
      rw [keys, List.map_append, List.pairwise_append] at h
      exact fun k' hk' => h.2.2 k' hk' e.1 (List.mem_cons_self ..)
    rw [putAll_cons, hput e.2 hnew, hmid]
    rw [hmid] at h
    exact ih h

/-- Entries whose keys are all apart make the dictionary of them. -/
theorem ofList_of_apart {entries : List (κ × α)}
    (h : (keys entries).Pairwise fun k k' => (k == k') = false) : ofList entries = entries :=
  putAll_of_apart (d := []) h

/-! ## Keys that stand for places

Tables whose keys are computed from places, and tell them apart.  They can be read and written like
functions on the places. -/

/-- The keys of places in the list are the same for the same place only. -/
def Tells (key : ι → κ) (places : List ι) : Prop :=
  ∀ i ∈ places, ∀ j ∈ places, (key i == key j) = true ↔ i = j

/-- What is found is the value of a place. -/
theorem exists_of_get?_index {key : ι → κ} {value : ι → α} {d : List ι} {k : κ} {v : α}
    (hget : get? (d.map fun j => (key j, value j)) k = some v) : ∃ i ∈ d, v = value i := by
  induction d with
  | nil => exact absurd hget (by simp)
  | cons j d ih =>
    rw [List.map_cons, get?_cons] at hget
    split at hget
    · exact ⟨j, List.mem_cons_self .., (Option.some.inj hget).symm⟩
    · obtain ⟨i, hi, hv⟩ := ih hget
      exact ⟨i, List.mem_cons_of_mem _ hi, hv⟩

section

variable {key : ι → κ} {places : List ι} (h : Tells key places) (value : ι → α)
include h

/-- The value of a place is found under its key. -/
theorem get?_index {is : List ι} (his : ∀ i ∈ is, i ∈ places) {i : ι} (hi : i ∈ is) :
    get? (is.map fun j => (key j, value j)) (key i) = some (value i) := by
  induction is with
  | nil => exact absurd hi (List.not_mem_nil)
  | cons j is ih =>
    have hj : j ∈ places := his j (List.mem_cons_self ..)
    rw [List.map_cons, get?_cons]
    by_cases heq : (key i == key j) = true
    · obtain rfl := (h i (his i hi) j hj).mp heq
      rw [if_pos heq]
    · rw [if_neg heq]
      rcases List.mem_cons.mp hi with rfl | hi
      · exact absurd ((h i hj i hj).mpr rfl) heq
      · exact ih (fun k hk => his k (List.mem_cons_of_mem _ hk)) hi

/-- Nothing is found for a place that is not in the table. -/
theorem get?_index_of_not_mem {is : List ι} (his : ∀ i ∈ is, i ∈ places) {i : ι} (hi : i ∈ places)
    (hno : i ∉ is) : get? (is.map fun j => (key j, value j)) (key i) = none := by
  induction is with
  | nil => rfl
  | cons j is ih =>
    have hne : ¬(key i == key j) = true := by
      intro heq
      exact hno ((h i hi j (his j (List.mem_cons_self ..))).mp heq ▸ List.mem_cons_self ..)
    rw [List.map_cons, get?_cons, if_neg hne]
    exact ih (fun k hk => his k (List.mem_cons_of_mem _ hk))
      fun hmem => hno (List.mem_cons_of_mem _ hmem)

/-- Setting the key of a new place adds it at the end. -/
theorem put_index {is : List ι} (his : ∀ i ∈ is, i ∈ places) {i : ι} (hi : i ∈ places)
    (hno : i ∉ is) : put (is.map fun j => (key j, value j)) (key i) (value i)
      = (is ++ [i]).map fun j => (key j, value j) := by
  induction is with
  | nil => rfl
  | cons j is ih =>
    have hne : ¬(key j == key i) = true := by
      intro heq
      exact hno ((h j (his j (List.mem_cons_self ..)) i hi).mp heq ▸ List.mem_cons_self ..)
    rw [List.map_cons, put, if_neg hne, List.cons_append, List.map_cons]
    exact congrArg _ (ih (fun k hk => his k (List.mem_cons_of_mem _ hk))
      fun hmem => hno (List.mem_cons_of_mem _ hmem))

/-- Setting the keys of new places adds them at the end. -/
theorem putAll_index {is js : List ι} (his : ∀ i ∈ is ++ js, i ∈ places) (hnodup : (is ++ js).Nodup) :
    putAll (is.map fun j => (key j, value j)) (js.map fun j => (key j, value j))
      = (is ++ js).map fun j => (key j, value j) := by
  induction js generalizing is with
  | nil => rw [List.append_nil]; rfl
  | cons j js ih =>
    have hmid : is ++ j :: js = is ++ [j] ++ js := by rw [List.append_assoc, List.singleton_append]
    have hno : j ∉ is := by
      intro hmem
      exact (List.nodup_append.mp hnodup).2.2 j hmem j (List.mem_cons_self ..) rfl
    rw [List.map_cons, putAll_cons, put_index h value
      (fun i hi => his i (List.mem_append_left _ hi))
      (his j (List.mem_append_right _ (List.mem_cons_self ..))) hno, hmid]
    rw [hmid] at his hnodup
    exact ih his hnodup

/-- A table of places is the list of their entries. -/
theorem ofList_index {is : List ι} (his : ∀ i ∈ is, i ∈ places) (hnodup : is.Nodup) :
    ofList (is.map fun j => (key j, value j)) = is.map fun j => (key j, value j) := by
  have hall := @putAll_index _ _ _ _ key places h value [] is his hnodup
  exact hall

/-- Taking out a key takes out its place. -/
theorem filter_index [DecidableEq ι] {is : List ι} (his : ∀ i ∈ is, i ∈ places) {i : ι}
    (hi : i ∈ places) : (is.map fun j => (key j, value j)).filter (fun e => !(key i == e.1))
      = (is.filter (· ≠ i)).map fun j => (key j, value j) := by
  induction is with
  | nil => rfl
  | cons j is ih =>
    have ih := ih fun k hk => his k (List.mem_cons_of_mem _ hk)
    have htells := h i hi j (his j (List.mem_cons_self ..))
    rw [List.map_cons]
    by_cases heq : j = i
    · rw [List.filter_cons_of_neg (by simp [htells.mpr heq.symm]),
        List.filter_cons_of_neg (by simp [heq]), ih]
    · have hne : (key i == key j) = false := by
        rw [Bool.eq_false_iff]
        exact fun ht => heq (htells.mp ht).symm
      rw [List.filter_cons_of_pos (by simp [hne]), List.filter_cons_of_pos (by simp [heq]),
        List.map_cons, ih]

end

/-! ## Entries that stay in front -/

/-- Setting other keys leaves the first entry where it is. -/
theorem putAll_cons_of_ne {k : κ} {v : α} {entries : List (κ × α)}
    (h : ∀ e ∈ entries, (k == e.1) = false) (d : List (κ × α)) :
    putAll ((k, v) :: d) entries = (k, v) :: putAll d entries := by
  induction entries generalizing d with
  | nil => rfl
  | cons e entries ih =>
    have hne : ¬(k == e.1) = true := by
      rw [h e (List.mem_cons_self ..)]
      exact Bool.false_ne_true
    show putAll (put ((k, v) :: d) e.1 e.2) entries = _
    rw [put, if_neg hne, ih fun e' he' => h e' (List.mem_cons_of_mem _ he')]
    rfl

end RouteAtlas.Dict
