/-
  Merges that succeed.

  ==== Problem ====

  A merge reads documents that users may have edited, and stops at the first thing that it cannot
  read.  Most statements are about merges that do not stop.

  ==== Program ====

  These lemmas take a successful run apart: a step followed by another one (`bind_eq_ok_iff`), the
  same step on every item of a list (`mapM_eq_ok_iff`), a test on every item (`filterM_eq_ok_iff`).
  Each is an equivalence and also puts the run together again, so a second run is shown to succeed
  by showing that its steps do.

  Many steps check something and then compute.  For these the `_of_step` lemmas say what a loop does
  in terms of the check and of the value, and no list of intermediate results is left in the
  statement.  Looking up by a value is such a step: it checks that the value can be looked up by,
  and gives it back (`lookupKey_eq_ok_iff`).
-/
import RouteAtlas.Persisted.Fault
import Mathlib.Data.List.Forall2

namespace RouteAtlas.Persisted

variable {ε α β : Type}

/-- Two steps succeed if the first does, and the second with what it gave. -/
theorem bind_eq_ok_iff {x : Except ε α} {f : α → Except ε β} {b : β} :
    (x >>= f) = .ok b ↔ ∃ a, x = .ok a ∧ f a = .ok b := by
  cases x with
  | error e =>
    refine ⟨fun h => absurd h (by simp [bind, Except.bind]), ?_⟩
    rintro ⟨_, h, -⟩
    exact absurd h (by simp)
  | ok a => exact ⟨fun h => ⟨a, rfl, h⟩, fun ⟨_, h, hf⟩ => (Except.ok.inj h) ▸ hf⟩

/-- After a step that succeeds, the run goes on with what it gave. -/
theorem ok_bind (a : α) (f : α → Except ε β) : (Except.ok a >>= f) = f a := rfl

/-- A step whose result is changed succeeds if the step does. -/
theorem map_eq_ok_iff {x : Except ε α} {f : α → β} {b : β} :
    x.map f = .ok b ↔ ∃ a, x = .ok a ∧ f a = b := by
  cases x with
  | error e =>
    refine ⟨fun h => absurd h (by simp [Except.map]), ?_⟩
    rintro ⟨_, h, -⟩
    exact absurd h (by simp)
  | ok a =>
    exact ⟨fun h => ⟨a, rfl, Except.ok.inj h⟩, fun ⟨_, h, hf⟩ => (Except.ok.inj h) ▸ hf ▸ rfl⟩

/-- Of a run that hands its outcome on, the first step gives one, and the rest begins with it. -/
theorem foldlM_some_cons {step : Option β → α → Except ε β} {before last : Option β} {x : α}
    {xs : List α} :
    (x :: xs).foldlM (fun before x => (step before x).map some) before = .ok last ↔
      ∃ next, step before x = .ok next ∧
        xs.foldlM (fun before x => (step before x).map some) (some next) = .ok last := by
  rw [List.foldlM_cons, bind_eq_ok_iff]
  constructor
  · rintro ⟨_, hstep, hrest⟩
    obtain ⟨next, hnext, rfl⟩ := map_eq_ok_iff.mp hstep
    exact ⟨next, hnext, hrest⟩
  · rintro ⟨next, hnext, hrest⟩
    exact ⟨some next, map_eq_ok_iff.mpr ⟨next, hnext, rfl⟩, hrest⟩

theorem pure_eq_ok_iff {a b : α} : (pure a : Except ε α) = .ok b ↔ a = b :=
  ⟨Except.ok.inj, fun h => h ▸ rfl⟩

/-- What a test of the result says is said of a result there is. -/
theorem exists_ok_of_any {x : Except ε α} {p : α → Bool} (h : x.toOption.any p = true) :
    ∃ a, x = .ok a ∧ p a = true := by
  cases x with
  | error e => exact absurd h Bool.false_ne_true
  | ok a => exact ⟨a, rfl, h⟩

/-- The same step on every item. -/
theorem mapM_eq_ok_iff {f : α → Except ε β} {l : List α} {ys : List β} :
    l.mapM f = .ok ys ↔ List.Forall₂ (fun x y => f x = .ok y) l ys := by
  induction l generalizing ys with
  | nil =>
    rw [List.mapM_nil, pure_eq_ok_iff, List.forall₂_nil_left_iff]
    exact eq_comm
  | cons x l ih =>
    rw [List.mapM_cons, bind_eq_ok_iff, List.forall₂_cons_left_iff]
    constructor
    · rintro ⟨y, hy, h⟩
      obtain ⟨zs, hzs, h⟩ := bind_eq_ok_iff.mp h
      exact ⟨y, zs, hy, ih.mp hzs, (pure_eq_ok_iff.mp h).symm⟩
    · rintro ⟨y, zs, hy, hzs, rfl⟩
      exact ⟨y, hy, bind_eq_ok_iff.mpr ⟨zs, ih.mpr hzs, rfl⟩⟩

/-- A step that succeeds on each item succeeds on all. -/
theorem mapM_eq_ok_of_forall {f : α → Except ε β} {g : α → β} {l : List α}
    (h : ∀ x ∈ l, f x = .ok (g x)) : l.mapM f = .ok (l.map g) := by
  induction l with
  | nil => rfl
  | cons x l ih =>
    rw [List.mapM_cons, h x (List.mem_cons_self ..)]
    show (l.mapM f >>= _) = _
    rw [ih fun y hy => h y (List.mem_cons_of_mem _ hy)]
    rfl

/-- Steps that do the same on the items of a list do the same on the list. -/
theorem mapM_congr_of_mem {f g : α → Except ε β} {l : List α} (h : ∀ x ∈ l, f x = g x) :
    l.mapM f = l.mapM g := by
  induction l with
  | nil => rfl
  | cons x l ih =>
    rw [List.mapM_cons, List.mapM_cons, h x (List.mem_cons_self ..),
      ih fun y hy => h y (List.mem_cons_of_mem _ hy)]

/-- Every item of the first list has a counterpart. -/
theorem exists_of_forall₂_left {R : α → β → Prop} {l : List α} {ys : List β}
    (h : List.Forall₂ R l ys) {x : α} (hx : x ∈ l) : ∃ y ∈ ys, R x y := by
  induction h with
  | nil => exact absurd hx (List.not_mem_nil)
  | cons hy _ ih =>
    rcases List.mem_cons.mp hx with rfl | hx
    · exact ⟨_, List.mem_cons_self .., hy⟩
    · obtain ⟨y, hys, hr⟩ := ih hx
      exact ⟨y, List.mem_cons_of_mem _ hys, hr⟩

/-- Every item of the second list is one. -/
theorem exists_of_forall₂_right {R : α → β → Prop} {l : List α} {ys : List β}
    (h : List.Forall₂ R l ys) {y : β} (hy : y ∈ ys) : ∃ x ∈ l, R x y :=
  exists_of_forall₂_left h.flip hy

/-- A step on every item succeeds when it does on each. -/
theorem exists_mapM_ok_iff {f : α → Except ε β} {l : List α} :
    (∃ ys, l.mapM f = .ok ys) ↔ ∀ x ∈ l, ∃ y, f x = .ok y := by
  constructor
  · rintro ⟨ys, hys⟩ x hx
    obtain ⟨y, -, hy⟩ := exists_of_forall₂_left (mapM_eq_ok_iff.mp hys) hx
    exact ⟨y, hy⟩
  · intro h
    induction l with
    | nil => exact ⟨[], rfl⟩
    | cons x l ih =>
      obtain ⟨y, hy⟩ := h x (List.mem_cons_self ..)
      obtain ⟨ys, hys⟩ := ih fun z hz => h z (List.mem_cons_of_mem _ hz)
      exact ⟨y :: ys, mapM_eq_ok_iff.mpr (.cons hy (mapM_eq_ok_iff.mp hys))⟩

/-- A step that checks and then computes, on every item. -/
theorem mapM_eq_ok_iff_of_step {f : α → Except ε β} {P : α → Prop} {g : α → β}
    (h : ∀ x y, f x = .ok y ↔ P x ∧ y = g x) {l : List α} {ys : List β} :
    l.mapM f = .ok ys ↔ (∀ x ∈ l, P x) ∧ ys = l.map g := by
  constructor
  · intro hmap
    have hall := mapM_eq_ok_iff.mp hmap
    have hstep : ∀ x ∈ l, P x := by
      intro x hx
      obtain ⟨y, -, hy⟩ := exists_of_forall₂_left hall hx
      exact ((h x y).mp hy).1
    have hcomputed := mapM_eq_ok_of_forall fun x hx => (h x (g x)).mpr ⟨hstep x hx, rfl⟩
    exact ⟨hstep, Except.ok.inj (hmap.symm.trans hcomputed)⟩
  · rintro ⟨hstep, rfl⟩
    exact mapM_eq_ok_of_forall fun x hx => (h x (g x)).mpr ⟨hstep x hx, rfl⟩

/-- A step that checks and then computes, and a value made of what it gave.  The whole is such a
    step again. -/
theorem bind_pure_eq_ok_iff_of_step {x : Except ε α} {P : Prop} {v : α}
    (h : ∀ a, x = .ok a ↔ P ∧ a = v) (f : α → β) {b : β} :
    (x >>= fun a => pure (f a)) = .ok b ↔ P ∧ b = f v := by
  rw [bind_eq_ok_iff]
  constructor
  · rintro ⟨a, hx, hb⟩
    obtain ⟨hp, rfl⟩ := (h a).mp hx
    exact ⟨hp, (Except.ok.inj hb).symm⟩
  · rintro ⟨hp, rfl⟩
    exact ⟨v, (h v).mpr ⟨hp, rfl⟩, rfl⟩

/-- A step on every item has given something for each. -/
theorem exists_of_mem_mapM {f : α → Except ε β} {l : List α} {ys : List β} (h : l.mapM f = .ok ys)
    {x : α} (hx : x ∈ l) : ∃ y ∈ ys, f x = .ok y :=
  exists_of_forall₂_left (mapM_eq_ok_iff.mp h) hx

/-- What it gave was given for one of them. -/
theorem exists_of_mem_of_mapM {f : α → Except ε β} {l : List α} {ys : List β} (h : l.mapM f = .ok ys)
    {y : β} (hy : y ∈ ys) : ∃ x ∈ l, f x = .ok y :=
  exists_of_forall₂_right (mapM_eq_ok_iff.mp h) hy

/-! ## Reading a key from every item

Reading a key may find nothing, and it may fail.  Where it fails for no item, what it finds is a
function of the item. -/

/-- What a step that may find nothing gives, nothing when it fails. -/
def given (f : α → Except ε (Option β)) (x : α) : Option β :=
  match f x with
  | .ok y => y
  | .error _ => none

/-- A key is given if it was found. -/
theorem given_eq_some_iff {f : α → Except ε (Option β)} {x : α} {y : β} :
    given f x = some y ↔ f x = .ok (some y) := by
  rw [given]
  cases f x with
  | ok z => exact ⟨fun h => congrArg _ h, fun h => Except.ok.inj h⟩
  | error e => exact ⟨fun h => absurd h (by simp), fun h => absurd h (by simp)⟩

/-- Where reading does not fail, it gives what is given. -/
theorem given_of_ok {f : α → Except ε (Option β)} {x : α} (h : ∃ y, f x = .ok y) :
    f x = .ok (given f x) := by
  obtain ⟨y, hy⟩ := h
  rw [given, hy]

/-- Reading a key from every item succeeds exactly when it succeeds for each. -/
theorem mapM_given_eq_ok_iff {f : α → Except ε (Option β)} {l : List α} {ys : List (Option β)} :
    l.mapM f = .ok ys ↔ (∀ x ∈ l, ∃ y, f x = .ok y) ∧ ys = l.map (given f) := by
  constructor
  · intro h
    have hall : ∀ x ∈ l, ∃ y, f x = .ok y := fun x hx =>
      (exists_of_mem_mapM h hx).imp fun _ hy => hy.2
    have hmap := mapM_eq_ok_of_forall fun x hx => given_of_ok (hall x hx)
    exact ⟨hall, Except.ok.inj (h.symm.trans hmap)⟩
  · rintro ⟨hall, rfl⟩
    exact mapM_eq_ok_of_forall fun x hx => given_of_ok (hall x hx)

/-- The same with the item kept beside its key. -/
theorem mapM_keyed_eq_ok_iff {f : α → Except ε (Option β)} {l : List α}
    {ys : List (Option (β × α))} :
    (l.mapM fun x => do return (← f x).map (·, x)) = .ok ys ↔
      (∀ x ∈ l, ∃ y, f x = .ok y) ∧ ys = l.map fun x => (given f x).map (·, x) := by
  have hstep : ∀ x, (∃ y, f x = .ok y) ↔
      ∃ z, (do return (← f x).map (·, x) : Except ε (Option (β × α))) = .ok z := by
    intro x
    cases f x with
    | error e => exact ⟨fun ⟨_, h⟩ => absurd h (by simp), fun ⟨_, h⟩ => absurd h (by simp [bind, Except.bind])⟩
    | ok y => exact ⟨fun _ => ⟨_, rfl⟩, fun _ => ⟨_, rfl⟩⟩
  have hvalue : ∀ x, given (fun x => (do return (← f x).map (·, x) : Except ε (Option (β × α)))) x
      = (given f x).map (·, x) := by
    intro x
    rw [given, given]
    cases f x <;> rfl
  rw [mapM_given_eq_ok_iff]
  refine and_congr (forall₂_congr fun x _ => (hstep x).symm) ?_
  rw [List.map_congr_left fun x _ => hvalue x]

/-! ## Tests on every item -/

/-- The loop behind a filter, with what has passed so far. -/
theorem filterAuxM_eq_ok_of_forall {f : α → Except ε Bool} {p : α → Bool} {l acc : List α}
    (h : ∀ x ∈ l, f x = .ok (p x)) : l.filterAuxM f acc = .ok ((l.filter p).reverse ++ acc) := by
  induction l generalizing acc with
  | nil => rfl
  | cons x l ih =>
    rw [List.filterAuxM, h x (List.mem_cons_self ..)]
    show l.filterAuxM f _ = _
    rw [ih fun y hy => h y (List.mem_cons_of_mem _ hy), List.filter_cons]
    cases p x
    · rfl
    · simp

/-- What passes a test, in order, when the test answers for every item. -/
theorem filterM_eq_ok_of_forall {f : α → Except ε Bool} {p : α → Bool} {l : List α}
    (h : ∀ x ∈ l, f x = .ok (p x)) : l.filterM f = .ok (l.filter p) := by
  rw [List.filterM, filterAuxM_eq_ok_of_forall h]
  show Except.ok _ = _
  rw [List.append_nil, List.reverse_reverse]

/-- A filter succeeds if the test answers for every item.  The library's filter gathers what passes
    in reverse, so the induction is on its auxiliary function. -/
theorem filterM_eq_ok_iff {f : α → Except ε Bool} {l ys : List α} : l.filterM f = .ok ys ↔
    ∃ p : α → Bool, (∀ x ∈ l, f x = .ok (p x)) ∧ ys = l.filter p := by
  have hall : ∀ {l acc r : List α}, l.filterAuxM f acc = .ok r → ∀ x ∈ l, ∃ b, f x = .ok b := by
    intro l
    induction l with
    | nil => exact fun _ x hx => absurd hx (List.not_mem_nil)
    | cons a l ih =>
      intro acc r h x hx
      obtain ⟨b, hb, h⟩ := bind_eq_ok_iff.mp h
      rcases List.mem_cons.mp hx with rfl | hx
      · exact ⟨b, hb⟩
      · exact ih h x hx
  constructor
  · intro h
    obtain ⟨r, hr, -⟩ := bind_eq_ok_iff.mp h
    have hp : ∀ x ∈ l, f x = .ok (match f x with | .ok b => b | .error _ => false) := by
      intro x hx
      obtain ⟨b, hb⟩ := hall hr x hx
      rw [hb]
    exact ⟨_, hp, Except.ok.inj (h.symm.trans (filterM_eq_ok_of_forall hp))⟩
  · rintro ⟨p, hp, rfl⟩
    exact filterM_eq_ok_of_forall hp

/-- A test that checks and then computes, on every item. -/
theorem filterM_eq_ok_iff_of_step {f : α → Except ε Bool} {P : α → Prop} {p : α → Bool}
    (h : ∀ x b, f x = .ok b ↔ P x ∧ b = p x) {l ys : List α} :
    l.filterM f = .ok ys ↔ (∀ x ∈ l, P x) ∧ ys = l.filter p := by
  rw [filterM_eq_ok_iff]
  constructor
  · rintro ⟨q, hq, rfl⟩
    refine ⟨fun x hx => ((h x (q x)).mp (hq x hx)).1, List.filter_congr fun x hx => ?_⟩
    exact ((h x (q x)).mp (hq x hx)).2
  · rintro ⟨hstep, rfl⟩
    exact ⟨p, fun x hx => (h x (p x)).mpr ⟨hstep x hx, rfl⟩, rfl⟩

/-- The same of a step that may give nothing. -/
theorem filterMapM_eq_ok_of_forall {f : α → Except ε (Option β)} {g : α → Option β} {l : List α}
    (h : ∀ x ∈ l, f x = .ok (g x)) : l.filterMapM f = .ok (l.filterMap g) := by
  induction l with
  | nil => rfl
  | cons x l ih =>
    rw [List.filterMapM_cons, h x (List.mem_cons_self ..), List.filterMap_cons]
    have hrest := ih fun y hy => h y (List.mem_cons_of_mem _ hy)
    cases g x with
    | none => exact hrest
    | some y =>
      show (l.filterMapM f >>= _) = _
      rw [hrest]
      rfl

/-- The same of a step that may give nothing.  That the step succeeded on every item comes first;
    with it the outcome is computed and compared. -/
theorem filterMapM_eq_ok_iff_of_step {f : α → Except ε (Option β)} {P : α → Prop} {g : α → Option β}
    (h : ∀ x y, f x = .ok y ↔ P x ∧ y = g x) {l : List α} {ys : List β} :
    l.filterMapM f = .ok ys ↔ (∀ x ∈ l, P x) ∧ ys = l.filterMap g := by
  have hstep : ∀ {l : List α} {ys : List β}, l.filterMapM f = .ok ys → ∀ x ∈ l, P x := by
    intro l
    induction l with
    | nil => exact fun _ x hx => absurd hx (List.not_mem_nil)
    | cons a l ih =>
      intro ys hys x hx
      rw [List.filterMapM_cons] at hys
      obtain ⟨y, hy, hys⟩ := bind_eq_ok_iff.mp hys
      rcases List.mem_cons.mp hx with rfl | hx
      · exact ((h x y).mp hy).1
      · cases y with
        | none => exact ih hys x hx
        | some y =>
          obtain ⟨zs, hzs, -⟩ := bind_eq_ok_iff.mp hys
          exact ih hzs x hx
  constructor
  · intro hmap
    have hcomputed := filterMapM_eq_ok_of_forall fun x hx => (h x (g x)).mpr ⟨hstep hmap x hx, rfl⟩
    exact ⟨hstep hmap, Except.ok.inj (hmap.symm.trans hcomputed)⟩
  · rintro ⟨hall, rfl⟩
    exact filterMapM_eq_ok_of_forall fun x hx => (h x (g x)).mpr ⟨hall x hx, rfl⟩

/-! ## Looking up

A value is looked up by only if it is no list and no object; otherwise the merge stops. -/

theorem lookupKey_of_key {j : Json} (h : j.kind.isKey = true) : lookupKey j = .ok j := by
  rw [lookupKey, if_pos h]

/-- Looking up succeeds for this only, and gives it back. -/
theorem lookupKey_eq_ok_iff {j k : Json} : lookupKey j = .ok k ↔ j.kind.isKey = true ∧ k = j := by
  rw [lookupKey]
  constructor
  · intro h
    split at h
    · rename_i hkey
      exact ⟨hkey, (Except.ok.inj h).symm⟩
    · exact absurd h (by simp)
  · rintro ⟨hkey, rfl⟩
    rw [if_pos hkey]

/-- Looking up a path gives it back, if each of its names can be looked up by. -/
theorem mapM_lookupKey_eq_ok_iff {path names : List Json} :
    path.mapM lookupKey = .ok names ↔ (∀ j ∈ path, j.kind.isKey = true) ∧ names = path := by
  have hall : path.mapM lookupKey = .ok names ↔
      (∀ j ∈ path, j.kind.isKey = true) ∧ names = path.map id :=
    mapM_eq_ok_iff_of_step fun _ _ => lookupKey_eq_ok_iff
  rwa [List.map_id] at hall

end RouteAtlas.Persisted
