/-
  When two values count as one key.

  ==== Problem ====

  Persisted documents are looked into by values that users may have edited: identifiers of
  resources, names of folders.  `Json.same` compares them, `1`, `1.0` and `true` being one.

  ==== Spec ====

  On values that can be looked up by at all it is an equivalence (`beq_self_of_key`,
  `beq_symm_of_key`, `beq_trans_of_key`).  What cannot be looked up by is the same as no such value.
  A text is a key like no other value (`str_beq_iff`), which is all that identifiers made by a
  synthesis need.

  A folder path is a list of names, compared name by name (`path_beq_symm`, `path_beq_trans`).

  ==== The crux ====

  The laws come from one view: `representative` gives the value that stands for all keys equal to
  a given one, and two keys count as one exactly when they have the same representative
  (`same_iff_representative`).  Without it, every law would be a case distinction over three numbers
  that may be whole, floating-point or truth values.
-/
import RouteAtlas.Persisted.Fault
import RouteAtlas.Proofs.Decimal.Whole

namespace RouteAtlas.Json

open Decimal (Double)

/-! ## Numbers

Whole and floating-point numbers are compared by value.  Each has a representative, so that equal
numbers are those with one representative; this makes the comparison symmetric and transitive. -/

/-- The value that stands for a number: a whole one for whatever has a whole value. -/
def numberRepresentative : Int ⊕ Double → Json
  | .inl n => .int n
  | .inr x =>
    match x.toInt? with
    | some n => .int n
    | none => .float x

/-- A floating-point number with a whole value stands for the whole one. -/
theorem numberRepresentative_of_whole {x : Double} {n : Int} (h : x.toInt? = some n) :
    numberRepresentative (.inr x) = .int n := by
  rw [numberRepresentative, h]

theorem numberRepresentative_of_not_whole {x : Double} (h : x.toInt? = none) :
    numberRepresentative (.inr x) = .float x := by
  rw [numberRepresentative, h]

/-- A number that equals another one and is not whole has the very same bit pattern. -/
theorem eq_of_double_same {x y : Double} (h : x.same y = true) (hx : x.toInt? = none) : x = y := by
  have hzero : x.isZero = false := by
    rw [Bool.eq_false_iff]
    intro hz
    rw [Double.isZero] at hz
    rw [Double.toInt?] at hx
    split at hz
    · rename_i q hm
      rw [hm] at hx
      dsimp only at hx
      split at hx <;> simp at hx
    · exact absurd hz (by simp)
  rw [Double.same, hzero, Bool.false_and, Bool.or_false] at h
  exact eq_of_beq h

/-- Floating-point numbers are equal if they have one representative.  A whole number is represented
    as an integer and any other by itself, and the two are never equal. -/
theorem double_same_iff {x y : Double} :
    x.same y = true ↔ numberRepresentative (.inr x) = numberRepresentative (.inr y) := by
  constructor
  · intro h
    have hwhole := Double.toInt?_eq_of_same h
    cases hx : x.toInt? with
    | some n =>
      rw [numberRepresentative_of_whole hx, numberRepresentative_of_whole (hwhole ▸ hx)]
    | none => rw [eq_of_double_same h hx]
  · intro h
    cases hx : x.toInt? with
    | some n =>
      rw [numberRepresentative_of_whole hx] at h
      cases hy : y.toInt? with
      | some m =>
        rw [numberRepresentative_of_whole hy] at h
        obtain rfl := Json.int.inj h
        exact Double.same_of_toInt? hx hy
      | none =>
        rw [numberRepresentative_of_not_whole hy] at h
        cases h
    | none =>
      rw [numberRepresentative_of_not_whole hx] at h
      cases hy : y.toInt? with
      | some m =>
        rw [numberRepresentative_of_whole hy] at h
        cases h
      | none =>
        rw [numberRepresentative_of_not_whole hy] at h
        obtain rfl := Json.float.inj h
        rw [Double.same, beq_self_eq_true, Bool.true_or]

/-- A whole number equals a floating-point one with its value. -/
theorem whole_beq_iff {x : Double} {n : Int} :
    (x.toInt? == some n) = true ↔ numberRepresentative (.inr x) = .int n := by
  cases hx : x.toInt? with
  | some m =>
    rw [numberRepresentative_of_whole hx]
    simp
  | none =>
    rw [numberRepresentative_of_not_whole hx]
    simp

/-- **Numbers are equal if they have one representative.** -/
theorem sameNumber_iff {a b : Int ⊕ Double} :
    sameNumber a b = true ↔ numberRepresentative a = numberRepresentative b := by
  cases a with
  | inl n =>
    cases b with
    | inl m =>
      rw [sameNumber, beq_iff_eq, numberRepresentative, numberRepresentative]
      exact ⟨congrArg Json.int, Json.int.inj⟩
    | inr y =>
      rw [sameNumber, whole_beq_iff]
      exact eq_comm
  | inr x =>
    cases b with
    | inl m => rw [sameNumber, whole_beq_iff, numberRepresentative.eq_1]
    | inr y => exact double_same_iff

/-- What stands for a number is a number. -/
theorem number?_numberRepresentative (a : Int ⊕ Double) :
    (numberRepresentative a).number?.isSome = true := by
  cases a with
  | inl n => rfl
  | inr x =>
    rw [numberRepresentative]
    split <;> rfl

/-! ## Keys

The same of all values that can be looked up by: texts, numbers, truth values and null.  Truth
values count as numbers. -/

/-- The value that stands for all keys that count as one with the given one.  Lists and objects stand
    for nothing. -/
def representative : Json → Option Json
  | .null => some .null
  | .bool b => some (numberRepresentative (.inl (if b then 1 else 0)))
  | .int n => some (numberRepresentative (.inl n))
  | .float x => some (numberRepresentative (.inr x))
  | .str s => some (.str s)
  | .arr _ | .obj _ => none

/-- Every value that can be looked up by has a representative. -/
theorem exists_representative {a : Json} (ha : a.kind.isKey = true) :
    ∃ r, representative a = some r := by
  cases a with
  | arr | obj => exact absurd ha Bool.false_ne_true
  | null | bool | int | float | str => exact ⟨_, rfl⟩

/-- A number has its own. -/
theorem representative_of_number {a : Json} {n : Int ⊕ Double} (h : a.number? = some n) :
    representative a = some (numberRepresentative n) := by
  cases a <;> simp [number?] at h <;> subst h <;> rfl

/-- A number is compared with numbers only. -/
theorem same_of_number {a : Json} {n : Int ⊕ Double} (h : a.number? = some n) (b : Json) :
    same a b = (b.number?.map (sameNumber n)).getD false := by
  cases a <;> simp [number?] at h <;> subst h <;> simp [same]

/-- What is no number has no number for a representative. -/
theorem representative_of_not_number {a r : Json} (h : a.number? = none)
    (hr : representative a = some r) : r.number? = none := by
  cases a <;> simp [number?] at h <;> simp [representative] at hr <;> subst hr <;> rfl

/-- **Keys are told by their representatives**: two of them count as one exactly when they have the
    same. -/
theorem same_iff_representative {a b : Json} (ha : a.kind.isKey = true) : same a b = true ↔
    ∃ r, representative a = some r ∧ representative b = some r := by
  cases hn : a.number? with
  | some n =>
    rw [same_of_number hn, representative_of_number hn]
    cases hm : b.number? with
    | some m =>
      rw [representative_of_number hm]
      refine sameNumber_iff.trans ⟨fun h => ⟨_, rfl, congrArg some h.symm⟩, ?_⟩
      rintro ⟨r, hra, hrb⟩
      exact Option.some.inj (hra.trans hrb.symm)
    | none =>
      refine ⟨fun h => absurd h (by simp), ?_⟩
      rintro ⟨r, hra, hrb⟩
      obtain rfl := Option.some.inj hra
      have hsome := number?_numberRepresentative n
      rw [representative_of_not_number hm hrb] at hsome
      exact absurd hsome (by simp)
  | none =>
    cases hm : b.number? with
    | some m =>
      have hfalse : same a b = false := by
        cases a <;> simp [number?] at hn <;> cases b <;> simp [number?] at hm <;> simp [same]
      rw [hfalse, representative_of_number hm]
      refine ⟨fun h => absurd h (by simp), ?_⟩
      rintro ⟨r, hra, hrb⟩
      obtain rfl := Option.some.inj hrb
      have hsome := number?_numberRepresentative m
      rw [representative_of_not_number hn hra] at hsome
      exact absurd hsome (by simp)
    | none =>
      cases a <;> simp [number?, kind, Kind.isKey] at hn ha <;> cases b <;>
        simp [number?] at hm <;> simp [same, representative]
      exact eq_comm

/-- Values are compared as the language compares them. -/
theorem beq_eq_same (a b : Json) : (a == b) = same a b := rfl

/-- What can be looked up by equals itself. -/
theorem beq_self_of_key {a : Json} (ha : a.kind.isKey = true) : (a == a) = true := by
  obtain ⟨r, hr⟩ := exists_representative ha
  exact (same_iff_representative ha).mpr ⟨r, hr, hr⟩

theorem beq_symm_of_key {a b : Json} (ha : a.kind.isKey = true) (hb : b.kind.isKey = true)
    (h : (a == b) = true) : (b == a) = true := by
  obtain ⟨r, hra, hrb⟩ := (same_iff_representative ha).mp h
  exact (same_iff_representative hb).mpr ⟨r, hrb, hra⟩

/-- What cannot be looked up by is the same as no key. -/
theorem beq_eq_false_of_not_key {a b : Json} (ha : a.kind.isKey = true) (hb : b.kind.isKey = false) :
    (a == b) = false ∧ (b == a) = false := by
  cases b <;> simp only [kind, Kind.isKey, Bool.true_eq_false] at hb <;>
    cases a <;> simp only [kind, Kind.isKey, Bool.false_eq_true] at ha <;>
    exact ⟨rfl, rfl⟩

/-- A key is compared with anything either way round. -/
theorem beq_comm_of_key {a : Json} (ha : a.kind.isKey = true) (b : Json) : (a == b) = (b == a) := by
  cases hb : b.kind.isKey with
  | true =>
    rw [Bool.eq_iff_iff]
    exact ⟨beq_symm_of_key ha hb, beq_symm_of_key hb ha⟩
  | false =>
    obtain ⟨hab, hba⟩ := beq_eq_false_of_not_key ha hb
    rw [hab, hba]

/-- Equality goes from one to the next. -/
theorem beq_trans_of_key {a b c : Json} (ha : a.kind.isKey = true) (hb : b.kind.isKey = true)
    (hab : (a == b) = true) (hbc : (b == c) = true) : (a == c) = true := by
  obtain ⟨r, hra, hrb⟩ := (same_iff_representative ha).mp hab
  obtain ⟨s, hsb, hsc⟩ := (same_iff_representative hb).mp hbc
  obtain rfl : r = s := Option.some.inj (hrb.symm.trans hsb)
  exact (same_iff_representative ha).mpr ⟨r, hra, hsc⟩

/-- Where values are apart in order, a key is apart from all others. -/
theorem apart_of_pairwise {α : Type} {value : α → Json} {xs : List α}
    (h : xs.Pairwise fun x y => (value x == value y) = false) {x y : α} (hx : x ∈ xs) (hy : y ∈ xs)
    (hkey : (value x).kind.isKey = true) (hne : x ≠ y) : (value x == value y) = false := by
  let Apart : α → α → Prop := fun x y =>
    (value x).kind.isKey = true → x ≠ y → (value x == value y) = false
  have hapart : Apart x y := by
    refine List.Pairwise.forall_of_forall_of_flip (R := Apart)
      (fun x _ _ hne => absurd rfl hne) ?_ ?_ hx hy
    · exact h.imp fun {a b} hab _ _ => hab
    · refine h.imp fun {a b} hab hkey _ => ?_
      rw [beq_comm_of_key hkey]
      exact hab
  exact hapart hkey hne

/-- A text counts as one with itself only. -/
theorem str_beq_iff {s : String} {j : Json} : (Json.str s == j) = true ↔ j = .str s := by
  rw [beq_eq_same]
  cases j <;> simp [same]
  exact eq_comm

/-- Only a text equals a text. -/
theorem beq_str_iff {s : String} {j : Json} : (j == Json.str s) = true ↔ j = .str s := by
  rw [beq_eq_same]
  cases j <;> simp [same, number?]

/-! ## Folder paths -/

/-- Every name on a path can be looked up by. -/
def KeyPath (path : List Json) : Prop := ∀ name ∈ path, name.kind.isKey = true

/-- Paths that can be looked up by are compared alike from either side. -/
theorem path_beq_symm {p q : List Json} (hp : KeyPath p) (hq : KeyPath q) (h : (p == q) = true) :
    (q == p) = true := by
  induction p generalizing q with
  | nil =>
    cases q with
    | nil => rfl
    | cons b q => exact absurd h (by simp)
  | cons a p ih =>
    cases q with
    | nil => exact absurd h (by simp)
    | cons b q =>
      rw [List.cons_beq_cons, Bool.and_eq_true] at h ⊢
      exact ⟨beq_symm_of_key (hp a (List.mem_cons_self ..)) (hq b (List.mem_cons_self ..)) h.1,
        ih (fun n hn => hp n (List.mem_cons_of_mem _ hn)) (fun n hn => hq n (List.mem_cons_of_mem _ hn))
          h.2⟩

/-- Their equality goes from one to the next. -/
theorem path_beq_trans {p q r : List Json} (hp : KeyPath p) (hq : KeyPath q)
    (hpq : (p == q) = true) (hqr : (q == r) = true) : (p == r) = true := by
  induction p generalizing q r with
  | nil =>
    cases q with
    | nil => exact hqr
    | cons b q => exact absurd hpq (by simp)
  | cons a p ih =>
    cases q with
    | nil => exact absurd hpq (by simp)
    | cons b q =>
      cases r with
      | nil => exact absurd hqr (by simp)
      | cons c r =>
        rw [List.cons_beq_cons, Bool.and_eq_true] at hpq hqr ⊢
        exact ⟨beq_trans_of_key (hp a (List.mem_cons_self ..)) (hq b (List.mem_cons_self ..)) hpq.1 hqr.1,
          ih (fun n hn => hp n (List.mem_cons_of_mem _ hn)) (fun n hn => hq n (List.mem_cons_of_mem _ hn))
            hpq.2 hqr.2⟩

end RouteAtlas.Json
