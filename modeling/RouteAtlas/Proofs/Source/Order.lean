/-
  What is found at places, in the order of the places.

  ==== Problem ====

  Places are sorted, and then something is read off them one by one, at some of them only.  What comes
  out should depend on what is there, and not on the places that have nothing.

  ==== Program ====

  1. **Sorting** - places are compared part by part, which is total and transitive (`le_total`,
     `le_trans`).  So a sort puts an element in front of the first that may stand behind it
     (`mergeSort_cons_split`).

  2. **Reading off** - what is read off sorted elements is sorted itself, when it is compared as they
     are (`filterMap_mergeSort`).  For places: what bears the place it was found at comes in the order
     of these (`filterMap_sort`).

  ==== The crux ====

  A sort is stable, and elements that come before each other need not be equal.  So the outcome is
  not told by its order alone; it is the one place of every element among the others that tells it.
-/
import Mathlib.Data.List.Basic
import RouteAtlas.Proofs.Text.Order
import RouteAtlas.Source.Location

namespace RouteAtlas.Source.Location

/-! ## Sorting

What is read off sorted things is sorted itself, so that filtering and sorting can change places. -/

section

variable {α : Type} {le : α → α → Bool}

/-- Where a list that fails a test first and passes it afterwards is cut is told by the list. -/
theorem split_unique {p : α → Bool} {k₁ k₂ m₁ m₂ : List α} (h : k₁ ++ k₂ = m₁ ++ m₂)
    (hk₁ : ∀ x ∈ k₁, p x = false) (hk₂ : ∀ x ∈ k₂, p x = true)
    (hm₁ : ∀ x ∈ m₁, p x = false) (hm₂ : ∀ x ∈ m₂, p x = true) : k₁ = m₁ ∧ k₂ = m₂ := by
  have hback : ∀ {l₁ l₂ : List α}, (∀ x ∈ l₁, p x = false) → (∀ x ∈ l₂, p x = true) →
      (l₁ ++ l₂).filter p = l₂ := by
    intro l₁ l₂ h₁ h₂
    rw [List.filter_append, List.filter_eq_nil_iff.mpr fun x hx => by simp [h₁ x hx],
      List.filter_eq_self.mpr h₂, List.nil_append]
  have hsame : k₂ = m₂ := by rw [← hback hk₁ hk₂, h, hback hm₁ hm₂]
  subst hsame
  exact ⟨List.append_cancel_right h, rfl⟩

/-- **A sort puts an element** behind those that must stand before it, and before all others. -/
theorem mergeSort_cons_split (htrans : ∀ a b c, le a b = true → le b c = true → le a c = true)
    (htotal : ∀ a b, (le a b || le b a) = true) (a : α) (l : List α) :
    ∃ l₁ l₂, (a :: l).mergeSort le = l₁ ++ a :: l₂ ∧ l.mergeSort le = l₁ ++ l₂ ∧
      (∀ b ∈ l₁, le a b = false) ∧ ∀ b ∈ l₂, le a b = true := by
  obtain ⟨l₁, l₂, hcons, hrest, hbefore⟩ := List.mergeSort_cons htrans htotal a l
  refine ⟨l₁, l₂, hcons, hrest, fun b hb => by simpa using hbefore b hb, ?_⟩
  have hsorted := List.pairwise_mergeSort htrans htotal (a :: l)
  rw [hcons] at hsorted
  exact (List.pairwise_cons.mp (List.pairwise_append.mp hsorted).2.1).1

/-- **What is read off sorted elements is sorted**, when it is compared as they are.  An element is
    put behind those that are smaller and before the others, and so is what is read off it; since
    sorting is stable this settles its place. -/
theorem filterMap_mergeSort {β : Type} {le' : β → β → Bool}
    (htrans : ∀ a b c, le a b = true → le b c = true → le a c = true)
    (htotal : ∀ a b, (le a b || le b a) = true)
    (htrans' : ∀ a b c, le' a b = true → le' b c = true → le' a c = true)
    (htotal' : ∀ a b, (le' a b || le' b a) = true) {g : α → Option β}
    (hg : ∀ a b x y, g a = some x → g b = some y → le' x y = le a b) (l : List α) :
    (l.mergeSort le).filterMap g = (l.filterMap g).mergeSort le' := by
  induction l with
  | nil => simp
  | cons a l ih =>
    obtain ⟨l₁, l₂, hcons, hrest, hbefore, hbehind⟩ := mergeSort_cons_split htrans htotal a l
    rw [hrest, List.filterMap_append] at ih
    rw [hcons, List.filterMap_append]
    cases ha : g a with
    | none => rw [List.filterMap_cons_none ha, List.filterMap_cons_none ha, ih]
    | some x =>
      rw [List.filterMap_cons_some ha, List.filterMap_cons_some ha]
      obtain ⟨m₁, m₂, hcons', hrest', hbefore', hbehind'⟩ :=
        mergeSort_cons_split htrans' htotal' x (l.filterMap g)
      have hkept : ∀ {k : List α} {b : Bool}, (∀ c ∈ k, le a c = b) →
          ∀ y ∈ k.filterMap g, le' x y = b := by
        intro k b hk y hy
        obtain ⟨c, hc, hcy⟩ := List.mem_filterMap.mp hy
        exact (hg a c x y ha hcy).trans (hk c hc)
      -- both ways of sorting the rest leave the same place for what is read off here
      obtain ⟨hfront, hback⟩ := split_unique (ih.trans hrest') (hkept hbefore) (hkept hbehind)
        hbefore' hbehind'
      rw [hcons', hfront, hback]

end

/-! ## Places

Paths are compared name by name. -/

/-- Of two lists of names one comes first. -/
theorem partsLe_total (p q : List String) : partsLe p q = true ∨ partsLe q p = true := by
  induction p generalizing q with
  | nil => exact .inl rfl
  | cons a p ih =>
    cases q with
    | nil => exact .inr rfl
    | cons b q =>
      rw [partsLe, partsLe]
      by_cases heq : a = b
      · rw [if_pos (beq_iff_eq.mpr heq), if_pos (beq_iff_eq.mpr heq.symm)]
        exact ih q
      · rw [if_neg fun h => heq (beq_iff_eq.mp h), if_neg fun h => heq (beq_iff_eq.mp h).symm]
        exact Text.charsLe_total _ _

/-- Their order goes from one to the next.  The first names that differ decide, and they may differ
    at another place in each of the two comparisons. -/
theorem partsLe_trans {p q r : List String} (hpq : partsLe p q = true) (hqr : partsLe q r = true) :
    partsLe p r = true := by
  induction p generalizing q r with
  | nil => rfl
  | cons a p ih =>
    cases q with
    | nil => exact absurd hpq (by simp [partsLe])
    | cons b q =>
      cases r with
      | nil => exact absurd hqr (by simp [partsLe])
      | cons c r =>
        rw [partsLe] at hpq hqr ⊢
        by_cases hab : a = b
        · subst hab
          rw [if_pos (beq_self_eq_true a)] at hpq
          by_cases hac : a = c
          · rw [if_pos (beq_iff_eq.mpr hac)] at hqr ⊢
            exact ih hpq hqr
          · rw [if_neg fun h => hac (beq_iff_eq.mp h)] at hqr ⊢
            exact hqr
        · rw [if_neg fun h => hab (beq_iff_eq.mp h)] at hpq
          by_cases hbc : b = c
          · subst hbc
            rw [if_neg fun h => hab (beq_iff_eq.mp h)]
            exact hpq
          · rw [if_neg fun h => hbc (beq_iff_eq.mp h)] at hqr
            -- two names that come before each other would be the same
            have hac : a ≠ c := by
              rintro rfl
              exact hab (String.toList_inj.mp (Text.charsLe_antisymm hpq hqr))
            rw [if_neg fun h => hac (beq_iff_eq.mp h)]
            exact Text.charsLe_trans hpq hqr

theorem le_total (p q : Location) : (p.le q || q.le p) = true :=
  Bool.or_eq_true .. ▸ partsLe_total p.parts q.parts

theorem le_trans (p q r : Location) (hpq : p.le q = true) (hqr : q.le r = true) : p.le r = true :=
  partsLe_trans hpq hqr

/-- Things in the order of their places. -/
def sortBy {α : Type} (place : α → Location) (l : List α) : List α :=
  l.mergeSort fun a b => (place a).le (place b)

/-- **What is found at sorted places** comes in their order, if it bears the place it was found at. -/
theorem filterMap_sort {α : Type} {place : α → Location} {find : Location → Option α}
    (hplace : ∀ p x, find p = some x → place x = p) (ps : List Location) :
    (sort ps).filterMap find = sortBy place (ps.filterMap find) := by
  unfold sort sortBy
  refine filterMap_mergeSort le_trans le_total (fun a b c => le_trans (place a) (place b) (place c))
    (fun a b => le_total (place a) (place b)) (fun p q x y hx hy => ?_) ps
  rw [hplace p x hx, hplace q y hy]

end RouteAtlas.Source.Location
