/-
  The order of texts.

  ==== Program ====

  Texts are compared code point by code point, and one that is the beginning of another comes first.
  Names often have a place of their own that counts first, and are compared as texts where it is the
  same (`placeLe`).

  ==== Spec ====

  Any two texts can be compared (`charsLe_total`), the comparisons agree with each other
  (`charsLe_trans`), and only equal ones come before each other (`charsLe_antisymm`).  These are
  what a sort by comparison asks for, so that its outcome is in order and does not depend on how it
  sorts.

  For `placeLe` the same is shown from its two parts.  It is used wherever a list is sorted by a
  rank and then by name: folders of services, properties of an example.
-/
import Mathlib.Data.List.Basic
import RouteAtlas.Text.Rule

namespace RouteAtlas.Text

/-- Of two texts one comes first. -/
theorem charsLe_total (s t : List Char) : charsLe s t = true ∨ charsLe t s = true := by
  induction s generalizing t with
  | nil => exact .inl rfl
  | cons a s ih =>
    cases t with
    | nil => exact .inr rfl
    | cons b t =>
      rw [charsLe, charsLe]
      by_cases heq : a.toNat = b.toNat
      · rw [if_pos (beq_iff_eq.mpr heq), if_pos (beq_iff_eq.mpr heq.symm)]
        exact ih t
      · rw [if_neg fun h => heq (beq_iff_eq.mp h), if_neg fun h => heq (beq_iff_eq.mp h).symm,
          decide_eq_true_eq, decide_eq_true_eq]
        omega

/-- The order of texts goes from one to the next.  Letters are compared by their numbers. -/
theorem charsLe_trans {s t u : List Char} (hst : charsLe s t = true) (htu : charsLe t u = true) :
    charsLe s u = true := by
  induction s generalizing t u with
  | nil => rfl
  | cons a s ih =>
    cases t with
    | nil => exact absurd hst (by simp [charsLe])
    | cons b t =>
      cases u with
      | nil => exact absurd htu (by simp [charsLe])
      | cons c u =>
        -- the first letters decide unless all three are the same
        rw [charsLe] at hst htu ⊢
        split at hst
        · rename_i hab
          rw [beq_iff_eq] at hab
          rw [hab]
          split at htu
          · rename_i hbc
            rw [if_pos hbc]
            exact ih hst htu
          · rename_i hbc
            rw [if_neg hbc]
            exact htu
        · rename_i hab
          rw [decide_eq_true_eq] at hst
          split at htu
          · rename_i hbc
            rw [beq_iff_eq] at hbc
            rw [← hbc, if_neg hab]
            exact decide_eq_true hst
          · rw [decide_eq_true_eq] at htu
            have hac : a.toNat < c.toNat := Nat.lt_trans hst htu
            rw [if_neg fun h => Nat.ne_of_lt hac (beq_iff_eq.mp h)]
            exact decide_eq_true hac

/-- Texts that come before each other are the same. -/
theorem charsLe_antisymm {s t : List Char} (hst : charsLe s t = true) (hts : charsLe t s = true) :
    s = t := by
  induction s generalizing t with
  | nil =>
    cases t with
    | nil => rfl
    | cons b t => exact absurd hts (by simp [charsLe])
  | cons a s ih =>
    cases t with
    | nil => exact absurd hst (by simp [charsLe])
    | cons b t =>
      rw [charsLe] at hst hts
      by_cases heq : a.toNat = b.toNat
      · rw [if_pos (beq_iff_eq.mpr heq)] at hst
        rw [if_pos (beq_iff_eq.mpr heq.symm)] at hts
        rw [Char.toNat_inj.mp heq, ih hst hts]
      · rw [if_neg fun h => heq (beq_iff_eq.mp h), decide_eq_true_eq] at hst
        rw [if_neg fun h => heq (beq_iff_eq.mp h).symm, decide_eq_true_eq] at hts
        omega

/-! ## Order by place

Names are sorted by a place, and by name where the place is the same. -/

/-- By place, and by name where the place is the same. -/
def placeLe (place : String → Nat) (a b : String) : Bool :=
  if place a == place b then textLe a b else place a < place b

/-- Of two names one comes first. -/
theorem placeLe_total (place : String → Nat) (a b : String) :
    (placeLe place a b || placeLe place b a) = true := by
  rw [Bool.or_eq_true, placeLe, placeLe]
  by_cases heq : place a = place b
  · rw [if_pos (beq_iff_eq.mpr heq), if_pos (beq_iff_eq.mpr heq.symm)]
    exact charsLe_total _ _
  · rw [if_neg fun h => heq (beq_iff_eq.mp h), if_neg fun h => heq (beq_iff_eq.mp h).symm,
      decide_eq_true_eq, decide_eq_true_eq]
    omega

/-- A smaller place comes first, and in one place the smaller name. -/
theorem placeLe_iff {place : String → Nat} {a b : String} : placeLe place a b = true ↔
    place a < place b ∨ (place a = place b ∧ textLe a b = true) := by
  rw [placeLe]
  by_cases heq : place a = place b
  · rw [if_pos (beq_iff_eq.mpr heq)]
    exact ⟨fun h => .inr ⟨heq, h⟩, fun h => h.elim (fun hlt => absurd heq (Nat.ne_of_lt hlt)) (·.2)⟩
  · rw [if_neg fun h => heq (beq_iff_eq.mp h), decide_eq_true_eq]
    exact ⟨.inl, fun h => h.elim id fun h => absurd h.1 heq⟩

/-- The order goes from one name to the next. -/
theorem placeLe_trans {place : String → Nat} {a b c : String} (hab : placeLe place a b = true)
    (hbc : placeLe place b c = true) : placeLe place a c = true := by
  rw [placeLe_iff] at hab hbc ⊢
  rcases hab with hab | ⟨hab, hnames⟩
  · rcases hbc with hbc | ⟨hbc, -⟩
    · exact .inl (Nat.lt_trans hab hbc)
    · exact .inl (hbc ▸ hab)
  · rcases hbc with hbc | ⟨hbc, hnames'⟩
    · exact .inl (hab ▸ hbc)
    · exact .inr ⟨hab.trans hbc, charsLe_trans hnames hnames'⟩

end RouteAtlas.Text
