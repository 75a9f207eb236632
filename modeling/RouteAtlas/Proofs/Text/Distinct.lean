/-
  Names in order, each at its first appearance.

  ==== Problem ====

  The program drops repetitions from lists of names in several places: the placeholders of a path,
  the tags and middleware of an endpoint; and a dictionary does the same to the keys of its
  entries.  All of them are `List.eraseDups`.

  ==== Spec ====

  `Collected` says what comes of it without saying how: the same names, in the order of their first
  places, and so each once.

  ==== Proof ====

  A list grows at its end when names are collected, so the proofs take the last name off
  (`eraseDups_concat`): it is dropped if it stood there before, and comes last if it did not.
-/
import Mathlib.Data.List.Basic
import Mathlib.Data.List.Induction

namespace RouteAtlas

variable {α : Type} [BEq α] [LawfulBEq α]

/-! ## One more name -/

/-- One more name is appended unless it is there. -/
theorem eraseDups_concat (names : List α) (n : α) : (names ++ [n]).eraseDups
    = if n ∈ names then names.eraseDups else names.eraseDups ++ [n] := by
  rw [List.eraseDups_append, List.removeAll]
  by_cases hn : n ∈ names
  · rw [if_pos hn, List.filter_cons_of_neg (by simpa using hn), List.filter_nil, List.eraseDups_nil,
      List.append_nil]
  · rw [if_neg hn, List.filter_cons_of_pos (by simpa using hn), List.filter_nil]
    rfl

/-- Nothing is dropped where nothing is repeated. -/
theorem eraseDups_of_nodup {names : List α} (h : names.Nodup) : names.eraseDups = names := by
  induction names using List.reverseRecOn with
  | nil => rfl
  | append_singleton names n ih =>
    obtain ⟨hnames, -, hapart⟩ := List.nodup_append.mp h
    have hn : n ∉ names := fun hmem => hapart n hmem n (List.mem_singleton_self n) rfl
    rw [eraseDups_concat, if_neg hn, ih hnames]

/-- **Repetitions may be dropped before**: names behind others are collected as well from the list in
    which each of them stands once. -/
theorem eraseDups_append_eraseDups (kept names : List α) :
    (kept ++ names.eraseDups).eraseDups = (kept ++ names).eraseDups := by
  induction names using List.reverseRecOn with
  | nil => rfl
  | append_singleton names n ih =>
    rw [eraseDups_concat names, ← List.append_assoc, eraseDups_concat (kept ++ names)]
    by_cases hn : n ∈ names
    · rw [if_pos hn, if_pos (List.mem_append_right kept hn), ih]
    · have hsame : n ∈ kept ++ names.eraseDups ↔ n ∈ kept ++ names := by
        rw [List.mem_append, List.mem_append, List.mem_eraseDups]
      rw [if_neg hn, ← List.append_assoc, eraseDups_concat (kept ++ names.eraseDups), ih]
      exact if_congr hsame rfl rfl

/-! ## First places

The specification: the same names, ordered by where each of them comes first. -/

/-- What is collected is what was there, in the order of first places. -/
structure Collected (all names : List α) : Prop where
  mem_iff : ∀ n, n ∈ names ↔ n ∈ all
  ordered : names.Pairwise fun a b => all.idxOf a < all.idxOf b

omit [LawfulBEq α] in
/-- Two names with one first place are one name, so none is repeated. -/
theorem Collected.nodup {all names : List α} (h : Collected all names) : names.Nodup :=
  h.ordered.imp fun {a b} (hlt : all.idxOf a < all.idxOf b) (heq : a = b) =>
    absurd hlt (heq ▸ Nat.lt_irrefl _)

/-- **Dropping repetitions collects the names.** The induction is from the end, as a name is dropped
    if it occurs before. -/
theorem collected_eraseDups (all : List α) : Collected all all.eraseDups := by
  induction all using List.reverseRecOn with
  | nil => exact ⟨fun n => Iff.rfl, .nil⟩
  | append_singleton all n ih =>
    -- what was there before keeps its first place
    have hkept : all.eraseDups.Pairwise fun a b =>
        (all ++ [n]).idxOf a < (all ++ [n]).idxOf b := by
      refine ih.ordered.imp_of_mem fun {a b} ha hb hlt => ?_
      rw [List.idxOf_append_of_mem ((ih.mem_iff a).mp ha),
        List.idxOf_append_of_mem ((ih.mem_iff b).mp hb)]
      exact hlt
    refine ⟨fun m => List.mem_eraseDups, ?_⟩
    rw [eraseDups_concat]
    by_cases hn : n ∈ all
    · rw [if_pos hn]
      exact hkept
    · rw [if_neg hn]
      refine List.pairwise_append.mpr ⟨hkept, List.pairwise_singleton .., fun a ha b hb => ?_⟩
      obtain rfl := List.mem_singleton.mp hb
      have hmem := (ih.mem_iff a).mp ha
      rw [List.idxOf_append_of_mem hmem, List.idxOf_append_of_notMem hn]
      exact Nat.lt_of_lt_of_le (List.idxOf_lt_length_iff.mpr hmem) (Nat.le_add_right _ _)

end RouteAtlas
