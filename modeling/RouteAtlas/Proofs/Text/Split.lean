/-
  Texts that are cut at a separator.

  ==== Program ====

  Cutting goes from the end: a separator begins a new part, and any other character goes to the
  first part of what follows (`splitAt_cons_of_not`).

  ==== Spec ====

  A separator parts a text in two, whatever stands around it (`splitAt_append`), and texts without
  separators are read back when one is put between them (`splitAt_intercalate`).  The second is what
  most uses need: a path is written from its segments, and an entry from its names, and what was
  written has to be found again.  There is always at least one part (`splitAt_ne_nil`), so that
  nothing has to be said about the first one separately.
-/
import Mathlib.Data.List.Basic
import RouteAtlas.Text.Rule

namespace RouteAtlas.Text

/-! ## Parts -/

/-- There is at least one part. -/
theorem splitAt_ne_nil (p : Char → Bool) (cs : List Char) : splitAt p cs ≠ [] := by
  cases cs with
  | nil => exact List.cons_ne_nil _ _
  | cons c cs =>
    rw [splitAt]
    split
    · exact List.cons_ne_nil _ _
    · split <;> exact List.cons_ne_nil _ _

/-- A character that does not separate goes to the first part. -/
theorem splitAt_cons_of_not {p : Char → Bool} {c : Char} (h : ¬p c = true) (cs : List Char) :
    ∃ s rest, splitAt p cs = s :: rest ∧ splitAt p (c :: cs) = (c :: s) :: rest := by
  obtain ⟨s, rest, hparts⟩ := List.exists_cons_of_ne_nil (splitAt_ne_nil p cs)
  refine ⟨s, rest, hparts, ?_⟩
  rw [splitAt, if_neg h, hparts]

variable {sep : Char}

/-- A separator in front begins a new part. -/
theorem splitAt_cons_sep (cs : List Char) :
    splitAt (· == sep) (sep :: cs) = [] :: splitAt (· == sep) cs := by
  rw [splitAt, if_pos (beq_self_eq_true sep)]

/-- Without a separator there is one part. -/
theorem splitAt_of_not_mem {s : List Char} (h : sep ∉ s) : splitAt (· == sep) s = [s] := by
  induction s with
  | nil => rfl
  | cons c s ih =>
    rw [List.mem_cons, not_or] at h
    have hc : ¬(c == sep) = true := fun heq => h.1 (eq_of_beq heq).symm
    rw [splitAt, if_neg hc, ih h.2]

/-- **A separator parts a text in two.** -/
theorem splitAt_append (s cs : List Char) : splitAt (· == sep) (s ++ sep :: cs)
    = splitAt (· == sep) s ++ splitAt (· == sep) cs := by
  induction s with
  | nil => exact splitAt_cons_sep cs
  | cons c s ih =>
    by_cases hc : (c == sep) = true
    · obtain rfl := eq_of_beq hc
      rw [List.cons_append, splitAt_cons_sep, splitAt_cons_sep, ih, List.cons_append]
    · obtain ⟨first, rest, hs, hparts⟩ := splitAt_cons_of_not (p := (· == sep)) hc s
      obtain ⟨first', rest', hs', hparts'⟩ :=
        splitAt_cons_of_not (p := (· == sep)) hc (s ++ sep :: cs)
      rw [ih, hs, List.cons_append, List.cons.injEq] at hs'
      rw [List.cons_append, hparts', hparts, ← hs'.1, ← hs'.2, List.cons_append]

/-! ## Texts with separators between them

Writing parts with separators between them and cutting the text again are inverse, as long as no
part has the separator in it. -/

/-- **Texts that a separator is put between are read back.** -/
theorem splitAt_intercalate {texts : List (List Char)} (hne : texts ≠ [])
    (h : ∀ s ∈ texts, sep ∉ s) : splitAt (· == sep) ([sep].intercalate texts) = texts := by
  induction texts with
  | nil => exact absurd rfl hne
  | cons s texts ih =>
    have hs := splitAt_of_not_mem (h s (List.mem_cons_self ..))
    cases texts with
    | nil => simpa [List.intercalate] using hs
    | cons t texts =>
      have hrest := ih (List.cons_ne_nil _ _) fun u hu => h u (List.mem_cons_of_mem _ hu)
      rw [List.intercalate_cons_cons, List.append_assoc, List.singleton_append, splitAt_append, hs,
        hrest, List.singleton_append]

/-- A character of texts with a separator between is the separator or in one of them. -/
theorem mem_intercalate {c : Char} {texts : List (List Char)}
    (h : c ∈ [sep].intercalate texts) : c = sep ∨ ∃ s ∈ texts, c ∈ s := by
  induction texts with
  | nil => exact absurd h (by simp [List.intercalate])
  | cons s texts ih =>
    cases texts with
    | nil => exact .inr ⟨s, List.mem_cons_self .., by simpa [List.intercalate] using h⟩
    | cons t texts =>
      rw [List.intercalate_cons_cons, List.append_assoc, List.mem_append, List.singleton_append,
        List.mem_cons] at h
      rcases h with h | h | h
      · exact .inr ⟨s, List.mem_cons_self .., h⟩
      · exact .inl h
      · exact (ih h).imp_right fun ⟨u, hu, hc⟩ => ⟨u, List.mem_cons_of_mem _ hu, hc⟩

/-! ## Texts and their characters -/

/-- Characters that were made texts are read back. -/
theorem map_toList_ofList (texts : List (List Char)) :
    (texts.map String.ofList).map String.toList = texts := by
  rw [List.map_map]
  exact (List.map_congr_left fun cs _ => String.toList_ofList).trans (List.map_id _)

/-- Texts are made of their characters. -/
theorem map_ofList_toList (texts : List String) :
    (texts.map String.toList).map String.ofList = texts := by
  rw [List.map_map]
  exact (List.map_congr_left fun s _ => String.ofList_toList).trans (List.map_id _)

end RouteAtlas.Text
