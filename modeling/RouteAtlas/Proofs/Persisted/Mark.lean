/-
  The mark of a deprecated request.

  ==== Program ====

  Marking puts the mark in front of a name that does not have it yet, so a marked name is left as
  it is (`deprecated_of_marked`) and marking is done once.  A name that is missing in any way, or
  empty, becomes the bare mark.

  ==== Spec ====

  Every merge marks what is gone, so a request that stays gone is marked by every merge of a run.
  What the run says of it rests on two facts: a marked name is marked (`isMarked_put`), and marking
  it again gives the same name.  Only a name that is a text, or missing, can be marked at all; any
  other one ends the merge (`deprecated_eq_ok_iff`).
-/
import RouteAtlas.Persisted.Key
import RouteAtlas.Proofs.Json.Dictionary

namespace RouteAtlas.Persisted

/-- Does the field `name` begin with the mark? -/
def isMarked (fields : Dict Json) : Bool :=
  match Dict.get? fields "name" with
  | some (.str name) => Text.startsWith deprecationMark name
  | _ => false

/-- A text begins with what is put in front of it. -/
theorem startsWith_append (head tail : String) : Text.startsWith head (head ++ tail) = true := by
  rw [Text.startsWith, String.toList_append]
  exact List.isPrefixOf_iff_prefix.mpr (List.prefix_append _ _)

/-- A marked name begins with the mark. -/
theorem startsWith_deprecatedName (name : String) :
    Text.startsWith deprecationMark (deprecatedName name) = true := by
  rw [deprecatedName]
  split
  · assumption
  · rw [String.append_assoc]
    exact startsWith_append _ _

/-- A name that begins with the mark is not marked again. -/
theorem deprecatedName_of_startsWith {name : String}
    (h : Text.startsWith deprecationMark name = true) : deprecatedName name = name := if_pos h

/-- What the mark is put on is a text, or missing in any way. -/
theorem deprecated_eq_ok_iff {name : Option Json} {j : Json} : deprecated name = .ok j ↔
    ∃ s, Json.orElse name (some (.str "")) = .str s ∧ j = .str (deprecatedName s) := by
  rw [deprecated]
  constructor
  · intro h
    split at h
    · rename_i s hs
      exact ⟨s, hs, (Except.ok.inj h).symm⟩
    · exact absurd h (by simp)
  · rintro ⟨s, hs, rfl⟩
    rw [hs]

theorem ne_empty_of_startsWith {name : String} (h : Text.startsWith deprecationMark name = true) :
    name ≠ "" := by
  rintro rfl
  exact absurd h (by decide)

/-- Marking again changes nothing. -/
theorem deprecated_of_marked {name : Option Json} {j : Json} (h : deprecated name = .ok j) :
    deprecated (some j) = .ok j := by
  obtain ⟨s, -, rfl⟩ := deprecated_eq_ok_iff.mp h
  have hs := startsWith_deprecatedName s
  refine deprecated_eq_ok_iff.mpr ⟨deprecatedName s, ?_, ?_⟩
  · rw [Json.orElse, Json.truthy, if_pos (bne_iff_ne.mpr (ne_empty_of_startsWith hs))]
  · rw [deprecatedName_of_startsWith hs]

/-- A request that got its marked name is marked. -/
theorem isMarked_put {name : Option Json} {j : Json} (h : deprecated name = .ok j)
    (fields : Dict Json) : isMarked (Dict.put fields "name" j) = true := by
  obtain ⟨s, -, rfl⟩ := deprecated_eq_ok_iff.mp h
  rw [isMarked, Dict.get?_put_self]
  exact startsWith_deprecatedName s

end RouteAtlas.Persisted
