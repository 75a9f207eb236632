/-
  The order of a collection's top level.

  ==== Problem ====

  The folders of configured services come first, in the order of the configuration, and all others
  behind them by name.  A folder is a service's if it is called like the service, whatever the case.

  ==== Program ====

  Every folder is given a rank, the last place of its name among the services; what has none is
  given the number of ranks.  Then the folders are sorted by rank and name.

  ==== Spec ====

  `pairwise_follows`: of two items, the one in front has its place before the other
  (`Follows`).  Where the names of services differ without regard to case, ranks are the places in
  the configuration (`rank_eq`), and the sort is one by places.

  ==== The crux ====

  The ranks are looked up in a dictionary, in which the last of two names that differ in case only
  replaces the first.  `serviceOrder` is the list of names as they are looked up; where it has no
  repetitions, a dictionary of numbered names gives each its index.
-/
import Mathlib.Data.List.Basic
import RouteAtlas.Postman.Document
import RouteAtlas.Proofs.Json.Dictionary
import RouteAtlas.Proofs.Text.Order

namespace RouteAtlas.Postman

open Text (placeLe placeLe_iff placeLe_total placeLe_trans)

/-! ## Places of services

Services are ordered as in the configuration.  The program looks up their places in a table, in
which two names are one if they differ in case only. -/

/-- The names of services as folders are compared with them. -/
def serviceOrder (apps : List String) : List String := apps.map fun a => Text.lower (Label.clean a)

/-- The place of a name among names that are numbered: its first occurrence. -/
theorem get?_zipIdx (names : List String) (first : Nat) (n : String) :
    Dict.get? (names.zipIdx first) n = if n ∈ names then some (first + names.idxOf n) else none := by
  induction names generalizing first with
  | nil => rfl
  | cons m names ih =>
    rw [List.zipIdx_cons, Dict.get?_cons, ih, List.idxOf_cons]
    by_cases hm : n = m
    · subst hm
      simp
    · have hne : (n == m) = false := beq_false_of_ne hm
      have hne' : (m == n) = false := beq_false_of_ne (Ne.symm hm)
      rw [hne, hne', if_neg Bool.false_ne_true, cond_false]
      by_cases hmem : n ∈ names
      · rw [if_pos hmem, if_pos (List.mem_cons_of_mem _ hmem), Nat.add_assoc, Nat.add_comm 1]
      · rw [if_neg hmem, if_neg fun h => (List.mem_cons.mp h).elim hm hmem]

/-- **The rank of a name** is its place among services whose names differ whatever the case; what is
    no service's name comes behind them. -/
theorem rank_eq {apps : List String} (h : (serviceOrder apps).Nodup) (n : String) :
    (Dict.get? (ranks apps) n).getD (ranks apps).length = (serviceOrder apps).idxOf n := by
  have hranks : ranks apps = (serviceOrder apps).zipIdx := by
    refine Dict.ofList_eq_self ?_
    show (((serviceOrder apps).zipIdx).map Prod.fst).Nodup
    rw [List.zipIdx_map_fst]
    exact h
  rw [hranks, get?_zipIdx, List.length_zipIdx]
  by_cases hmem : n ∈ serviceOrder apps
  · rw [if_pos hmem, Option.getD_some, Nat.zero_add]
  · rw [if_neg hmem, Option.getD_none, List.idxOf_eq_length_iff.mpr hmem]

/-! ## The order of folders

Folders of services come before all others.  Folders of no service keep their order among
themselves. -/

/-- The name `a` may come before `b` among services in the given order: names are compared without
    regard to case. -/
inductive Follows (order : List String) (a b : String) : Prop
  /-- A service comes before all that is none. -/
  | service (ha : Text.lower a ∈ order) (hb : Text.lower b ∉ order)
  /-- Services come in their order. -/
  | configured (ha : Text.lower a ∈ order) (hb : Text.lower b ∈ order)
      (h : order.idxOf (Text.lower a) < order.idxOf (Text.lower b))
  /-- Names of one service come by name. -/
  | alike (ha : Text.lower a ∈ order) (h : Text.lower a = Text.lower b) (hname : Text.textLe a b = true)
  /-- All others come by name. -/
  | other (ha : Text.lower a ∉ order) (hb : Text.lower b ∉ order) (hname : Text.textLe a b = true)

/-- Places among services are what `Follows` asks for. -/
theorem follows_of_placeLe {order : List String} {a b : String}
    (h : placeLe (fun n => order.idxOf (Text.lower n)) a b = true) : Follows order a b := by
  rw [placeLe_iff] at h
  by_cases ha : Text.lower a ∈ order
  · rcases h with hlt | ⟨heq, hname⟩
    · by_cases hb : Text.lower b ∈ order
      · exact .configured ha hb hlt
      · exact .service ha hb
    · exact .alike ha ((List.idxOf_inj ha).mp heq) hname
  · -- what is no service's has the last place
    have hlast := List.idxOf_eq_length_iff.mpr ha
    have hle : order.idxOf (Text.lower b) ≤ order.length := List.idxOf_le_length
    rcases h with hlt | ⟨heq, hname⟩
    · omega
    · exact .other ha (List.idxOf_eq_length_iff.mp (heq.symm.trans hlast)) hname

/-- Two elements, sorted. -/
theorem mergeSort_pair {α : Type} (le : α → α → Bool) (a b : α) :
    [a, b].mergeSort le = if le a b then [a, b] else [b, a] := by
  simp [List.mergeSort, List.MergeSort.Internal.splitInTwo, List.merge]

/-- Whatever the services are, the names are sorted by rank. -/
theorem names_inServiceOrder {apps : List String} (hsome : apps ≠ []) (items : List Item) :
    (inServiceOrder apps items).map itemName = (items.map itemName).mergeSort
      (placeLe fun n => (Dict.get? (ranks apps) (Text.lower n)).getD (ranks apps).length) := by
  rw [inServiceOrder, if_neg fun hnil => hsome (List.isEmpty_iff.mp hnil)]
  exact List.map_mergeSort fun _ _ _ _ => rfl

/-- **The folders of services come first**, in the order of the configuration, and the others behind
    them by name. -/
theorem pairwise_follows {apps : List String} (hsome : apps ≠ []) (h : (serviceOrder apps).Nodup)
    (items : List Item) :
    ((inServiceOrder apps items).map itemName).Pairwise (Follows (serviceOrder apps)) := by
  have hplace : (fun n => (Dict.get? (ranks apps) (Text.lower n)).getD (ranks apps).length)
      = fun n => (serviceOrder apps).idxOf (Text.lower n) := funext fun n => rank_eq h (Text.lower n)
  rw [names_inServiceOrder hsome, hplace]
  have hsorted := @List.pairwise_mergeSort String
    (placeLe fun n => (serviceOrder apps).idxOf (Text.lower n))
    (fun _ _ _ => placeLe_trans) (placeLe_total _) (items.map itemName)
  exact hsorted.imp follows_of_placeLe

end RouteAtlas.Postman
