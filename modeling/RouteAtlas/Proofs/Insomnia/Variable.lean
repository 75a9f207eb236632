/-
  The variables of an environment over many merges.

  ==== Problem ====

  Whoever uses an export fills in variables that a synthesis leaves open, a token for
  example.  Later merges must not empty them again, and a value that the project has set in the
  meantime has to win.

  ==== Program ====

  `mergeData` sets the fresh variables one by one; one that is left open replaces nothing.

  ==== Spec ====

  After any number of merges a variable has the most recent value that was not left open
  (`latest?`).  Where there was none it has the value it had in the beginning, and where it had none
  then either, it is left open as soon as some fresh export names it (`valueAfter`).

  ==== The crux ====

  What a later merge finds is what an earlier one left, and it may have been left open: so the value
  in the beginning only counts as long as nothing else was given, and being left open only where
  there was nothing in the beginning (`valueAfter_cons`).
-/
import RouteAtlas.Proofs.Insomnia.First
import RouteAtlas.Proofs.Json.Table

namespace RouteAtlas.Insomnia

/-! ## One merge

The step, for a single variable: a fresh value replaces the old one unless it is an empty text and
the old one is not missing. -/

/-- A fresh value over a persisted one, each of which may be missing. -/
def valueOver : Option Json → Option Json → Option Json
  | none, old => old
  | some value, old => if isOpen value then old.or (some value) else some value

/-- Merging a variable gives the fresh value over the persisted one. -/
theorem get?_mergeVariable (data : Dict Json) (name : String) (value : Json) :
    Dict.get? (mergeVariable data name value) name = valueOver (some value) (Dict.get? data name) := by
  rw [mergeVariable, valueOver, Dict.has]
  show Dict.get? (if isOpen value && (Dict.get? data name).isSome then _ else _) name = _
  cases isOpen value with
  | false => exact Dict.get?_put_self ..
  | true =>
    cases hold : Dict.get? data name with
    | none => exact Dict.get?_put_self ..
    | some old => exact hold

theorem get?_mergeData {fresh : Dict Json} (hfresh : (Dict.keys fresh).Nodup) (data : Dict Json)
    (name : String) : Dict.get? (mergeData fresh data) name
      = valueOver (Dict.get? fresh name) (Dict.get? data name) := by
  induction fresh generalizing data with
  | nil => rfl
  | cons e fresh ih =>
    obtain ⟨name', value⟩ := e
    obtain ⟨hno, hrest⟩ := List.nodup_cons.mp hfresh
    rw [mergeData_cons, ih hrest, Dict.get?_cons]
    by_cases heq : name = name'
    · subst heq
      rw [Dict.get?_eq_none_iff.mpr hno, if_pos (beq_self_eq_true name)]
      exact get?_mergeVariable data name value
    · rw [if_neg (by simpa using heq), get?_mergeVariable_of_ne heq]

/-! ## Many merges

The run: of all fresh values that are not left open the most recent one counts. -/

/-- The value of a variable in a fresh export, if it is not left open. -/
def given? (fresh : Dict Json) (name : String) : Option Json :=
  (Dict.get? fresh name).filter fun value => !isOpen value

/-- The most recent value of a variable that is not left open. -/
def latest? (freshes : List (Dict Json)) (name : String) : Option Json :=
  (freshes.filterMap fun fresh => given? fresh name).getLast?

/-- The value of a variable after merging: the most recent one, else the old one, else an empty one
    where a fresh export has the variable. -/
def valueAfter (old : Dict Json) (freshes : List (Dict Json)) (name : String) : Option Json :=
  (latest? freshes name).or ((Dict.get? old name).or
    (if freshes.any (Dict.has · name) then some (.str "") else none))

/-- What is merged, one after the other. -/
def mergeAll (freshes : List (Dict Json)) (data : Dict Json) : Dict Json :=
  freshes.foldl (fun data fresh => mergeData fresh data) data

/-- The most recent value is one of the later ones, if these have any. -/
theorem latest?_cons (fresh : Dict Json) (later : List (Dict Json)) (name : String) :
    latest? (fresh :: later) name = (latest? later name).or (given? fresh name) := by
  rw [latest?, latest?, List.filterMap_cons]
  cases given? fresh name with
  | none => exact Option.or_none.symm
  | some value =>
    rw [List.getLast?_cons]
    cases (later.filterMap fun fresh => given? fresh name).getLast? <;> rfl

/-- A variable that is left open is an empty text. -/
def OpensEmpty (fresh : Dict Json) : Prop :=
  ∀ name value, Dict.get? fresh name = some value → isOpen value = true → value = .str ""

/-- The first merge may be done in advance.  It is the step of the run over merges: what is folded
    into the old variables may be taken off the list of fresh ones. -/
theorem valueAfter_cons {fresh : Dict Json} (hnodup : (Dict.keys fresh).Nodup)
    (hopen : OpensEmpty fresh) (old : Dict Json) (later : List (Dict Json)) (name : String) :
    valueAfter old (fresh :: later) name = valueAfter (mergeData fresh old) later name := by
  rw [valueAfter, valueAfter, latest?_cons, get?_mergeData hnodup, Option.or_assoc, List.any_cons,
    Dict.has, given?]
  refine congrArg _ ?_
  show ((Dict.get? fresh name).filter _).or _ = _
  have hhas : (List.lookup name fresh).isSome = (Dict.get? fresh name).isSome := rfl
  rw [hhas]
  cases hvalue : Dict.get? fresh name with
  | none => rfl
  | some value =>
    cases hopened : isOpen value with
    | false =>
      -- a value is given: nothing from before counts
      rw [valueOver, hopened, if_neg Bool.false_ne_true, Option.filter_some, hopened]
      rfl
    | true =>
      -- it is left open: what was there before counts, and if there was nothing, it is empty now
      obtain rfl := hopen name value hvalue hopened
      rw [valueOver, hopened, if_pos rfl, Option.filter_some, hopened, Option.isSome_some, Bool.true_or,
        if_pos rfl, if_neg (by decide), Option.none_or, Option.or_assoc]
      rfl

/-- **Variables after many merges.** -/
theorem get?_mergeAll {freshes : List (Dict Json)} (hnodup : ∀ f ∈ freshes, (Dict.keys f).Nodup)
    (hopen : ∀ f ∈ freshes, OpensEmpty f) (old : Dict Json) (name : String) :
    Dict.get? (mergeAll freshes old) name = valueAfter old freshes name := by
  induction freshes generalizing old with
  | nil =>
    rw [valueAfter]
    exact Option.or_none.symm
  | cons fresh later ih =>
    have hfresh : fresh ∈ fresh :: later := List.mem_cons_self ..
    rw [valueAfter_cons (hnodup fresh hfresh) (hopen fresh hfresh)]
    exact ih (fun f hf => hnodup f (List.mem_cons_of_mem _ hf))
      (fun f hf => hopen f (List.mem_cons_of_mem _ hf)) (mergeData fresh old)

/-- The variables of a fresh export are texts. -/
theorem opensEmpty_environmentData (settings : Settings) : OpensEmpty (environmentData settings) := by
  intro name value hget hopen
  have htext : ∃ text, value = .str text := by
    rcases Dict.mem_putAll (Dict.mem_of_get? hget) with hmem | ⟨name', hmem, -⟩
    · rcases List.mem_cons.mp hmem with heq | hmem
      · exact ⟨_, (Prod.mk.inj heq).2⟩
      · exact ⟨_, (Prod.mk.inj (List.mem_singleton.mp hmem)).2⟩
    · obtain ⟨service, -, heq⟩ := List.mem_map.mp hmem
      exact ⟨_, (Prod.mk.inj heq).2.symm⟩
  obtain ⟨text, rfl⟩ := htext
  unfold isOpen at hopen
  split at hopen
  · rename_i hnull
    exact absurd hnull (by simp)
  · assumption
  · exact absurd hopen Bool.false_ne_true

end RouteAtlas.Insomnia
