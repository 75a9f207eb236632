/-
  The environments of an export over many merges.

  ==== Problem ====

  Users keep several environments beside the base one, and fill in values that a synthesis leaves
  open.  Every merge picks the base environment anew, finds it again by its identifier, and decides
  about each of the others whether it passes through.

  ==== Program ====

  `merges` merges one synthesized export after the other, each with a wish of its own whether to keep
  what is gone.

  ==== Spec ====

  Let the first export have one workspace and identifiers that are all different, and let no fresh
  export use the identifier of an environment for another resource.  Then after any number of merges
  (`merges_environments`)

  * the environments are those of the beginning, and all but the base one are as they were;
  * the base environment has the identifier that it had, and its variables are those of the
    beginning and of all fresh exports, with the values of `valueAfter`.

  ==== The crux ====

  One merge keeps what it needs (`Environs`): the merged base environment comes first and names the
  workspace as its parent, so it is the base environment again; and no other resource gets the
  identifier of an environment, since what a merge takes identifiers from are resources that are no
  environments (`Parts.origin`).
-/
import RouteAtlas.Proofs.Insomnia.Merged
import RouteAtlas.Proofs.Insomnia.Run
import RouteAtlas.Proofs.Insomnia.Variable

namespace RouteAtlas.Insomnia

open Persisted (Fault bind_eq_ok_iff)
open Resource (isA ofKind fieldOrNull)

/-! ## Identifiers of their own

Environments are found by identifier.  As long as identifiers differ, one identifier means one
environment. -/

section

variable {rs : List Resource} (h : DistinctIds rs)
include h

/-- Resources with identifiers of their own are listed once each. -/
theorem DistinctIds.nodup : rs.Nodup := by
  have hself : ∀ r ∈ rs, (fieldOrNull r "_id" == fieldOrNull r "_id") = true := fun r hr => h.beq_self hr
  refine h.differ.imp_of_mem fun {r s} hr _ hne => ?_
  rintro rfl
  exact absurd ((hself r hr).symm.trans hne) (by decide)

end

/-! ## The environments of one export

What has to hold of a persisted export so that its environments can be followed: one workspace, a
base environment below it, and no identifier that belongs to something else as well. -/

/-- The variables of an environment as a merge reads them. -/
def storedVariables (e : Resource) : Except Fault (Dict Json) :=
  Persisted.fieldsOf (Json.orElse (Dict.get? e "data") (some (.obj [])))

/-- An export with one workspace, a base environment and others, all told apart, and apart from what
    is no environment. -/
structure Environs (rs : List Resource) (base : Resource) (others : List Resource) : Prop where
  workspace : ∃ w i, ofKind "workspace" rs = [w] ∧ Dict.get? w "_id" = some i ∧ (i == i) = true
  base_eq : baseEnvironment? rs = some base
  environments : (ofKind "environment" rs).Perm (base :: others)
  distinct : DistinctIds (ofKind "environment" rs)
  apart : ∀ e ∈ ofKind "environment" rs, (fieldOrNull e "_id").kind.isKey = true → ∀ r ∈ rs,
    isA "environment" r = false → (fieldOrNull e "_id" == fieldOrNull r "_id") = false

/-- A fresh export uses the identifiers of the environments for no other resource. -/
def LeavesIds (environments : List Resource) (settings : Settings) (endpoints : List Endpoint) : Prop :=
  ∀ f ∈ resources settings endpoints, isA "environment" f = false → ∀ e ∈ environments,
    (fieldOrNull e "_id" == fieldOrNull f "_id") = false

instance (environments : List Resource) (settings : Settings) (endpoints : List Endpoint) :
    Decidable (LeavesIds environments settings endpoints) :=
  inferInstanceAs (Decidable (∀ f ∈ resources settings endpoints, isA "environment" f = false →
    ∀ e ∈ environments, (fieldOrNull e "_id" == fieldOrNull f "_id") = false))

/-- Where all identifiers are different, so are these. -/
theorem environs_of_distinctIds {rs : List Resource} (hids : DistinctIds rs) {w : Resource}
    (hworkspace : ofKind "workspace" rs = [w]) (hsome : ofKind "environment" rs ≠ []) :
    ∃ base others, Environs rs base others := by
  obtain ⟨base, hbase⟩ := exists_baseEnvironment? hsome
  obtain ⟨first, later, hsplit⟩ := List.append_of_mem (mem_of_baseEnvironment? hbase)
  have hw : w ∈ rs := by
    have hmem : w ∈ ofKind "workspace" rs := hworkspace ▸ List.mem_singleton_self w
    exact (List.mem_filter.mp hmem).1
  obtain ⟨i, hi, hself⟩ := hids.has w hw
  refine ⟨base, first ++ later, ⟨w, i, hworkspace, hi, hself⟩, hbase, hsplit ▸ List.perm_middle,
    hids.ofKind _, fun e he hkey r hr hkind => Bool.eq_false_iff.mpr fun heq => ?_⟩
  obtain ⟨he, henv⟩ := List.mem_filter.mp he
  obtain rfl := hids.eq_of_beq he hr hkey heq
  exact absurd (henv.symm.trans hkind) (by decide)

/-! ## One merge

The step.  The base environment takes the variables of the fresh one and keeps what was filled in;
all others pass through as they are. -/

section

variable {settings : Settings} {endpoints : List Endpoint} {existing merged : List Resource}
  {mark : Bool} {base : Resource} {others : List Resource}
  (parts : Parts settings endpoints existing mark merged) (h : Environs existing base others)

include h in
/-- The base environment is the persisted one under the fresh one. -/
theorem Environs.environment_eq : Dict.get? base "_id"
      = some (newName parts.known.names (environmentId settings)) ∧
    mergeEnvironment (environmentAt settings (newName parts.known.names (environmentId settings))
      (parts.id [])) base = .ok parts.environment :=
  parts.environment_merged h.distinct h.base_eq

include h in
/-- The base environment keeps its persisted identifier. -/
theorem Environs.environment_id : Dict.get? parts.environment "_id" = Dict.get? base "_id" :=
  get?_mergeEnvironment (h.environment_eq parts).2 (by decide)

variable (hfresh : LeavesIds (ofKind "environment" existing) settings endpoints)

include parts h hfresh in
/-- No other resource gets the identifier of an environment. -/
theorem Environs.apart_merged {e : Resource} (he : e ∈ ofKind "environment" existing) {r : Resource}
    (hr : r ∈ merged) (hkind : isA "environment" r = false) :
    (fieldOrNull e "_id" == fieldOrNull r "_id") = false := by
  rcases parts.origin hr hkind with ⟨s, hs, hskind, hid⟩ | ⟨f, hf, hfkind, hid⟩
  · rw [← hid]
    exact h.apart e he (parts.environment_keys e he) s hs hskind
  · rw [← hid]
    exact hfresh f hf hfkind e he

include h in
/-- An environment beside the base one is persisted, and another one. -/
theorem Environs.mem_others {e : Resource} (he : e ∈ others) :
    e ∈ ofKind "environment" existing ∧ e ≠ base := by
  refine ⟨h.environments.mem_iff.mpr (List.mem_cons_of_mem _ he), ?_⟩
  rintro rfl
  exact (List.nodup_cons.mp (h.environments.nodup_iff.mp h.distinct.nodup)).1 he

include h hfresh in
/-- **All other environments pass through**, and the persisted base environment does not.  An
    environment is missing from the merged part unless its identifier is there, and there it could
    only be that of the base one. -/
theorem Environs.passing : ((ofKind "environment" existing).filter parts.isMissing).Perm others := by
  have hbase := mem_of_baseEnvironment? h.base_eq
  have hsame : fieldOrNull parts.environment "_id" = fieldOrNull base "_id" := by
    rw [fieldOrNull, fieldOrNull, h.environment_id parts]
  -- the base environment is there already, merged
  have hkept : ¬parts.isMissing base = true := by
    rw [Parts.isMissing, Bool.not_eq_true', Bool.not_eq_false, List.contains_eq_any_beq,
      List.any_eq_true]
    refine ⟨fieldOrNull parts.environment "_id", ?_, by rw [hsame, h.distinct.beq_self hbase]⟩
    exact List.mem_map_of_mem (List.mem_append_left _ (List.mem_cons_of_mem _ (List.mem_cons_self ..)))
  -- the identifier of another one would have to be that of something merged
  have hothers : ∀ e ∈ others, parts.isMissing e = true := by
    intro e he
    obtain ⟨hmem, hne⟩ := h.mem_others he
    rw [Parts.isMissing, Bool.not_eq_true', List.contains_eq_any_beq, List.any_eq_false]
    intro i hi
    obtain ⟨r, hr, rfl⟩ := List.mem_map.mp hi
    rw [Bool.not_eq_true]
    cases hkind : isA "environment" r with
    | false => exact h.apart_merged parts hfresh hmem (parts.eq_front ▸ List.mem_append_left _ hr) hkind
    | true =>
      have honly : r ∈ ofKind "environment" parts.front := List.mem_filter.mpr ⟨hr, hkind⟩
      rw [parts.front_environments] at honly
      obtain rfl := List.mem_singleton.mp honly
      rw [hsame]
      refine Bool.eq_false_iff.mpr fun heq => hne ?_
      exact h.distinct.eq_of_beq hmem hbase (parts.environment_keys e hmem) heq
  have hfilter := h.environments.filter parts.isMissing
  rwa [List.filter_cons_of_neg hkept, List.filter_eq_self.mpr hothers] at hfilter

include h in
/-- The variables of the base environment are merged. -/
theorem Environs.variables_merged : ∃ old, storedVariables base = .ok old ∧
    storedVariables parts.environment = .ok (mergeData (environmentData settings) old) := by
  obtain ⟨old, data, hold, hdata, heq⟩ := mergeEnvironment_eq_ok_iff.mp (h.environment_eq parts).2
  obtain rfl : environmentData settings = data := by
    have hfield : Dict.get? (environmentAt settings (newName parts.known.names (environmentId settings))
        (parts.id [])) "data" = some (.obj (environmentData settings)) := rfl
    rw [variablesOf, hfield, orElse_obj] at hdata
    exact Except.ok.inj hdata
  refine ⟨old, hold, ?_⟩
  have hfield : Dict.get? parts.environment "data"
      = some (.obj (mergeData (environmentData settings) old)) := by
    rw [heq]
    exact Dict.get?_put_self ..
  rw [storedVariables, hfield, orElse_obj]
  rfl

include h hfresh in
/-- **One merge** keeps the environments apart, and changes the base one only.

    The merged base environment keeps its identifier and the others are taken over, so distinctness
    and being apart are those of the persisted ones. -/
theorem Environs.step : Environs merged parts.environment others := by
  obtain ⟨w, i, hworkspace, hi, hself⟩ := h.workspace
  have hroot : Dict.get? w "_id" = some (parts.id []) := by
    refine placeId_root parts.names ?_
    rw [hworkspace]
    rfl
  obtain rfl : i = parts.id [] := Option.some.inj (hi.symm.trans hroot)
  have hbase := mem_of_baseEnvironment? h.base_eq
  have hid := h.environment_id parts
  have hsame : fieldOrNull parts.environment "_id" = fieldOrNull base "_id" := by
    rw [fieldOrNull, fieldOrNull, hid]
  have hpassing := h.passing parts hfresh
  constructor
  case workspace => exact ⟨_, parts.id [], parts.workspaces, rfl, hself⟩
  -- it comes first and names the workspace, so it is the base environment again
  case base_eq => exact parts.baseEnvironment hself
  case environments =>
    rw [parts.environments]
    exact hpassing.cons _
  case distinct =>
    rw [parts.environments]
    refine ⟨fun e he => ?_, List.pairwise_cons.mpr ⟨fun e he => Bool.eq_false_iff.mpr fun heq => ?_, ?_⟩⟩
    · rcases List.mem_cons.mp he with rfl | he
      · exact hid ▸ h.distinct.has base hbase
      · exact h.distinct.has e (List.mem_filter.mp he).1
    · -- it has the persisted base environment's identifier, and that is not passed through
      obtain ⟨hmem, hne⟩ := h.mem_others (hpassing.mem_iff.mp he)
      rw [hsame] at heq
      exact hne (h.distinct.eq_of_beq hbase hmem (parts.environment_keys base hbase) heq).symm
    · exact h.distinct.differ.sublist List.filter_sublist
  case apart =>
    rw [parts.environments]
    intro e he _ r hr hkind
    rcases List.mem_cons.mp he with rfl | he
    · rw [hsame]
      exact h.apart_merged parts hfresh hbase hr hkind
    · exact h.apart_merged parts hfresh (List.mem_filter.mp he).1 hr hkind

end

/-! ## Many merges

The run.  By induction on the merges: what one of them keeps is what the next one starts from. -/

/-- One synthesized export after the other, each merged into the document before; beside each stands
    whether requests that are gone are marked or dropped. -/
def merges (existing : Option (Dict Json)) (steps : List (Synthesis × Bool)) :
    Except Fault (Option (Dict Json)) :=
  steps.foldlM (fun before step => (merge step.1.document before step.2).map some) existing

/-- Several merges are one and then the others. -/
theorem merges_cons {existing last : Option (Dict Json)} {step : Synthesis × Bool}
    {steps : List (Synthesis × Bool)} : merges existing (step :: steps) = .ok last ↔
      ∃ merged, merge step.1.document existing step.2 = .ok merged ∧
        merges (some merged) steps = .ok last :=
  Persisted.foldlM_some_cons

/-- The variables of the fresh exports. -/
def freshVariables (steps : List (Synthesis × Bool)) : List (Dict Json) :=
  steps.map fun step => environmentData step.1.settings

/-- What one merge keeps, all of them keep.  The invariant is `Environs` itself.  The variables of
    the base environment are followed alongside, as one merge after the other. -/
theorem Environs.run {existing last : Option (Dict Json)} {steps : List (Synthesis × Bool)}
    {base : Resource} {others : List Resource} (h : Environs (resourcesBefore existing) base others)
    (hfresh : ∀ step ∈ steps, LeavesIds (base :: others) step.1.settings step.1.endpoints)
    (hrun : merges existing steps = .ok last) : ∃ base', Environs (resourcesBefore last) base' others ∧
      Dict.get? base' "_id" = Dict.get? base "_id" ∧
      (∀ old, storedVariables base = .ok old →
        storedVariables base' = .ok (mergeAll (freshVariables steps) old)) ∧
      (steps ≠ [] → ∃ old, storedVariables base = .ok old) := by
  induction steps generalizing existing base with
  | nil =>
    obtain rfl := Except.ok.inj hrun
    exact ⟨base, h, rfl, fun _ hold => hold, fun hne => absurd rfl hne⟩
  | cons step steps ih =>
    obtain ⟨merged, hmerge, hrest⟩ := merges_cons.mp hrun
    have hresources : mergeResources ((resources step.1.settings step.1.endpoints).map .obj)
        (resourcesBefore existing) step.2 = .ok (resourcesOf merged) := by
      refine (merge_cases hmerge).resolve_left fun hnone => ?_
      obtain ⟨w, -, hworkspace, -⟩ := h.workspace
      rw [hnone.1] at hworkspace
      exact absurd hworkspace (by simp [ofKind])
    obtain ⟨parts⟩ := parts_of_merge hresources
    have hleaves : LeavesIds (ofKind "environment" (resourcesBefore existing)) step.1.settings
        step.1.endpoints := fun f hf hkind e he =>
      hfresh step (List.mem_cons_self ..) f hf hkind e (h.environments.mem_iff.mp he)
    have hstep : Environs (resourcesBefore (some merged)) parts.environment others :=
      h.step parts hleaves
    have hid := h.environment_id parts
    obtain ⟨old, hold, hmerged⟩ := h.variables_merged parts
    -- the base environment has its identifier still, so the later exports leave it, too
    have hlater : ∀ step ∈ steps,
        LeavesIds (parts.environment :: others) step.1.settings step.1.endpoints := by
      intro step' hstep' f hf hkind e he
      have hall := hfresh step' (List.mem_cons_of_mem _ hstep') f hf hkind
      rcases List.mem_cons.mp he with rfl | he
      · rw [fieldOrNull, hid]
        exact hall base (List.mem_cons_self ..)
      · exact hall e (List.mem_cons_of_mem _ he)
    obtain ⟨base', henvirons, hid', hvariables, -⟩ := ih hstep hlater hrest
    refine ⟨base', henvirons, hid'.trans hid, fun old' hold' => ?_, fun _ => ⟨old, hold⟩⟩
    obtain rfl := Except.ok.inj (hold'.symm.trans hold)
    exact hvariables _ hmerged

/-- **Environments over many merges.**  An export with one workspace, at least one environment and
    identifiers of its own is merged with any number of fresh ones, none of which uses the identifier
    of an environment for another resource. -/
theorem merges_environments {existing last : Option (Dict Json)} {steps : List (Synthesis × Bool)}
    {workspace : Resource} (hids : DistinctIds (resourcesBefore existing))
    (hworkspace : ofKind "workspace" (resourcesBefore existing) = [workspace])
    (hsome : ofKind "environment" (resourcesBefore existing) ≠ [])
    (hfresh : ∀ step ∈ steps, LeavesIds (ofKind "environment" (resourcesBefore existing))
      step.1.settings step.1.endpoints)
    (hrun : merges existing steps = .ok last) : ∃ base base' others,
    -- the environments are the base one and others, in the end as in the beginning
    (baseEnvironment? (resourcesBefore existing) = some base ∧
      (ofKind "environment" (resourcesBefore existing)).Perm (base :: others)) ∧
    (baseEnvironment? (resourcesBefore last) = some base' ∧
      (ofKind "environment" (resourcesBefore last)).Perm (base' :: others)) ∧
    -- the base environment has its identifier, and the variables of all exports
    Dict.get? base' "_id" = Dict.get? base "_id" ∧
    (∀ old, storedVariables base = .ok old → ∃ data, storedVariables base' = .ok data ∧
      ∀ name, Dict.get? data name = valueAfter old (freshVariables steps) name) ∧
    (steps ≠ [] → ∃ old, storedVariables base = .ok old) := by
  obtain ⟨base, others, h⟩ := environs_of_distinctIds hids hworkspace hsome
  have hleaves : ∀ step ∈ steps, LeavesIds (base :: others) step.1.settings step.1.endpoints :=
    fun step hstep f hf hkind e he => hfresh step hstep f hf hkind e (h.environments.mem_iff.mpr he)
  obtain ⟨base', h', hid, hvariables, hold⟩ := h.run hleaves hrun
  refine ⟨base, base', others, ⟨h.base_eq, h.environments⟩, ⟨h'.base_eq, h'.environments⟩, hid,
    fun old hold => ⟨_, hvariables old hold, fun name => ?_⟩, hold⟩
  refine get?_mergeAll (fun f hf => ?_) (fun f hf => ?_) old name
  · obtain ⟨step, -, rfl⟩ := List.mem_map.mp hf
    exact nodup_environmentData step.1.settings
  · obtain ⟨step, -, rfl⟩ := List.mem_map.mp hf
    exact opensEmpty_environmentData step.1.settings

/-- An export with two environments, the first of them filled in by hand. -/
def sampleEnvironments : Dict Json :=
  [("resources", .arr [
    .obj [("_id", .str "w"), ("_type", .str "workspace"), ("name", .str "Mine")],
    .obj [("_id", .str "staging"), ("_type", .str "environment"), ("parentId", .str "base")],
    .obj [("_id", .str "base"), ("_type", .str "environment"), ("parentId", .str "w"),
      ("data", .obj [("authToken", .str "secret")])]])]

/-- Two merges, the second of an export with another base URL. -/
def sampleSteps : List (Synthesis × Bool) :=
  [({ endpoints := [sampleEndpoint] }, true),
    ({ endpoints := [], settings := { sources := { baseUrl := some "/" } } }, false)]

/-- The token that was filled in stays, and the base URL is the last one.  The token is empty in
    every fresh export, and an empty value does not replace one that is there. -/
theorem merges_environments_filled_in : ∃ last base' others data,
    merges (some sampleEnvironments) sampleSteps = .ok last ∧
    (ofKind "environment" (resourcesBefore last)).Perm (base' :: others) ∧
    Dict.get? base' "_id" = some (.str "base") ∧ storedVariables base' = .ok data ∧
    Dict.get? data "authToken" = some (.str "secret") ∧ Dict.get? data "baseUrl" = some (.str "/") := by
  have hruns : (merges (some sampleEnvironments) sampleSteps).toOption.any (fun _ => true) = true := by
    decide +kernel
  obtain ⟨last, hlast, -⟩ := Persisted.exists_ok_of_any hruns
  have hids : DistinctIds (resourcesBefore (some sampleEnvironments)) := by decide +kernel
  have hleaves : ∀ step ∈ sampleSteps, LeavesIds
      (ofKind "environment" (resourcesBefore (some sampleEnvironments))) step.1.settings
      step.1.endpoints := by
    decide +kernel
  have hsome : ofKind "environment" (resourcesBefore (some sampleEnvironments)) ≠ [] :=
    List.cons_ne_nil _ _
  obtain ⟨base, base', others, ⟨hbase, -⟩, ⟨-, hothers⟩, hid, hvariables, -⟩ :=
    merges_environments hids rfl hsome hleaves hlast
  obtain ⟨data, hdata, hvalues⟩ := hvariables [("authToken", .str "secret")] (by
    obtain rfl := Option.some.inj hbase
    rfl)
  refine ⟨last, base', others, data, hlast, hothers, ?_, hdata, ?_, ?_⟩
  · obtain rfl := Option.some.inj hbase
    exact hid
  · exact (hvalues "authToken").trans rfl
  · exact (hvalues "baseUrl").trans rfl

end RouteAtlas.Insomnia
