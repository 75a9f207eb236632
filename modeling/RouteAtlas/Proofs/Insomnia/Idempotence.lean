/-
  Merging the same export twice.

  ==== Spec ====

  `merge_export_idempotent`: once a fresh export is merged into whatever was persisted, merging it
  again changes nothing, not even the order of the resources.  The requests have to have keys of
  their own, no endpoint has a body that its method does not send, and the identifiers in the merged
  export have to be told apart: where two resources share one, a folder may move between them.

  ==== Proof ====

  A merge writes a `Written` export (`written_of_mergeResources`; without persisted resources it is
  the fresh one, `written_fresh`), and a written export is written again
  (`mergeResources_written`).  What is left is the document around the resources: its fields are
  there after the first merge, and a second one leaves them alone (`merge_of_settled`).
-/
import RouteAtlas.Proofs.Insomnia.First

namespace RouteAtlas.Insomnia

open Persisted (required bind_eq_ok_iff ok_bind mapM_eq_ok_of_forall)
open Resource (fieldOrNull)

/-! ## Without persisted resources

The first export is the fresh one itself.  It is written, too, as if it had been merged with
nothing; what follows can treat both cases alike. -/

section

variable {settings : Settings} {endpoints : List Endpoint}

/-- Where nothing is known, nothing is refreshed.  Without names and without anything persisted,
    every identifier and every parent is put back as it is. -/
theorem refresh_nothing (settings : Settings) (endpoints : List Endpoint) :
    ((resources settings endpoints).map .obj).mapM (refresh Known.nothing)
      = .ok (resources settings endpoints) := by
  have hstep : ∀ r ∈ resources settings endpoints, refresh Known.nothing (.obj r) = .ok r := by
    intro r hr
    rw [resources_eq] at hr
    rcases List.mem_cons.mp hr with rfl | hr
    · rfl
    · rcases List.mem_cons.mp hr with rfl | hr
      · rw [refresh_environment]
        rfl
      · obtain ⟨entry, -, rfl⟩ := List.mem_map.mp hr
        cases entry with
        | folder path => rfl
        | request path e =>
          rw [refresh_request]
          show Except.ok (Dict.put (Dict.put (requestOf _ _ e) "_id" _) "parentId" _) = _
          rw [Dict.put_eq_self (d := requestOf _ _ e) rfl, Dict.put_eq_self rfl]
          rfl
  rw [List.mapM_map]
  have hmap := mapM_eq_ok_of_forall (f := fun r => refresh Known.nothing (.obj r)) (g := id) hstep
  rwa [List.map_id] at hmap

/-- Fresh identifiers are texts. -/
theorem isKey_fresh {r : Resource} (hr : r ∈ resources settings endpoints) :
    (fieldOrNull r "_id").kind.isKey = true := by
  rw [resources_eq] at hr
  rcases List.mem_cons.mp hr with rfl | hr
  · rfl
  · rcases List.mem_cons.mp hr with rfl | hr
    · rfl
    · obtain ⟨entry, -, rfl⟩ := List.mem_map.mp hr
      cases entry <;> rfl

/-- **A fresh export is written**, as long as its identifiers are told apart. -/
theorem written_fresh (hbodies : BodiesFit endpoints)
    (hids : DistinctIds (resources settings endpoints)) : ∃ environment rest,
    resources settings endpoints
      = workspaceAt settings (placeId [] settings []) :: environment :: rest ∧
    Written settings endpoints (placeId [] settings) environment rest [] [] :=
  written_of_refresh Known.sound_nothing hbodies (refresh_nothing settings endpoints) hids
    fun _ hr => isKey_fresh hr

end

/-! ## Documents

Around the resources there are fields that describe the export.  A merge sets those that are missing
and leaves the others, so that a second one finds nothing to set. -/

/-- The resources of an export. -/
def resourcesOf (document : Dict Json) : List Resource :=
  match Dict.get? document "resources" with
  | some (.arr values) => Resource.ofValues values
  | _ => []

/-- The resources of an export whose list is known. -/
theorem resourcesOf_of_get? {document : Dict Json} {rs : List Resource}
    (h : Dict.get? document "resources" = some (.arr (rs.map .obj))) : resourcesOf document = rs := by
  rw [resourcesOf, h]
  exact ofValues_map_obj rs

/-- The fields that describe an export are set where they are missing. -/
def headed (document : Dict Json) (head : List (String × Json)) : Dict Json :=
  head.foldl (fun merged e => Dict.putNew merged e.1 e.2) document

/-- A field that was there stays, and the one that is set is there. -/
theorem isSome_putNew {d : Dict Json} {name name' : String} {value : Json}
    (h : (Dict.get? d name).isSome ∨ name = name') :
    (Dict.get? (Dict.putNew d name' value) name).isSome := by
  rw [Dict.putNew, Dict.has]
  rcases h with h | rfl
  · split
    · exact h
    · rw [Dict.get?_append, Option.isSome_or, h]
      rfl
  · split
    · assumption
    · rw [Dict.get?_append, Dict.get?_cons, if_pos (beq_self_eq_true name), Option.isSome_or,
        Option.isSome_some, Bool.or_true]

/-- Every field that describes an export is there afterwards. -/
theorem isSome_headed {head : List (String × Json)} {document : Dict Json} {name : String}
    (h : (Dict.get? document name).isSome ∨ name ∈ Dict.keys head) :
    (Dict.get? (headed document head) name).isSome := by
  induction head generalizing document with
  | nil =>
    rcases h with h | h
    · exact h
    · exact absurd h (List.not_mem_nil)
  | cons e head ih =>
    refine ih ?_
    rcases h with h | h
    · exact .inl (isSome_putNew (.inl h))
    · rcases List.mem_cons.mp h with rfl | h
      · exact .inl (isSome_putNew (.inr rfl))
      · exact .inr h

/-- Fields that are there stay as they are. -/
theorem headed_eq_self {head : List (String × Json)} {document : Dict Json}
    (h : ∀ name ∈ Dict.keys head, (Dict.get? document name).isSome) : headed document head = document := by
  induction head with
  | nil => rfl
  | cons e head ih =>
    rw [headed, List.foldl_cons, Dict.putNew_eq_self (h e.1 (List.mem_cons_self ..))]
    exact ih fun name hname => h name (List.mem_cons_of_mem _ hname)

section

variable (date : String) (settings : Settings) (endpoints : List Endpoint)

/-- The fields that describe a fresh export. -/
def headOf : List (String × Json) :=
  [("_type", .str "export"), ("__export_format", .int 4), ("__export_date", .str date),
    ("__export_source", .str exportSource)]

variable {date settings endpoints}

/-- Merging into an export with resources. -/
theorem merge_eq_ok_iff {existing merged : Dict Json} {old : List Json} {mark : Bool}
    (hold : Dict.get? existing "resources" = some (.arr old)) :
    merge (document date settings endpoints) (some existing) mark = .ok merged ↔ ∃ rs,
      mergeResources ((resources settings endpoints).map .obj) (Resource.ofValues old) mark = .ok rs ∧
      merged = Dict.put (headed existing (headOf date)) "resources" (.arr (rs.map .obj)) := by
  have hnew : required (document date settings endpoints) "resources"
      = .ok (.arr ((resources settings endpoints).map .obj)) := rfl
  have hsequence : Persisted.sequence (.arr ((resources settings endpoints).map .obj))
      = .ok ((resources settings endpoints).map .obj) := rfl
  have hhead : (headFields.mapM fun name => do
      return (name, ← required (document date settings endpoints) name)) = .ok (headOf date) := rfl
  rw [merge, hold]
  show (required _ _ >>= _) = _ ↔ _
  rw [hnew, ok_bind, hsequence, ok_bind, bind_eq_ok_iff]
  refine exists_congr fun rs => and_congr_right fun _ => ?_
  rw [hhead, ok_bind, Persisted.pure_eq_ok_iff]
  exact eq_comm

/-- An export without resources gives way to the fresh one. -/
theorem merge_without {fresh existing merged : Dict Json} {mark : Bool}
    (h : merge fresh (some existing) mark = .ok merged) :
    merged = fresh ∨ ∃ old, Dict.get? existing "resources" = some (.arr old) := by
  rw [merge] at h
  split at h
  · rename_i old hold
    exact .inr ⟨old, hold⟩
  · exact .inl (Except.ok.inj h).symm

/-- What a merge settled on is settled. -/
theorem merge_of_settled {merged : Dict Json} {rs : List Resource} {mark : Bool}
    (hrs : Dict.get? merged "resources" = some (.arr (rs.map .obj)))
    (hhead : ∀ name ∈ Dict.keys (headOf date), (Dict.get? merged name).isSome)
    (h : mergeResources ((resources settings endpoints).map .obj) rs mark = .ok rs) :
    merge (document date settings endpoints) (some merged) mark = .ok merged := by
  refine (merge_eq_ok_iff hrs).mpr ⟨rs, ?_, ?_⟩
  · rw [ofValues_map_obj]
    exact h
  · rw [headed_eq_self hhead, Dict.put_eq_self hrs]

/-- The fields that describe an export are there from the beginning. -/
theorem isSome_document (first second : String) {name : String}
    (h : name ∈ Dict.keys (headOf second)) :
    (Dict.get? (document first settings endpoints) name).isSome := by
  have hin : (Dict.get? (headOf first) name).isSome := by
    rw [Option.isSome_iff_ne_none]
    exact fun hnone => Dict.get?_eq_none_iff.mp hnone h
  show (Dict.get? (headOf first ++ [("resources", _)]) name).isSome
  rw [Dict.get?_append, Option.isSome_or, hin]
  rfl

/-- A fresh export that is written is written again, whenever it was made. -/
theorem merge_document_of_written {first second : String} {environment : Resource}
    {rest : List Resource} {mark : Bool}
    (hkeys : (endpoints.map (requestKey settings.serviceNames)).Nodup)
    (hsplit : resources settings endpoints
      = workspaceAt settings (placeId [] settings []) :: environment :: rest)
    (hwritten : Written settings endpoints (placeId [] settings) environment rest [] []) :
    merge (document second settings endpoints) (some (document first settings endpoints)) mark
      = .ok (document first settings endpoints) := by
  have hagain : mergeResources ((resources settings endpoints).map .obj)
      (workspaceAt settings (placeId [] settings []) :: environment :: rest ++ [] ++ []) mark
        = .ok _ := mergeResources_written hwritten hkeys fun _ => rfl
  rw [List.append_nil, List.append_nil, ← hsplit] at hagain
  exact merge_of_settled rfl (fun name hname => isSome_document first second hname) hagain

/-- **A second merge of the same export changes nothing.** Whether anything was persisted or not,
    the result is written in the sense of `Written`, and a written export merged into again is
    written again. -/
theorem merge_export_idempotent {existing : Option (Dict Json)} {merged : Dict Json} {mark : Bool}
    (hkeys : (endpoints.map (requestKey settings.serviceNames)).Nodup) (hbodies : BodiesFit endpoints)
    (h : merge (document date settings endpoints) existing mark = .ok merged)
    (hids : DistinctIds (resourcesOf merged)) :
    merge (document date settings endpoints) (some merged) mark = .ok merged := by
  -- without resources to merge with, the result is the fresh export
  have hfresh : merged = document date settings endpoints →
      merge (document date settings endpoints) (some merged) mark = .ok merged := by
    rintro rfl
    have hrs : Dict.get? (document date settings endpoints) "resources"
        = some (.arr ((resources settings endpoints).map .obj)) := rfl
    rw [resourcesOf_of_get? hrs] at hids
    obtain ⟨environment, rest, hsplit, hwritten⟩ := written_fresh hbodies hids
    exact merge_document_of_written hkeys hsplit hwritten
  cases existing with
  | none => exact hfresh (Except.ok.inj h).symm
  | some existing =>
    rcases merge_without h with heq | ⟨old, hold⟩
    · exact hfresh heq
    -- with resources: what they were merged into is written, so a second merge settles on it
    · obtain ⟨rs, hrs, rfl⟩ := (merge_eq_ok_iff hold).mp h
      have hget : Dict.get? (Dict.put (headed existing (headOf date)) "resources"
          (.arr (rs.map .obj))) "resources" = some (.arr (rs.map .obj)) := Dict.get?_put_self ..
      rw [resourcesOf_of_get? hget] at hids
      obtain ⟨id, environment, rest, ls, ps, rfl, hwritten, hmark⟩ :=
        written_of_mergeResources hbodies hrs hids
      refine merge_of_settled hget (fun name hname => ?_) (mergeResources_written hwritten hkeys hmark)
      rw [Dict.get?_put]
      split
      · rfl
      · exact isSome_headed (.inr hname)

end

/-- An endpoint that lists the users. -/
def sampleEndpoint : Endpoint where
  method := .get
  path := "/users"

/-- An export with a request for users in a folder; its URL has no variable. -/
def sampleExport : Dict Json :=
  [("resources", .arr [
    .obj [("_id", .str "w"), ("_type", .str "workspace"), ("name", .str "Mine")],
    .obj [("_id", .str "f"), ("_type", .str "request_group"), ("parentId", .str "w"),
      ("name", .str "Users")],
    .obj [("_id", .str "r"), ("_type", .str "request"), ("parentId", .str "f"), ("name", .str "Me"),
      ("method", .str "GET"), ("url", .str "/users/me")]])]

/-- An export for users, merged over one that was edited: the second merge changes nothing.  The
    persisted export was edited by hand, so the first merge has something to do. -/
theorem merge_export_idempotent_users : ∃ merged,
    merge (document "" {} [sampleEndpoint]) (some sampleExport) true
      = .ok merged ∧
    DistinctIds (resourcesOf merged) ∧
    merge (document "" {} [sampleEndpoint]) (some merged) true = .ok merged := by
  have hbodies : BodiesFit [sampleEndpoint] := by
    intro e he _
    obtain rfl := List.mem_singleton.mp he
    rfl
  have hids : (merge (document "" {} [sampleEndpoint]) (some sampleExport)
      true).toOption.any (fun merged => decide (DistinctIds (resourcesOf merged))) = true := by
    decide +kernel
  cases hmerged : merge (document "" {} [sampleEndpoint]) (some sampleExport)
      true with
  | error fault =>
    rw [hmerged] at hids
    exact absurd hids Bool.false_ne_true
  | ok merged =>
    rw [hmerged] at hids
    have hids := of_decide_eq_true hids
    exact ⟨merged, rfl, hids, merge_export_idempotent (by decide) hbodies hmerged hids⟩

end RouteAtlas.Insomnia
