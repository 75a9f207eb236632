/-
  The resources of an export, and where they are.

  A resource names its kind and its parent.  The path of a folder is found by going up from parent
  to parent as long as they are folders; a folder met a second time ends the way, so parents that
  go round in a circle do no harm.  Every step takes the folder it passes out of those still to be
  met, which bounds their number.
-/
import RouteAtlas.Persisted.Header

namespace RouteAtlas.Insomnia

open Persisted (Fault)

/-- A resource: its fields in order. -/
abbrev Resource := Dict Json

/-- The names of the folders on the way to a folder, outermost first. -/
abbrev FolderPath := List Json

namespace Resource

/-- Is the resource of the given kind? -/
def isA (kind : String) (r : Resource) : Bool :=
  match Dict.get? r "_type" with
  | some (.str k) => k == kind
  | _ => false

/-- The resources of the given kind. -/
def ofKind (kind : String) (rs : List Resource) : List Resource := rs.filter (isA kind)

/-- The field, null when it is missing. -/
def fieldOrNull (r : Resource) (name : String) : Json := (Dict.get? r name).getD .null

/-- The identifiers of resources that have one, each with its resource: first place, last value. -/
def byId (rs : List Resource) : Except Fault (List (Json × Resource)) := do
  let entries ← (rs.filter (Dict.has · "_id")).mapM fun r => do
    return (← Persisted.lookupKey (fieldOrNull r "_id"), r)
  return Dict.ofList entries

/-- The objects among values. -/
def ofValues (values : List Json) : List Resource :=
  values.filterMap fun
    | .obj fields => some fields
    | _ => none

end Resource

/-- The folders but the one with the given identifier. -/
def without (folders : List (Json × Resource)) (id : Json) : List (Json × Resource) :=
  folders.filter fun f => !(id == f.1)

/-- What is found can be taken out. -/
theorem without_lt {folders : List (Json × Resource)} {id : Json} {r : Resource}
    (h : Dict.get? folders id = some r) : (without folders id).length < folders.length := by
  refine List.length_filter_lt_length_iff_exists.2 ?_
  induction folders with
  | nil => simp [Dict.get?] at h
  | cons f rest ih =>
    obtain ⟨key, value⟩ := f
    by_cases hf : (id == key) = true
    · exact ⟨(key, value), by simp, by simp [hf]⟩
    · rw [Dict.get?, List.lookup_cons, Bool.eq_false_iff.2 hf] at h
      obtain ⟨g, hg, hid⟩ := ih h
      exact ⟨g, by simp [hg], hid⟩

/-- The names on the way up from `id`, outermost first, through `folders` not met so far. -/
def namesAbove (folders : List (Json × Resource)) (id : Json) : Except Fault FolderPath :=
  match h : Dict.get? folders id with
  | none => .ok []
  | some r => do
    have := without_lt h
    let parent ← Persisted.lookupKey (Resource.fieldOrNull r "parentId")
    let above ← namesAbove (without folders id) parent
    return above ++ [(Dict.get? r "name").getD (.str "")]
termination_by folders.length

/-- The paths of folders by their identifiers; a workspace has the empty path. -/
def folderPaths (rs : List Resource) : Except Fault (List (Json × FolderPath)) := do
  let folders ← Resource.byId (Resource.ofKind "request_group" rs)
  let workspaces ← Resource.byId (Resource.ofKind "workspace" rs)
  let paths ← folders.mapM fun (id, _) => do return (id, ← namesAbove folders id)
  return Dict.putAll (workspaces.map fun (id, _) => (id, [])) paths

/-- The path, if it can be looked up by. -/
def lookupPath (path : FolderPath) : Except Fault FolderPath := path.mapM Persisted.lookupKey

end RouteAtlas.Insomnia
