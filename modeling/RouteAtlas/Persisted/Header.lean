/-
  Headers of a request, brought together.

  Header names are compared without regard to case.  Every name keeps its place among the persisted
  headers and takes the last value given to it, so a fresh header replaces a persisted one and a
  header added by hand stays.  What has no name is dropped.
-/
import RouteAtlas.Persisted.Key

namespace RouteAtlas.Persisted

/-- The name of a header in small letters, none when it has no name. -/
def headerKey? (nameField : String) (header : Json) : Except Fault (Option String) :=
  match header.field? nameField with
  | none => .ok none
  | some (.str s) => .ok (if s == "" then none else some (Text.lower s))
  | some j => if j.truthy then .error (.noMember j.kind "lower") else .ok none

/-- A header under its name. -/
def underName? (nameField : String) (header : Json) : Except Fault (Option (String × Json)) :=
  (headerKey? nameField header).map fun key => key.map (·, header)

/-- One header per name: first place, last value. -/
def distinctHeaders (nameField : String) (headers : List Json) : Except Fault (List Json) := do
  let entries ← headers.mapM (underName? nameField)
  return Dict.values (Dict.ofList (entries.filterMap id))

/-- Fresh headers over persisted ones. -/
def mergeHeaders (nameField : String) (fresh existing : List Json) : Except Fault (List Json) :=
  distinctHeaders nameField (existing ++ fresh)

/-- Fresh headers, a list unless they are missing, over persisted ones, which may be empty in any
    way. -/
def mergeHeaderFields (nameField : String) (fresh existing : Option Json) : Except Fault Json := do
  let headers ← appended (Json.orElse existing (some (.arr []))) (fresh.getD (.arr []))
  return .arr (← distinctHeaders nameField headers)

end RouteAtlas.Persisted
