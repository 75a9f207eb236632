/-
  A collection sent to the collection service.

  A `Request` replaces the collection of an identifier; sending it again does no harm.  What comes
  back is an answer with a status, or a failure of the connection, and is read as either the
  service's answer or a fault.  A fault says whether trying again may help.
-/
import RouteAtlas.Json.Reader

namespace RouteAtlas.Cloud

/-- Where collections are sent. -/
def address : String := "https://api.getpostman.com"

/-- The number of seconds an answer is waited for. -/
def timeout : Nat := 30

/-- A request to replace a collection. -/
structure Request where
  apiKey : String
  collectionId : String
  collection : Dict Json
  deriving Inhabited

namespace Request

/-- Where the request goes. -/
def url (r : Request) : String := address ++ "/collections/" ++ r.collectionId

/-- The headers of the request. -/
def headers (r : Request) : Dict String :=
  [("X-Api-Key", r.apiKey), ("Content-Type", "application/json")]

/-- The body of the request. -/
def body (r : Request) : Json := .obj [("collection", .obj r.collection)]

end Request

/-- What comes back. -/
inductive Reply where
  | answer (status : Nat) (text : String)
  /-- There was no connection, or no answer in time. -/
  | unreachable (reason : String)
  /-- The exchange broke off in some other way. -/
  | broken (reason : String)
  deriving DecidableEq, Repr

/-- Kinds of fault. -/
inductive FaultKind where
  /-- The key is refused. -/
  | refused
  /-- There is no such collection. -/
  | unknownTarget
  /-- Trying again may help. -/
  | passing
  | other
  deriving DecidableEq, Repr

/-- Why a collection was not taken. -/
structure Fault where
  kind : FaultKind
  message : String
  status : Option Nat := none
  deriving DecidableEq, Repr

/-- The kind of fault a status stands for. -/
def faultKindOf (status : Nat) : FaultKind :=
  if status = 401 ∨ status = 403 then .refused
  else if status = 404 then .unknownTarget
  else if status = 429 ∨ status ≥ 500 then .passing
  else .other

/-- The number of characters that a message shows of an answer. -/
def shownLength : Nat := 500

/-- Reads what came back. -/
def read : Reply → Except Fault Json
  | .unreachable reason => .error ⟨.passing, "Could not reach the Postman API: " ++ reason, none⟩
  | .broken reason => .error ⟨.other, "Postman API request failed: " ++ reason, none⟩
  | .answer status text =>
    if 200 ≤ status ∧ status < 300 then
      if text == "" then .ok (.obj [])
      else match Json.read text.toList with
        | .ok value => .ok value
        | .error _ =>
          .error ⟨.other, "Postman API returned a non-JSON response (" ++ toString status ++ ")", status⟩
    else
      let shown := String.ofList (text.toList.take shownLength)
      .error ⟨faultKindOf status, "Postman API error " ++ toString status ++ ": " ++ shown, status⟩

end RouteAtlas.Cloud
