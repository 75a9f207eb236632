/-
  The key of a persisted request: how it is found again.

  Persisted requests carry full URLs, with a base URL or a variable for one in front and a query
  behind; endpoints have paths.  `urlPath` leaves of a URL what its path is, and the key is the same
  as an endpoint's: the method and the path with its placeholders in the common notation.

  A request without a method or a URL has no key, and merging leaves it alone.
-/
import RouteAtlas.Persisted.Fault
import RouteAtlas.Route.Path
import RouteAtlas.Text.Quoted

namespace RouteAtlas.Persisted

open Text (Rule)

/-! ## The path of a URL -/

/-- What follows the two characters `a` and `b`. -/
def afterPair? (a b : Char) (cs : List Char) : Option (List Char) :=
  match cs with
  | x :: y :: rest => if x == a && y == b then some rest else none
  | _ => none

/-- What follows an underscore and at least one name character; without them, everything. -/
def afterServiceName (cs : List Char) : List Char :=
  match cs with
  | '_' :: c :: rest =>
    if Text.isNameCharAnyCase c then rest.dropWhile Text.isNameCharAnyCase else cs
  | _ => cs

/-- What follows a reference to a base-URL variable, `_.` in front of its name or not. -/
def afterBaseVariable? (cs : List Char) : Option (List Char) := do
  let rest := (← afterPair? Route.opening Route.opening cs).dropWhile Text.isBlank
  let rest ← Text.afterWord? "baseUrl".toList ((afterPair? '_' '.' rest).getD rest)
  afterPair? Route.closing Route.closing ((afterServiceName rest).dropWhile Text.isBlank)

/-- The rule that drops base-URL variables. -/
def baseVariableRule : Rule (List Char) := fun _ cs =>
  (afterBaseVariable? cs).map fun rest => (cs.length - rest.length, [])

/-- A character of a URL's scheme. -/
def isSchemeChar (c : Char) : Bool :=
  Text.isLatinAnyCase c || c.isDigit || c == '+' || c == '.' || c == '-'

/-- The URL without a scheme and the host behind it. -/
def withoutHost (cs : List Char) : List Char :=
  match cs with
  | [] => []
  | c :: rest =>
    if Text.isLatinAnyCase c then
      match rest.dropWhile isSchemeChar with
      | ':' :: '/' :: '/' :: after => after.dropWhile (· != '/')
      | _ => cs
    else cs

/-- The path of a URL: without base URL, query and fragment. -/
def urlPathChars (url : List Char) : List Char :=
  withoutHost (((Text.replaceMatches baseVariableRule url).takeWhile (· != '?')).takeWhile (· != '#'))

/-- The path of a URL: without base URL, query and fragment. -/
def urlPath (url : String) : String := String.ofList (urlPathChars url.toList)

/-! ## Keys -/

/-- The key of a request of some method to some URL. -/
def keyOf (method url : String) : String := Route.key method (urlPath url)

/-- The key of a request, if it has a method and a URL. -/
def key? (method url : Json) : Except Fault (Option String) :=
  if !method.truthy then .ok none
  else match url with
    | .null => .ok none
    | .str u =>
      match method with
      | .str m => .ok (some (keyOf m u))
      | m => .error (.noMember m.kind "upper")
    | u => .error (.notText u.kind)

/-! ## Requests that are no more -/

/-- The mark on requests whose endpoint is gone. -/
def deprecationMark : String := "[DEPRECATED]"

/-- The name with the mark in front, once. -/
def deprecatedName (name : String) : String :=
  if Text.startsWith deprecationMark name then name else deprecationMark ++ " " ++ name

/-- A persisted name, which may be missing, with the mark in front. -/
def deprecated (name : Option Json) : Except Fault Json :=
  match Json.orElse name (some (.str "")) with
  | .str s => .ok (.str (deprecatedName s))
  | j => .error (.noMember j.kind "startswith")

/-- Methods whose requests carry no body. -/
def bodylessMethods : List String := ["GET", "DELETE", "HEAD", "OPTIONS"]

/-- Do requests of this method carry no body? -/
def isBodyless (method : Json) : Bool := bodylessMethods.contains (Text.upper method.shown)

end RouteAtlas.Persisted
