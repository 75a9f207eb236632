/-
  What is written about an endpoint: its name, its description, and whether it needs authorization.

  The summary is the one declared; else the description, if it says more than method and path, with
  a repeated method at its beginning left out; else a phrase made of the method and the last segment
  of the path that is no placeholder.  The name of a request is its summary, method and path.

  An endpoint needs authorization when its declaration asks for it, when a handler in front of it
  looks like it, or when its path goes through a place that is private by custom.
-/
import RouteAtlas.Collection.Label
import RouteAtlas.Endpoint.Basic

namespace RouteAtlas.Wording

/-- The verb a method is described by. -/
def actionOf (method : String) : String :=
  match Text.upper method with
  | "GET" => "Get"
  | "POST" => "Create"
  | "PUT" => "Replace"
  | "PATCH" => "Update"
  | "DELETE" => "Delete"
  | "HEAD" => "Head"
  | "OPTIONS" => "Options"
  | _ => "Call"

/-- A text that may be missing, without blanks at its ends. -/
def trimmed (text : Option String) : String := Text.trim (text.getD "")

/-- Does the description say no more than method and path? -/
def isBare (description : Option String) (method path : String) : Bool :=
  let text := Text.lower (trimmed description)
  text == "" || ([Route.normalize path, Route.display path, Route.doubleBraced path].any fun p =>
    text == Text.lower (method ++ " " ++ p))

/-- What follows the method, something, and a dash with its blanks, if the text begins like that:
    between the method and the dash there is a blank and at least one more character. -/
def afterDash? (method cs : List Char) : Option (List Char) := do
  let rest ← Text.afterWord? method cs
  let between := rest.takeWhile (· != '-')
  match between, rest.dropWhile (· != '-') with
  | c :: _ :: _, _ :: after =>
    if Text.isBlank c then some (after.dropWhile Text.isBlank) else none
  | _, _ => none

/-- What follows the method and some blanks, if the text begins like that. -/
def afterMethod? (method cs : List Char) : Option (List Char) := do
  match ← Text.afterWord? method cs with
  | c :: rest => if Text.isBlank c then some (rest.dropWhile Text.isBlank) else none
  | [] => none

/-- The text without the method, or the method and path, that it repeats at its beginning. -/
def withoutMethod (text method : String) : String :=
  let cs := Text.trimChars text.toList
  let rest := (afterDash? method.toList cs <|> afterMethod? method.toList cs).getD cs
  String.ofList (Text.trimChars rest)

/-- A phrase made of method and path. -/
def phrase (method path : String) : String :=
  match ((Route.segments path).filter fun s => !Route.isPlaceholder s).getLast? with
  | some s => actionOf method ++ " " ++ Label.clean s
  | none => actionOf method

/-- Is a summary declared? -/
def hasSummary (e : Endpoint) : Bool := trimmed e.summary != ""

/-- The summary of an endpoint. -/
def summary (e : Endpoint) : String :=
  if hasSummary e then trimmed e.summary
  else
    let described := if isBare (some (trimmed e.description)) e.method.word e.path then ""
      else withoutMethod (trimmed e.description) e.method.word
    if described != "" then described else phrase e.method.word e.path

/-- The name of the request for an endpoint. -/
def requestName (e : Endpoint) : String :=
  summary e ++ " - " ++ e.method.word ++ " " ++ Route.display e.path

/-- The description of the request for an endpoint, given the summary it goes with. -/
def requestDescription (e : Endpoint) (summary : String) : String :=
  let description := trimmed e.description
  if isBare (some description) e.method.word e.path then (if hasSummary e then summary else "")
  else if hasSummary e && Text.lower summary != Text.lower description then
    summary ++ "\n\n" ++ description
  else description

/-- Words that make a handler look like one for authorization. -/
def authWords : List String :=
  ["auth", "guard", "protect", "require", "role", "permission", "bearer", "jwt"]

/-- Segments of paths to what is private by custom. -/
def privateSegments : List String := ["admin", "me", "my", "export", "ping", "all"]

/-- Does a request to the endpoint need authorization? -/
def needsAuthorization (e : Endpoint) : Bool :=
  let handlers := (String.intercalate " " e.middleware).toList
  e.auth
    || authWords.any (fun w => Text.hasWord w.toList handlers)
    || (Route.segments e.path).any fun s =>
        !Route.isPlaceholder s && privateSegments.contains (Text.lower s)

end RouteAtlas.Wording
