/-
  Example values: for bodies, path variables and query strings.

  A shape's own sample comes first, then the first of its listed values.  Otherwise objects list the
  required properties before the others, each group by name; arrays hold one item; and a primitive
  is guessed from the name it stands under: a count for `limit`, an address for `email`.  Names that
  many requests share become references to collection variables, so that one value serves them all.

  A shape is followed seven levels down; what lies deeper is a text.
-/
import RouteAtlas.Endpoint.Basic
import RouteAtlas.Json.Printer
import RouteAtlas.Text.Quoted

namespace RouteAtlas.Example

/-- The identifier used where one is asked for. -/
def sampleId : String := "3fa85f64-5717-4562-b3fc-2c963f66afa6"

/-- A reference to a collection variable. -/
def reference (name : String) : String := "\x7b\x7b" ++ name ++ "\x7d\x7d"

/-- The variables that all requests share. -/
def sharedVariables : List String := ["authToken", "userId", "orderId"]

/-- Names of values that are the same in all requests, and the variable that holds them. -/
def references : Dict String :=
  [("userid", "userId"), ("orderid", "orderId"), ("authtoken", "authToken")]

/-- The ASCII letters and digits of a name, in small. -/
def lookupKey (name : String) : List Char := (name.toList.filter Char.isAlphanum).map Char.toLower

/-- Where a value stands. -/
inductive Place where
  | body
  | path
  | query
  deriving DecidableEq, Repr

/-- A number for a name. -/
def numberFor (key : List Char) : Int :=
  let has (part : String) : Bool := Text.hasPart part.toList key
  if has "limit" then 20
  else if has "offset" then 0
  else if has "page" then 1
  else if has "quantity" then 2
  else if has "count" then 1
  else if has "amount" || has "total" || has "price" then 100
  else 1

/-- A text for a name. -/
def textFor (key : List Char) (place : Place) : String :=
  let has (part : String) : Bool := Text.hasPart part.toList key
  if place == .query && has "limit" then "20"
  else if place == .query && has "offset" then "0"
  else if has "status" then "pending"
  else if has "address" then "123 Main St"
  else if has "phone" then "+15555550100"
  else if "id".toList.isSuffixOf key || has "uuid" then sampleId
  else if has "email" then "user@example.com"
  else if has "name" then "Sample Name"
  else if has "token" then "token_example"
  else "string"

/-- A primitive value for a name; an unnamed one has the empty name. -/
def primitive (name : String) (type : String) (place : Place) : Json :=
  let key := lookupKey name
  match Dict.get? references (String.ofList key) with
  | some shared => .str (reference shared)
  | none =>
    if type == "number" || type == "integer" then .int (numberFor key)
    else if type == "boolean" then .bool false
    else .str (textFor key place)

/-- Texts in a format. -/
def formatted : Dict String :=
  [("email", "user@example.com"), ("uuid", sampleId), ("uri", "https://example.com"),
   ("date-time", "2024-01-01T00:00:00Z"), ("date", "2024-01-01")]

/-- A text in some format under a name; a shared name wins. -/
def formattedText? (name : String) (format : Option String) : Option String :=
  match format.bind (Dict.get? formatted) with
  | none => none
  | some text =>
    match Dict.get? references (String.ofList (lookupKey name)) with
    | some shared => some (reference shared)
    | none => some text

/-- The number of levels a shape is followed. -/
def maxLevels : Nat := 7

/-- The required properties before the others, each group by name. -/
def inOrder (required : List String) (properties : List (String × Json)) : List (String × Json) :=
  properties.mergeSort fun a b =>
    let ra := required.contains a.1
    let rb := required.contains b.1
    if ra == rb then Text.textLe a.1 b.1 else ra

mutual
/-- An example of a shape that stands under `name`, followed at most `levels` levels. -/
def ofShapeAt (name : String) : (levels : Nat) → Shape → Json
  | 0, _ => primitive name "string" .body
  | levels + 1, ⟨kind, properties, required, items, values, sample, _, _, format, _⟩ =>
    match sample with
    | .null =>
      match values with
      | value :: _ => value
      | [] =>
        match kind with
        | .object => .obj (inOrder required (ofProperties levels properties))
        | .array => .arr [ofItems levels items]
        | .string =>
          match formattedText? name format with
          | some text => .str text
          | none => primitive name "string" .body
        | kind => primitive name kind.word .body
    | sample => sample
/-- Examples of properties, each under its name. -/
def ofProperties (levels : Nat) : List (String × Shape) → List (String × Json)
  | [] => []
  | (name, shape) :: rest => (name, ofShapeAt name levels shape) :: ofProperties levels rest
/-- An example of an array's item, a text when nothing is known of it. -/
def ofItems (levels : Nat) : Option Shape → Json
  | some shape => ofShapeAt "item" levels shape
  | none => primitive "item" "string" .body
end

/-- An example of a shape. -/
def ofShape (shape : Shape) : Json := ofShapeAt "" maxLevels shape

/-! ## Query strings and path variables -/

/-- A value as it stands in a URL. -/
def urlText : Json → String
  | .null => ""
  | .bool b => if b then "true" else "false"
  | .str s => s
  | .int n => (Json.int n).shown
  | .float x => (Json.float x).shown
  | value => value.inline .ascii

/-- A query parameter of a request. -/
structure QueryEntry where
  key : String
  value : String
  disabled : Bool
  deriving DecidableEq, Repr, Inhabited

/-- Names whose guessed value is preferred to a declared one. -/
def preferGuess : List String := ["userid", "orderid", "limit", "offset", "status"]

/-- Filters, switched off when they are optional so that a request is not narrowed. -/
def filterNames : List String := ["status", "search", "sort", "filter", "from", "to", "q"]

/-- Does the parameter come with a sample of its own? -/
def hasSample (p : Param) : Bool :=
  match p.sample with
  | .null | .str "" => false
  | _ => true

/-- The query parameters of a request. -/
def queryEntries (params : List Param) : List QueryEntry :=
  params.map fun p =>
    let declared := hasSample p && !preferGuess.contains (String.ofList (lookupKey p.name))
    { key := p.name
      value := urlText (if declared then p.sample else primitive p.name p.type .query)
      disabled := !p.required && filterNames.contains (Text.lower p.name) }

/-- The placeholders of a path with a value for each, which declared parameters may refine. -/
def pathVariables (path : String) (declared : List Param) : List (String × String) :=
  let start : Dict Param := (Route.placeholders path).map fun n => (n, { name := n })
  let refined := declared.foldl (fun d p => if Dict.has d p.name then Dict.put d p.name p else d) start
  (Dict.values refined).map fun p =>
    (p.name, urlText (match p.sample with
      | .null => primitive p.name p.type .path
      | sample => sample))

end RouteAtlas.Example
