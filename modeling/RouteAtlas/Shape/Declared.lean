/-
  Shapes of declared types.

  A type is resolved among the declarations in view.  Names may refer to each other in circles and
  nest without end, so resolving is cut in two places: a name met again while its own declaration
  is being resolved, and whatever lies deeper than nine levels, are unknown objects.

  Resolved names are remembered.  A shape with a cut in it depends on where its name was met, so it
  is remembered only when every cut was at the name itself: the session notes the cuts that the
  shape at hand contains, and a name that ends with none of another's noted goes into the memory.

  `shapeAt` follows a type expression and is given the way to look up a name.  `lookup` looks up one,
  by recursion on the number of levels left: within a declaration, which is one level down, names
  are looked up with the table of the level below.
-/
import RouteAtlas.Shape.Definition

namespace RouteAtlas.Shape

/-- Where the resolution of a type was cut short. -/
inductive Cut where
  /-- At a name whose declaration was being resolved. -/
  | circle (name : String)
  /-- Below the deepest level. -/
  | depth
  deriving DecidableEq, Repr

/-- What a resolution leaves for the next. -/
structure Session where
  /-- The shapes of names resolved before. -/
  memory : Dict Shape := []
  /-- The names whose declarations are being resolved, innermost first. -/
  busy : List String := []
  /-- The cuts made so far in the declaration at hand. -/
  cuts : List Cut := []
  deriving Inhabited

/-- A computation within a session. -/
abbrev Resolving := StateM Session

/-- The number of levels a resolution goes down. -/
def maxTypeLevels : Nat := 9

/-- Notes a cut; what is cut off is an unknown object. -/
def cutShort (cut : Cut) : Resolving Shape := fun s =>
  (unknown, { s with cuts := if s.cuts.contains cut then s.cuts else s.cuts ++ [cut] })

/-- A way to look up a name with some number of levels left. -/
abbrev Lookup := (levels : Nat) → (name : String) → Resolving Shape

/-! ## Composite shapes -/

/-- Several objects in one, later ones winning; with a part that is no object the last part stands
    for all. -/
def unite (parts : List Shape) : Shape :=
  match parts.getLast? with
  | none => unknown
  | some last => if parts.all (fun p => p.kind == Kind.object) then ofProperties (unionOf parts) else last

mutual
/-- The shape of a type expression with `levels` levels left. -/
def shapeAt (find : Lookup) : (levels : Nat) → TypeExpr → Resolving Shape
  | levels, type =>
    match levels, type with
    | _, .absent => pure unknown
    | 0, _ => cutShort .depth
    | _ + 1, .fixed shape => pure shape
    | levels + 1, .named name => find (levels + 1) name
    | levels + 1, .array item => return arrayOf (← shapeAt find levels item)
    | levels + 1, .partially base => return (← shapeAt find (levels + 1) base).allOptional
    | levels + 1, .restricted base names keep =>
      return (← shapeAt find (levels + 1) base).restrict names keep
    | levels + 1, .variant nullable first => do
      let shape ← shapeAt find levels first
      return if nullable then { shape with nullable := true } else shape
    | levels + 1, .every parts => return unite (← shapesAt find levels parts)
    | levels + 1, .record members =>
      return ofProperties (Dict.ofList (← entriesAt find levels members))
/-- The shapes of several type expressions in turn. -/
def shapesAt (find : Lookup) (levels : Nat) : List TypeExpr → Resolving (List Shape)
  | [] => pure []
  | t :: ts => do
    let shape ← shapeAt find levels t
    return shape :: (← shapesAt find levels ts)
/-- The properties of an object type, one for each time a name is given. -/
def entriesAt (find : Lookup) (levels : Nat) :
    List (String × Bool × TypeExpr) → Resolving (List (String × Shape))
  | [] => pure []
  | (name, opt, type) :: rest => do
    let shape ← shapeAt find levels type
    return (name, shape.asOptional opt) :: (← entriesAt find levels rest)
end

/-- The properties of an object type. -/
def membersAt (find : Lookup) (levels : Nat) (members : List (String × Bool × TypeExpr)) :
    Resolving (Dict Shape) := do
  return Dict.ofList (← entriesAt find levels members)

/-! ## Fields and declarations -/

/-- What all marks of a field say together. -/
structure FieldNotes where
  optional : Bool := false
  kind : Option Kind := none
  format : Option String := none
  values : List Json := []
  sample : Json := .null
  description : Option String := none

/-- Adds what one mark says. -/
def FieldNotes.add (definitions : Dict Definition) (notes : FieldNotes) : Mark → FieldNotes
  | .optional => { notes with optional := true }
  | .kind kind format => { notes with kind := some kind, format := format <|> notes.format }
  | .valuesOf name =>
    match Dict.get? definitions name with
    | some (.choice values) => { notes with values := values }
    | _ => notes
  | .values values => { notes with values := values }
  | .sample value => { notes with sample := value }
  | .description words => { notes with description := words }

/-- The shape of a field's type, seen with its marks. -/
def FieldNotes.apply (notes : FieldNotes) (optional : Bool) (typed : Option Shape) : Shape :=
  let base := match typed, notes.kind with
    | none, some kind => plain kind
    | none, none => unknown
    | some shape, some kind =>
      if shape.kind == Kind.object && shape.properties.isEmpty then plain kind else shape
    | some shape, none => shape
  let sample := match notes.sample, notes.values with
    | .null, value :: _ => value
    | .null, [] => base.sample
    | given, _ => given
  { base with
    optional := optional || notes.optional
    sample := sample
    format := notes.format <|> base.format
    description := notes.description <|> base.description
    kind := if notes.values.isEmpty then base.kind else .choice
    values := if notes.values.isEmpty then base.values else notes.values }

/-- The shape of a field. -/
def fieldAt (find : Lookup) (definitions : Dict Definition) (levels : Nat) (field : Field) :
    Resolving Shape := do
  let notes := field.marks.foldl (FieldNotes.add definitions) {}
  match field.type with
  | none => return notes.apply field.optional none
  | some type => return notes.apply field.optional (some (← shapeAt find (levels - 1) type))

/-- The fields of a class with their shapes. -/
def fieldsAt (find : Lookup) (definitions : Dict Definition) (levels : Nat) :
    List Field → Resolving (List (String × Shape))
  | [] => pure []
  | f :: fs => do
    let shape ← fieldAt find definitions levels f
    return (f.name, shape) :: (← fieldsAt find definitions levels fs)

/-- Looks up several names in turn. -/
def lookupAll (find : Lookup) (levels : Nat) : List String → Resolving (List Shape)
  | [] => pure []
  | n :: ns => do
    let shape ← find levels n
    return shape :: (← lookupAll find levels ns)

/-- The class that is derived from the classes `bases`. -/
def Derivation.apply (how : Derivation) (bases : List Shape) : Shape :=
  match bases with
  | [] => unknown
  | first :: _ =>
    match how with
    | .union => unite bases
    | .partially => first.allOptional
    | .restricted names keep => first.restrict names keep
    | .unclear => unknown

/-- The shapes of what a class extends. -/
def basesAt (find : Lookup) (levels : Nat) : List Base → Resolving (List Shape)
  | [] => pure []
  | .named name :: rest => do
    let shape ← find levels name
    return shape :: (← basesAt find levels rest)
  | .derived names how :: rest => do
    let bases ← lookupAll find levels names
    return how.apply bases :: (← basesAt find levels rest)

/-- The shape of a declaration with `levels` levels left. -/
def definitionAt (find : Lookup) (definitions : Dict Definition) (levels : Nat) :
    Definition → Resolving Shape
  | .class bases fields => do
    let parts ← basesAt find levels bases
    let own ← fieldsAt find definitions levels fields
    return unite (parts ++ [ofProperties (Dict.ofList own)])
  | .interface bases members => do
    let parts ← shapesAt find levels bases
    let own ← membersAt find (levels - 1) members
    return unite (parts ++ [ofProperties own])
  | .synonym type => shapeAt find levels type
  | .choice values => pure (choiceOf values)
  | .other => pure unknown

/-! ## Names -/

/-- Resolves the declaration of `name` by `body`, and remembers the shape when no cut in it comes
    from elsewhere. -/
def enter (name : String) (body : Resolving Shape) : Resolving Shape := fun s =>
  let (shape, after) := body { s with busy := name :: s.busy, cuts := [] }
  let cuts := after.cuts.filter (· != .circle name)
  (shape, {
    memory := if cuts.isEmpty then Dict.put after.memory name shape else after.memory
    busy := after.busy.erase name
    cuts := s.cuts ++ cuts.filter fun c => !s.cuts.contains c })

/-- Looks up a name: built-in types, names resolved before, then declarations, which `define`
    resolves; without a `define` no level is left. -/
def lookupWith (definitions : Dict Definition) (define : Option (Definition → Resolving Shape))
    (name : String) : Resolving Shape := fun s =>
  match Dict.get? primitives name with
  | some kind => (plain kind, s)
  | none =>
    if name == "Date" then (formatted "date-time", s)
    else match Dict.get? s.memory name with
    | some shape => (shape, s)
    | none =>
      match Dict.get? definitions name with
      | none => (unknown, s)
      | some definition =>
        if s.busy.contains name then cutShort (.circle name) s
        else match define with
          | none => cutShort .depth s
          | some define => enter name (define definition) s

/-- The table of look-ups with at most `top` levels. -/
def lookupUpTo (definitions : Dict Definition) : (top : Nat) → Lookup
  | 0 => fun _ name => lookupWith definitions none name
  | top + 1 => fun levels name =>
    if levels ≤ top then lookupUpTo definitions top levels name
    else lookupWith definitions (some (definitionAt (lookupUpTo definitions top) definitions top)) name

/-- Looks up a name with `levels` levels left. -/
def lookup (definitions : Dict Definition) : Lookup := fun levels name =>
  lookupUpTo definitions levels levels name

/-- The shape of a named type. -/
def resolveNamed (definitions : Dict Definition) (name : String) : Resolving Shape :=
  lookup definitions maxTypeLevels name

/-- The shape of a type. -/
def resolve (definitions : Dict Definition) (type : TypeExpr) : Resolving Shape :=
  shapeAt (lookup definitions) maxTypeLevels type

end RouteAtlas.Shape
