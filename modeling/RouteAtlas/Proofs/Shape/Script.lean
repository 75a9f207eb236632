/-
  What the resolution of a type asks for, and what it makes of the answers.

  ==== Problem ====

  Resolving a type and reading the memory of a session are mixed: each name that a type mentions is
  looked up where it stands, and every look-up may change the session for the next.  To compare two
  resolutions of one type the two have to be taken apart.

  ==== Program ====

  1. **Specification** - `shapeIn env`: the shape of a type, or of a declaration, written out in full
     when every name stands for a shape of its own.  There are no levels and no session in it.

  2. **Scripts** - a resolution with so many levels left is a list of steps, each a look-up or a cut,
     and a way to put together what they give (`Scripted`).  The steps are known beforehand: what a
     name is does not decide what is looked up next.

  3. **Types and declarations** - `scripted_shapeAt`, `scripted_definitionAt`: the script looks up
     the names that are mentioned, and no others; when it has no cut in it, it puts together the shape
     written out in full.

  ==== The crux ====

  The session enters at one place only, the steps of a script (`performAll`).  Whatever is proved of
  the steps one after the other holds of all types and declarations.
-/
import RouteAtlas.Proofs.Shape.Session

namespace RouteAtlas.Shape

/-! ## Written out in full

The shape of a type or declaration when its names stand for given shapes: no levels, no session, no
memory. -/

namespace TypeExpr

mutual
/-- The names that a type expression mentions. -/
def names : TypeExpr → List String
  | .absent => []
  | .fixed _ => []
  | .named name => [name]
  | .array item => names item
  | .partially base => names base
  | .restricted base _ _ => names base
  | .variant _ first => names first
  | .every parts => namesOfAll parts
  | .record members => namesOfMembers members
/-- The names that several type expressions mention. -/
def namesOfAll : List TypeExpr → List String
  | [] => []
  | t :: ts => names t ++ namesOfAll ts
/-- The names that the properties of an object type mention. -/
def namesOfMembers : List (String × Bool × TypeExpr) → List String
  | [] => []
  | (_, _, type) :: rest => names type ++ namesOfMembers rest
end

mutual
/-- The shape of a type expression when names stand for the shapes that `env` gives. -/
def shapeIn (env : String → Shape) : TypeExpr → Shape
  | .absent => unknown
  | .fixed shape => shape
  | .named name => env name
  | .array item => arrayOf (shapeIn env item)
  | .partially base => (shapeIn env base).allOptional
  | .restricted base names keep => (shapeIn env base).restrict names keep
  | .variant nullable first =>
    let shape := shapeIn env first
    if nullable then { shape with nullable := true } else shape
  | .every parts => unite (shapesIn env parts)
  | .record members => ofProperties (Dict.ofList (entriesIn env members))
/-- The shapes of several type expressions. -/
def shapesIn (env : String → Shape) : List TypeExpr → List Shape
  | [] => []
  | t :: ts => shapeIn env t :: shapesIn env ts
/-- The properties of an object type. -/
def entriesIn (env : String → Shape) : List (String × Bool × TypeExpr) → List (String × Shape)
  | [] => []
  | (name, opt, type) :: rest => (name, (shapeIn env type).asOptional opt) :: entriesIn env rest
end

end TypeExpr

/-- The names that a field's type mentions. -/
def Field.names (field : Field) : List String := (field.type.map TypeExpr.names).getD []

/-- The shape of a field. -/
def Field.shapeIn (definitions : Dict Definition) (env : String → Shape) (field : Field) : Shape :=
  (field.marks.foldl (FieldNotes.add definitions) {}).apply field.optional
    (field.type.map (TypeExpr.shapeIn env))

/-- The names that a class extends. -/
def Base.names : Base → List String
  | .named name => [name]
  | .derived names _ => names

/-- The shape of what a class extends. -/
def Base.shapeIn (env : String → Shape) : Base → Shape
  | .named name => env name
  | .derived names how => how.apply (names.map env)

/-- The names that a declaration mentions. -/
def Definition.names : Definition → List String
  | .class bases fields => bases.flatMap Base.names ++ fields.flatMap Field.names
  | .interface bases members => TypeExpr.namesOfAll bases ++ TypeExpr.namesOfMembers members
  | .synonym type => type.names
  | .choice _ => []
  | .other => []

/-- The shape of a declaration. -/
def Definition.shapeIn (definitions : Dict Definition) (env : String → Shape) : Definition → Shape
  | .class bases fields =>
    unite (bases.map (Base.shapeIn env)
      ++ [ofProperties (Dict.ofList (fields.map fun f => (f.name, f.shapeIn definitions env)))])
  | .interface bases members =>
    unite (TypeExpr.shapesIn env bases
      ++ [ofProperties (Dict.ofList (TypeExpr.entriesIn env members))])
  | .synonym type => type.shapeIn env
  | .choice values => choiceOf values
  | .other => unknown

/-! ## Scripts

A resolution with some levels left does a fixed list of steps, and puts the answers together.  The
steps do not depend on the session, only the answers do. -/

/-- A step of a resolution: a name is looked up, or what lies deeper is cut off. -/
inductive Step where
  | look (levels : Nat) (name : String)
  | cut

/-- What a step does. -/
def Step.perform (find : Lookup) : Step → Resolving Shape
  | .look levels name => find levels name
  | .cut => cutShort .depth

/-- The shape a step gives when names stand for the shapes that `env` gives. -/
def Step.shapeIn (env : String → Shape) : Step → Shape
  | .look _ name => env name
  | .cut => unknown

/-- The step looks up one of `names`, with no more than `levels` levels left; or it is a cut. -/
def Step.Within (levels : Nat) (names : List String) : Step → Prop
  | .look l name => l ≤ levels ∧ name ∈ names
  | .cut => True

/-- Performs steps one after the other. -/
def performAll (find : Lookup) : List Step → Session → List Shape × Session
  | [], s => ([], s)
  | step :: steps, s =>
    ((step.perform find s).1 :: (performAll find steps (step.perform find s).2).1,
      (performAll find steps (step.perform find s).2).2)

/-- Performing two lists of steps is performing one after the other. -/
theorem performAll_append (find : Lookup) (steps steps' : List Step) (s : Session) :
    performAll find (steps ++ steps') s =
      ((performAll find steps s).1 ++ (performAll find steps' (performAll find steps s).2).1,
        (performAll find steps' (performAll find steps s).2).2) := by
  induction steps generalizing s with
  | nil => rfl
  | cons step steps ih => rw [List.cons_append, performAll, ih]; rfl

/-- Every step gives one shape. -/
theorem length_performAll (find : Lookup) (steps : List Step) (s : Session) :
    (performAll find steps s).1.length = steps.length := by
  induction steps generalizing s with
  | nil => rfl
  | cons step steps ih => exact congrArg (· + 1) (ih _)

/-- **Whatever holds along every step** and adds up, holds along all of them. -/
theorem performAll_along {find : Lookup} {levels : Nat} {names : List String}
    {R : Session → Session → Prop} (hrefl : ∀ s, R s s)
    (htrans : ∀ {s s' s''}, R s s' → R s' s'' → R s s'')
    (hcut : ∀ s, R s (cutShort .depth s).2)
    (hlook : ∀ l ≤ levels, ∀ name ∈ names, ∀ s, R s (find l name s).2)
    {steps : List Step} (hwithin : ∀ step ∈ steps, step.Within levels names) (s : Session) :
    R s (performAll find steps s).2 := by
  induction steps generalizing s with
  | nil => exact hrefl s
  | cons step steps ih =>
    have hstep : R s (step.perform find s).2 := by
      have hw := hwithin step List.mem_cons_self
      cases step with
      | look l name => exact hlook l hw.1 name hw.2 s
      | cut => exact hcut s
    exact htrans hstep (ih (fun step hs => hwithin step (List.mem_cons_of_mem _ hs)) _)

/-- A computation performs some steps within `names` and `levels`, and puts together what they give.
    Unless one of them is a cut they look up all the names, and what is put together is `value`. -/
def Scripted {α : Type} (levels : Nat) (names : List String) (m : Lookup → Resolving α)
    (value : (String → Shape) → α) : Prop :=
  ∃ (steps : List Step) (assemble : List Shape → α),
    (∀ find s, m find s = (assemble (performAll find steps s).1, (performAll find steps s).2)) ∧
    (∀ step ∈ steps, step.Within levels names) ∧
    (.cut ∉ steps → (∀ name ∈ names, ∃ l, .look l name ∈ steps) ∧
      ∀ env, assemble (steps.map (Step.shapeIn env)) = value env)

namespace Scripted

variable {α β γ : Type} {levels : Nat} {names names' : List String}

/-- Giving a value takes no step. -/
theorem pure (levels : Nat) (a : α) :
    Scripted levels [] (fun _ => (Pure.pure a : Resolving α)) fun _ => a :=
  ⟨[], fun _ => a, fun _ _ => rfl, fun _ h => absurd h List.not_mem_nil,
    fun _ => ⟨fun _ h => absurd h List.not_mem_nil, fun _ => rfl⟩⟩

/-- Looking up a name is one step. -/
theorem look (levels : Nat) (name : String) :
    Scripted levels [name] (fun find => find levels name) fun env => env name := by
  refine ⟨[.look levels name], fun shapes => shapes.headD unknown, fun _ _ => rfl, ?_, ?_⟩
  · intro step hstep
    obtain rfl := List.mem_singleton.mp hstep
    exact ⟨Nat.le_refl levels, List.mem_singleton_self name⟩
  · refine fun _ => ⟨fun n hn => ⟨levels, ?_⟩, fun _ => rfl⟩
    exact List.mem_singleton.mp hn ▸ List.mem_singleton_self _

/-- Cutting off is one step, and then nothing is claimed of the value. -/
theorem cut (levels : Nat) (names : List String) (value : (String → Shape) → Shape) :
    Scripted levels names (fun _ => cutShort .depth) value := by
  refine ⟨[.cut], fun shapes => shapes.headD unknown, fun _ _ => rfl, ?_, ?_⟩
  · intro step hstep
    obtain rfl := List.mem_singleton.mp hstep
    trivial
  · exact fun h => absurd (List.mem_singleton_self _) h

/-- The script of a computation is one of any that does the same. -/
theorem congr {m m' : Lookup → Resolving α} {value : (String → Shape) → α}
    (h : Scripted levels names m value) (hm : ∀ find, m' find = m find) :
    Scripted levels names m' value := by
  rwa [funext hm]

/-- A script with some levels is one with more. -/
theorem mono {levels' : Nat} {m : Lookup → Resolving α} {value : (String → Shape) → α}
    (h : Scripted levels names m value) (hlevels : levels ≤ levels') :
    Scripted levels' names m value := by
  obtain ⟨steps, assemble, hrun, hwithin, hvalue⟩ := h
  refine ⟨steps, assemble, hrun, fun step hstep => ?_, hvalue⟩
  have := hwithin step hstep
  cases step with
  | look l name => exact ⟨Nat.le_trans this.1 hlevels, this.2⟩
  | cut => trivial

/-- What a script gives may be changed afterwards. -/
theorem map {m : Lookup → Resolving α} {value : (String → Shape) → α}
    (h : Scripted levels names m value) (f : α → β) :
    Scripted levels names (fun find => do return f (← m find)) fun env => f (value env) := by
  obtain ⟨steps, assemble, hrun, hwithin, hvalue⟩ := h
  refine ⟨steps, f ∘ assemble, fun find s => ?_, hwithin, fun hcut => ?_⟩
  · show (f (m find s).1, (m find s).2) = _
    rw [hrun]
    rfl
  · exact ⟨(hvalue hcut).1, fun env => congrArg f ((hvalue hcut).2 env)⟩

/-- One script after the other: the first so many answers are for the first.  Since no step depends
    on the answers to the others, the two lists can be put together. -/
theorem both {m : Lookup → Resolving α} {value : (String → Shape) → α} {m' : Lookup → Resolving β}
    {value' : (String → Shape) → β} (h : Scripted levels names m value)
    (h' : Scripted levels names' m' value') (f : α → β → γ) :
    Scripted levels (names ++ names') (fun find => do
      let a ← m find
      let b ← m' find
      return f a b) fun env => f (value env) (value' env) := by
  obtain ⟨steps, assemble, hrun, hwithin, hvalue⟩ := h
  obtain ⟨steps', assemble', hrun', hwithin', hvalue'⟩ := h'
  -- both lists of steps, and the answers split where the first list ends
  refine ⟨steps ++ steps',
    fun shapes => f (assemble (shapes.take steps.length)) (assemble' (shapes.drop steps.length)),
    fun find s => ?_, fun step hstep => ?_, fun hcut => ⟨fun name hname => ?_, fun env => ?_⟩⟩
  · show (f (m find s).1 (m' find (m find s).2).1, (m' find (m find s).2).2) = _
    have hlength := length_performAll find steps s
    rw [hrun, hrun', performAll_append]
    dsimp only
    rw [List.take_left' hlength, List.drop_left' hlength]
  · rcases List.mem_append.mp hstep with hstep | hstep
    · have := hwithin step hstep
      cases step with
      | look l name => exact ⟨this.1, List.mem_append_left _ this.2⟩
      | cut => trivial
    · have := hwithin' step hstep
      cases step with
      | look l name => exact ⟨this.1, List.mem_append_right _ this.2⟩
      | cut => trivial
  · rcases List.mem_append.mp hname with hname | hname
    · obtain ⟨l, hl⟩ := (hvalue fun h => hcut (List.mem_append_left _ h)).1 name hname
      exact ⟨l, List.mem_append_left _ hl⟩
    · obtain ⟨l, hl⟩ := (hvalue' fun h => hcut (List.mem_append_right _ h)).1 name hname
      exact ⟨l, List.mem_append_right _ hl⟩
  -- without a cut in both there is none in either, so both values are as they should be
  · have hlength : (steps.map (Step.shapeIn env)).length = steps.length := List.length_map _
    dsimp only
    rw [List.map_append, List.take_left' hlength, List.drop_left' hlength,
      (hvalue fun h => hcut (List.mem_append_left _ h)).2 env,
      (hvalue' fun h => hcut (List.mem_append_right _ h)).2 env]

end Scripted

/-! ## Types

By the recursion of the program, which is on the levels and on the type. -/

/-- With no level left the script is a single cut, unless nothing is written. -/
theorem scripted_shapeAt_zero (type : TypeExpr) :
    Scripted 0 type.names (fun find => shapeAt find 0 type) fun env => type.shapeIn env := by
  cases type with
  | absent => exact (Scripted.pure 0 unknown).congr fun find => by rw [shapeAt]
  | _ => exact (Scripted.cut 0 _ _).congr fun find => by rw [shapeAt]; exact nofun

mutual

/-- **The script of a type** looks up its names, and puts together what it is written out in full.

    It is the recursion of the program, with a script for each of its branches. -/
theorem scripted_shapeAt : ∀ (levels : Nat) (type : TypeExpr),
    Scripted levels type.names (fun find => shapeAt find levels type) fun env => type.shapeIn env
  | levels, .absent => (Scripted.pure levels unknown).congr fun find => by rw [shapeAt]
  | 0, type => scripted_shapeAt_zero type
  | levels + 1, .fixed shape => (Scripted.pure (levels + 1) shape).congr fun find => by rw [shapeAt]
  | levels + 1, .named name => (Scripted.look (levels + 1) name).congr fun find => by rw [shapeAt]
  | levels + 1, .array item =>
    (((scripted_shapeAt levels item).map arrayOf).mono (Nat.le_succ levels)).congr fun find => by
      rw [shapeAt]
  | levels + 1, .partially base =>
    ((scripted_shapeAt (levels + 1) base).map allOptional).congr fun find => by rw [shapeAt]
  | levels + 1, .restricted base names keep =>
    ((scripted_shapeAt (levels + 1) base).map fun s => s.restrict names keep).congr fun find => by
      rw [shapeAt]
  | levels + 1, .variant nullable first =>
    (((scripted_shapeAt levels first).map fun s =>
      show Shape from if nullable then { s with nullable := true } else s).mono
      (Nat.le_succ levels)).congr fun find => by rw [shapeAt]
  | levels + 1, .every parts =>
    (((scripted_shapesAt levels parts).map unite).mono (Nat.le_succ levels)).congr fun find => by
      rw [shapeAt]
  | levels + 1, .record members =>
    (((scripted_entriesAt levels members).map fun entries => ofProperties (Dict.ofList entries)).mono
      (Nat.le_succ levels)).congr fun find => by rw [shapeAt]

/-- The script of several types. -/
theorem scripted_shapesAt (levels : Nat) : ∀ types : List TypeExpr,
    Scripted levels (TypeExpr.namesOfAll types) (fun find => shapesAt find levels types)
      fun env => TypeExpr.shapesIn env types
  | [] => (Scripted.pure levels []).congr fun find => by rw [shapesAt]
  | t :: ts =>
    ((scripted_shapeAt levels t).both (scripted_shapesAt levels ts) List.cons).congr fun find => by
      rw [shapesAt]

/-- The script of the members of an object type. -/
theorem scripted_entriesAt (levels : Nat) : ∀ members : List (String × Bool × TypeExpr),
    Scripted levels (TypeExpr.namesOfMembers members) (fun find => entriesAt find levels members)
      fun env => TypeExpr.entriesIn env members
  | [] => (Scripted.pure levels []).congr fun find => by rw [entriesAt]
  | (name, opt, type) :: rest =>
    ((scripted_shapeAt levels type).both (scripted_entriesAt levels rest)
      fun shape entries => (name, shape.asOptional opt) :: entries).congr fun find => by
      rw [entriesAt]

end

/-- The script of the table of these members. -/
theorem scripted_membersAt (levels : Nat) (members : List (String × Bool × TypeExpr)) :
    Scripted levels (TypeExpr.namesOfMembers members) (fun find => membersAt find levels members)
      fun env => Dict.ofList (TypeExpr.entriesIn env members) :=
  ((scripted_entriesAt levels members).map Dict.ofList).congr fun find => by rw [membersAt]

/-! ## Declarations

A declaration has the scripts of its bases and of its properties, one after the other. -/

/-- The script of a field is that of its type. -/
theorem scripted_fieldAt (definitions : Dict Definition) (levels : Nat) (field : Field) :
    Scripted levels field.names (fun find => fieldAt find definitions levels field)
      fun env => field.shapeIn definitions env := by
  unfold Field.names Field.shapeIn fieldAt
  cases field.type with
  | none => exact Scripted.pure levels _
  | some type => exact ((scripted_shapeAt (levels - 1) type).map _).mono (Nat.sub_le levels 1)

/-- The script of several fields. -/
theorem scripted_fieldsAt (definitions : Dict Definition) (levels : Nat) (fields : List Field) :
    Scripted levels (fields.flatMap Field.names) (fun find => fieldsAt find definitions levels fields)
      fun env => fields.map fun f => (f.name, f.shapeIn definitions env) := by
  induction fields with
  | nil => exact Scripted.pure levels []
  | cons f fields ih =>
    exact (scripted_fieldAt definitions levels f).both ih fun shape rest => (f.name, shape) :: rest

/-- The script of names that are looked up one after the other. -/
theorem scripted_lookupAll (levels : Nat) (names : List String) :
    Scripted levels names (fun find => lookupAll find levels names) fun env => names.map env := by
  induction names with
  | nil => exact Scripted.pure levels []
  | cons n names ih => exact (Scripted.look levels n).both ih List.cons

/-- The script of what a class extends. -/
theorem scripted_basesAt (levels : Nat) (bases : List Base) :
    Scripted levels (bases.flatMap Base.names) (fun find => basesAt find levels bases)
      fun env => bases.map (Base.shapeIn env) := by
  induction bases with
  | nil => exact Scripted.pure levels []
  | cons base bases ih =>
    cases base with
    | named name => exact (Scripted.look levels name).both ih List.cons
    | derived names how =>
      exact (scripted_lookupAll levels names).both ih fun shapes rest => how.apply shapes :: rest

/-- **The script of a declaration.** -/
theorem scripted_definitionAt (definitions : Dict Definition) (levels : Nat)
    (definition : Definition) :
    Scripted levels definition.names
      (fun find => definitionAt find definitions levels definition)
      fun env => definition.shapeIn definitions env := by
  cases definition with
  | «class» bases fields =>
    exact (scripted_basesAt levels bases).both (scripted_fieldsAt definitions levels fields)
      fun parts own => unite (parts ++ [ofProperties (Dict.ofList own)])
  | interface bases members =>
    exact (scripted_shapesAt levels bases).both
      ((scripted_membersAt (levels - 1) members).mono (Nat.sub_le levels 1))
      fun parts own => unite (parts ++ [ofProperties own])
  | synonym type => exact scripted_shapeAt levels type
  | choice values => exact Scripted.pure levels (choiceOf values)
  | other => exact Scripted.pure levels unknown

/-! ## What a script sees of a table

A script reads a table of look-ups at its own levels only.  So the program's table, which is built
level by level, can be cut off above. -/

/-- Two tables are the same to a script when they are for its levels. -/
theorem performAll_congr {find find' : Lookup} {levels : Nat}
    (h : ∀ l ≤ levels, ∀ name, find l name = find' l name) {names : List String} {steps : List Step}
    (hsteps : ∀ step ∈ steps, step.Within levels names) (s : Session) :
    performAll find steps s = performAll find' steps s := by
  induction steps generalizing s with
  | nil => rfl
  | cons step steps ih =>
    have hstep : step.perform find = step.perform find' := by
      have hwithin := hsteps step List.mem_cons_self
      cases step with
      | look l name => exact h l hwithin.1 name
      | cut => rfl
    rw [performAll, performAll, hstep, ih fun step hstep => hsteps step (List.mem_cons_of_mem _ hstep)]

/-- **A name with a level left** is looked up by the script of its declaration, on the level below. -/
theorem lookup_succ (definitions : Dict Definition) (levels : Nat) (name : String) :
    lookup definitions (levels + 1) name =
      lookupWith definitions (some (definitionAt (lookup definitions) definitions levels)) name := by
  have hup : lookup definitions (levels + 1) name = lookupWith definitions
      (some (definitionAt (lookupUpTo definitions levels) definitions levels)) name := by
    refine (lookupUpTo_succ definitions levels (levels + 1) name).trans (if_neg ?_)
    omega
  have hdefine : definitionAt (lookupUpTo definitions levels) definitions levels =
      definitionAt (lookup definitions) definitions levels := by
    funext definition s
    obtain ⟨steps, assemble, hrun, hwithin, -⟩ := scripted_definitionAt definitions levels definition
    refine (hrun _ s).trans (Eq.trans ?_ (hrun _ s).symm)
    rw [performAll_congr (fun l hl name => lookupUpTo_eq_lookup hl name) hwithin]
  rw [hup, hdefine]

end RouteAtlas.Shape
