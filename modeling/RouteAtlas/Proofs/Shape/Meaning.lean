/-
  What a declared name means, whatever a session has resolved before.

  ==== Problem ====

  The shape of a name depends on where it was met: within its own declaration it is unknown, and below
  the deepest level as well.  Written out in full it depends on neither, as long as no two
  declarations go round in a circle through each other.

  ==== Program ====

  1. **Look-ups** - one equation for each of the cases of `lookup`: a built-in type, a name that is
     remembered, one that is not declared, one that is being resolved, one that is entered.

  2. **Circles** - a declaration refers to the names it mentions (`Refers`), and a name is `Plain` when
     every circle that it leads to goes through one declaration only.

  3. **Specification** - `Means`: what a name is when it is written out in full, its own name within
     its declaration unknown.  There is at most one such shape (`Means.unique`), `meaning`.

  ==== The crux ====

  The meaning of a name is a relation and not a function, so that nothing has to be known of circles
  to define it: a name in a circle with another has no meaning at all.
-/
import Mathlib.Logic.Relation
import RouteAtlas.Proofs.Shape.Script

namespace RouteAtlas.Shape

/-! ## The cases of a look-up

A look-up is defined through a fold over the levels.  What it does is a case distinction on the name
and the session, and one of the six cases goes down into a declaration. -/

/-- The shape of a built-in type. -/
def builtIn? (name : String) : Option Shape :=
  match Dict.get? primitives name with
  | some kind => some (plain kind)
  | none => if name == "Date" then some (formatted "date-time") else none

/-- The declaration of a name, unless the name is that of a built-in type. -/
def declaration? (definitions : Dict Definition) (name : String) : Option Definition :=
  if (builtIn? name).isSome then none else Dict.get? definitions name

variable {definitions : Dict Definition} {name : String}

/-- A name that counts as declared is not that of a built-in type. -/
theorem builtIn?_eq_none_of_declaration? {d : Definition}
    (h : declaration? definitions name = some d) : builtIn? name = none := by
  unfold declaration? at h
  split at h
  · cases h
  · rename_i hnone
    exact Option.not_isSome_iff_eq_none.mp hnone

/-- What a look-up does with a name: built-in types come first, what is remembered next.  The
    program asks for primitive types and for dates separately; here both are built in. -/
theorem lookupWith_eq (define : Option (Definition → Resolving Shape)) (s : Session) :
    lookupWith definitions define name s =
      match builtIn? name with
      | some shape => (shape, s)
      | none =>
        match Dict.get? s.memory name with
        | some shape => (shape, s)
        | none =>
          match declaration? definitions name with
          | none => (unknown, s)
          | some definition =>
            if s.busy.contains name then cutShort (.circle name) s
            else match define with
              | none => cutShort .depth s
              | some define => enter name (define definition) s := by
  unfold declaration? builtIn? lookupWith
  cases Dict.get? primitives name with
  | some kind => rfl
  | none =>
    dsimp only
    by_cases hdate : (name == "Date") = true
    · rw [if_pos hdate, if_pos hdate]
    · rw [if_neg hdate, if_neg hdate]
      rfl

/-- With any number of levels left a look-up starts in the same way. -/
theorem exists_lookupWith (definitions : Dict Definition) (levels : Nat) (name : String) :
    ∃ define, lookup definitions levels name = lookupWith definitions define name := by
  cases levels with
  | zero => exact ⟨none, rfl⟩
  | succ levels => exact ⟨_, lookup_succ definitions levels name⟩

/-- A built-in type is answered at once. -/
theorem lookup_builtIn {shape : Shape} (h : builtIn? name = some shape) (levels : Nat) (s : Session) :
    lookup definitions levels name s = (shape, s) := by
  obtain ⟨define, hlookup⟩ := exists_lookupWith definitions levels name
  rw [hlookup, lookupWith_eq define, h]

/-- What is remembered is answered from the memory. -/
theorem lookup_remembered (hb : builtIn? name = none) {s : Session} {shape : Shape}
    (h : Dict.get? s.memory name = some shape) (levels : Nat) :
    lookup definitions levels name s = (shape, s) := by
  obtain ⟨define, hlookup⟩ := exists_lookupWith definitions levels name
  rw [hlookup, lookupWith_eq define, hb, h]

/-- A name that is not declared could be anything. -/
theorem lookup_undeclared (hb : builtIn? name = none) {s : Session}
    (hmemory : Dict.get? s.memory name = none) (h : declaration? definitions name = none)
    (levels : Nat) : lookup definitions levels name s = (unknown, s) := by
  obtain ⟨define, hlookup⟩ := exists_lookupWith definitions levels name
  rw [hlookup, lookupWith_eq define, hb, hmemory, h]

section

variable {d : Definition} (h : declaration? definitions name = some d) {s : Session}
  (hmemory : Dict.get? s.memory name = none)
include h hmemory

/-- A name that is being resolved is cut short. -/
theorem lookup_busy (hbusy : name ∈ s.busy) (levels : Nat) :
    lookup definitions levels name s = cutShort (.circle name) s := by
  obtain ⟨define, hlookup⟩ := exists_lookupWith definitions levels name
  rw [hlookup, lookupWith_eq define, builtIn?_eq_none_of_declaration? h, hmemory, h]
  exact if_pos (List.contains_iff_mem.mpr hbusy)

/-- Where no level is left, a declared name is cut short. -/
theorem lookup_deepest (hbusy : name ∉ s.busy) :
    lookup definitions 0 name s = cutShort .depth s := by
  rw [lookup_zero, lookupWith_eq none, builtIn?_eq_none_of_declaration? h, hmemory, h]
  exact if_neg fun hmem => hbusy (List.contains_iff_mem.mp hmem)

theorem lookup_enter (hbusy : name ∉ s.busy) (levels : Nat) :
    lookup definitions (levels + 1) name s =
      enter name (definitionAt (lookup definitions) definitions levels d) s := by
  rw [lookup_succ, lookupWith_eq _, builtIn?_eq_none_of_declaration? h, hmemory, h]
  exact if_neg fun hmem => hbusy (List.contains_iff_mem.mp hmem)

end

/-- What a look-up does and gives, with the reason for it. -/
inductive LooksUp (definitions : Dict Definition) (name : String) (s : Session) :
    Nat → Shape × Session → Prop
  | builtIn {levels : Nat} {shape : Shape} : builtIn? name = some shape →
      LooksUp definitions name s levels (shape, s)
  | remembered {levels : Nat} {shape : Shape} : builtIn? name = none →
      Dict.get? s.memory name = some shape → LooksUp definitions name s levels (shape, s)
  | undeclared {levels : Nat} : builtIn? name = none → Dict.get? s.memory name = none →
      declaration? definitions name = none → LooksUp definitions name s levels (unknown, s)
  | busy {levels : Nat} {d : Definition} : declaration? definitions name = some d →
      Dict.get? s.memory name = none → name ∈ s.busy →
      LooksUp definitions name s levels (cutShort (.circle name) s)
  | deepest {d : Definition} : declaration? definitions name = some d →
      Dict.get? s.memory name = none → name ∉ s.busy →
      LooksUp definitions name s 0 (cutShort .depth s)
  | enter {levels : Nat} {d : Definition} : declaration? definitions name = some d →
      Dict.get? s.memory name = none → name ∉ s.busy →
      LooksUp definitions name s (levels + 1)
        (enter name (definitionAt (lookup definitions) definitions levels d) s)

/-- **A look-up goes one of six ways.** The ways exclude each other, and a proof about look-ups is a
    case split on this. -/
theorem looksUp (definitions : Dict Definition) (levels : Nat) (name : String) (s : Session) :
    LooksUp definitions name s levels (lookup definitions levels name s) := by
  rcases hb : builtIn? name with _ | shape
  · rcases hmemory : Dict.get? s.memory name with _ | shape
    · rcases hd : declaration? definitions name with _ | d
      · rw [lookup_undeclared hb hmemory hd]
        exact .undeclared hb hmemory hd
      · by_cases hbusy : name ∈ s.busy
        · rw [lookup_busy hd hmemory hbusy]
          exact .busy hd hmemory hbusy
        · cases levels with
          | zero =>
            rw [lookup_deepest hd hmemory hbusy]
            exact .deepest hd hmemory hbusy
          | succ levels =>
            rw [lookup_enter hd hmemory hbusy]
            exact .enter hd hmemory hbusy
    · rw [lookup_remembered hb hmemory]
      exact .remembered hb hmemory
  · rw [lookup_builtIn hb]
    exact .builtIn hb

/-! ## Circles

Declarations refer to one another.  A name that leads back to itself through another declaration has
no shape of its own; through itself alone it has. -/

/-- The declaration of `a` mentions `b`. -/
def Refers (definitions : Dict Definition) (a b : String) : Prop :=
  ∃ d, declaration? definitions a = some d ∧ b ∈ d.names

/-- Declarations lead from `a` to `b`. -/
def Leads (definitions : Dict Definition) : String → String → Prop :=
  Relation.ReflTransGen (Refers definitions)

/-- No circle that `name` leads to goes through two declarations. -/
def Plain (definitions : Dict Definition) (name : String) : Prop :=
  ∀ a b, Leads definitions name a → Leads definitions a b → Leads definitions b a → a = b

/-- What a plain name leads to is plain. -/
theorem Plain.of_leads {a b : String} (h : Plain definitions a) (hab : Leads definitions a b) :
    Plain definitions b :=
  fun c d hc => h c d (hab.trans hc)

/-- The names in a plain declaration are plain. -/
theorem Plain.of_names {name : String} {d : Definition} (h : Plain definitions name)
    (hd : declaration? definitions name = some d) : ∀ n ∈ d.names, Plain definitions n :=
  fun _ hn => h.of_leads (.single ⟨d, hd, hn⟩)

/-! ## Meaning

What a name stands for is independent of sessions, levels and memory.  It is a relation, since a
name on a circle has no meaning. -/

namespace TypeExpr

mutual

/-- A type written out in full depends on what its names stand for.  The recursion is that of
    writing a type out, and lists of types and of members go along with it. -/
theorem shapeIn_congr {env env' : String → Shape} : ∀ type : TypeExpr,
    (∀ n ∈ type.names, env n = env' n) → type.shapeIn env = type.shapeIn env'
  | .absent, _ => by rw [shapeIn, shapeIn]
  | .fixed shape, _ => by rw [shapeIn, shapeIn]
  | .named name, h => by
    rw [shapeIn, shapeIn]
    exact h name (by rw [names]; exact List.mem_singleton_self name)
  | .array item, h => by
    rw [names] at h
    rw [shapeIn, shapeIn, shapeIn_congr item h]
  | .partially base, h => by
    rw [names] at h
    rw [shapeIn, shapeIn, shapeIn_congr base h]
  | .restricted base _ _, h => by
    rw [names] at h
    rw [shapeIn, shapeIn, shapeIn_congr base h]
  | .variant _ first, h => by
    rw [names] at h
    rw [shapeIn, shapeIn, shapeIn_congr first h]
  | .every parts, h => by
    rw [names] at h
    rw [shapeIn, shapeIn, shapesIn_congr parts h]
  | .record members, h => by
    rw [names] at h
    rw [shapeIn, shapeIn, entriesIn_congr members h]

theorem shapesIn_congr {env env' : String → Shape} : ∀ types : List TypeExpr,
    (∀ n ∈ namesOfAll types, env n = env' n) → shapesIn env types = shapesIn env' types
  | [], _ => by rw [shapesIn, shapesIn]
  | t :: ts, h => by
    rw [namesOfAll] at h
    rw [shapesIn, shapesIn, shapeIn_congr t fun n hn => h n (List.mem_append_left _ hn),
      shapesIn_congr ts fun n hn => h n (List.mem_append_right _ hn)]

theorem entriesIn_congr {env env' : String → Shape} : ∀ members : List (String × Bool × TypeExpr),
    (∀ n ∈ namesOfMembers members, env n = env' n) → entriesIn env members = entriesIn env' members
  | [], _ => by rw [entriesIn, entriesIn]
  | (_, _, type) :: rest, h => by
    rw [namesOfMembers] at h
    rw [entriesIn, entriesIn, shapeIn_congr type fun n hn => h n (List.mem_append_left _ hn),
      entriesIn_congr rest fun n hn => h n (List.mem_append_right _ hn)]

end

end TypeExpr

/-- A field depends on what the names in it stand for. -/
theorem Field.shapeIn_congr {env env' : String → Shape} {field : Field}
    (h : ∀ n ∈ field.names, env n = env' n) :
    field.shapeIn definitions env = field.shapeIn definitions env' := by
  unfold Field.names at h
  unfold Field.shapeIn
  cases htype : field.type with
  | none => rfl
  | some type =>
    rw [htype] at h
    rw [Option.map_some, Option.map_some, TypeExpr.shapeIn_congr type h]

theorem Base.shapeIn_congr {env env' : String → Shape} {base : Base}
    (h : ∀ n ∈ base.names, env n = env' n) : base.shapeIn env = base.shapeIn env' := by
  cases base with
  | named name => exact h name (List.mem_singleton_self name)
  | derived names how => exact congrArg how.apply (List.map_congr_left h)

/-- So does a declaration.  Its names are those of its bases and of its own properties. -/
theorem Definition.shapeIn_congr {env env' : String → Shape} {d : Definition}
    (h : ∀ n ∈ d.names, env n = env' n) :
    d.shapeIn definitions env = d.shapeIn definitions env' := by
  cases d with
  | «class» bases fields =>
    have hbases : bases.map (Base.shapeIn env) = bases.map (Base.shapeIn env') :=
      List.map_congr_left fun base hbase => Base.shapeIn_congr fun n hn =>
        h n (List.mem_append_left _ (List.mem_flatMap.mpr ⟨base, hbase, hn⟩))
    have hfields : (fields.map fun f => (f.name, f.shapeIn definitions env)) =
        fields.map fun f => (f.name, f.shapeIn definitions env') :=
      List.map_congr_left fun f hf => congrArg (Prod.mk f.name) (Field.shapeIn_congr fun n hn =>
        h n (List.mem_append_right _ (List.mem_flatMap.mpr ⟨f, hf, hn⟩)))
    rw [Definition.shapeIn, Definition.shapeIn, hbases, hfields]
  | interface bases members =>
    rw [Definition.shapeIn, Definition.shapeIn,
      TypeExpr.shapesIn_congr bases fun n hn => h n (List.mem_append_left _ hn),
      TypeExpr.entriesIn_congr members fun n hn => h n (List.mem_append_right _ hn)]
  | synonym type => exact TypeExpr.shapeIn_congr type h
  | choice values => rfl
  | other => rfl

/-- The shape of a name written out in full; within its declaration the name itself is unknown. -/
inductive Means (definitions : Dict Definition) : String → Shape → Prop
  | builtIn {name : String} {shape : Shape} (h : builtIn? name = some shape) :
      Means definitions name shape
  | undeclared {name : String} (hb : builtIn? name = none)
      (h : declaration? definitions name = none) : Means definitions name unknown
  | declared {name : String} {d : Definition} (h : declaration? definitions name = some d)
      (env : String → Shape) (self : env name = unknown)
      (others : ∀ n ∈ d.names, n ≠ name → Means definitions n (env n)) :
      Means definitions name (d.shapeIn definitions env)

/-- **A name means one shape at most.** Whether a name is built in or declared decides which rule
    applies.  By induction the names in a declaration mean one shape each, but for the name itself,
    which is a plain object. -/
theorem Means.unique {shape shape' : Shape} (h : Means definitions name shape)
    (h' : Means definitions name shape') : shape = shape' := by
  induction h generalizing shape' with
  | builtIn hb =>
    cases h' with
    | builtIn hb' => exact Option.some.inj (hb.symm.trans hb')
    | undeclared hb' => exact absurd (hb.symm.trans hb') (Option.some_ne_none _)
    | declared hd' =>
      exact absurd (hb.symm.trans (builtIn?_eq_none_of_declaration? hd')) (Option.some_ne_none _)
  | undeclared hb hd =>
    cases h' with
    | builtIn hb' => exact absurd (hb'.symm.trans hb) (Option.some_ne_none _)
    | undeclared => rfl
    | declared hd' => exact absurd (hd'.symm.trans hd) (Option.some_ne_none _)
  | @declared name d hd env self _ ih =>
    cases h' with
    | builtIn hb' =>
      exact absurd (hb'.symm.trans (builtIn?_eq_none_of_declaration? hd)) (Option.some_ne_none _)
    | undeclared _ hd' => exact absurd (hd.symm.trans hd') (Option.some_ne_none _)
    | declared hd' env' self' others' =>
      obtain rfl := Option.some.inj (hd.symm.trans hd')
      refine Definition.shapeIn_congr fun n hn => ?_
      by_cases hself : n = name
      · rw [hself, self, self']
      · exact ih n hn hself (others' n hn hself)

/-- What a name means, if anything. -/
noncomputable def meaning (definitions : Dict Definition) (name : String) : Shape :=
  Classical.epsilon (Means definitions name)

/-- What a name means is its meaning. -/
theorem Means.meaning_eq {shape : Shape} (h : Means definitions name shape) :
    meaning definitions name = shape :=
  (Classical.epsilon_spec ⟨shape, h⟩ : Means definitions name (meaning definitions name)).unique h

end RouteAtlas.Shape
