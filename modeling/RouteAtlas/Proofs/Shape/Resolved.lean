/-
  What a session resolves is in step, and so is what it remembers.

  ==== Problem ====

  A declared type is put together from shapes that were resolved for other types, some of them in
  earlier calls: they come out of the memory of the session.  Whatever was called before, a shape that
  comes out has to be in step (`InStep`), and none that stands for a whole type is marked optional,
  since that mark belongs to a property of one object and the shape may be used for another.

  ==== Program ====

  1. **What is written** - a type expression that was read from a tree, and a declaration, carry only
     resolved shapes on them (`fixedResolved_ofNode`, `fixedResolved_declaration`).

  2. **One step** - `Yields`: a computation that starts with a sound memory leaves one, and gives what
     it should.  One lemma for each function that resolves, up to `yields_lookup`.

  3. **A run** - `sound_after`: any calls leave a sound memory.

  ==== The crux ====

  Only properties are ever marked optional, and every way to put shapes together starts a new object or
  takes one part whole.  So `Resolved` passes through all of them, and a shape that is written into the
  memory was yielded by the declaration of its name.
-/
import RouteAtlas.Proofs.Shape.Required
import RouteAtlas.Proofs.Shape.Session

namespace RouteAtlas.Shape

open Syntax (Node)

/-- In step, and not marked optional. -/
def Resolved (s : Shape) : Prop := InStep s ∧ s.optional = false

theorem resolved_unknown : Resolved unknown := ⟨inStep_unknown, rfl⟩

theorem resolved_text : Resolved text := ⟨inStep_text, rfl⟩

theorem resolved_plain (kind : Kind) : Resolved (plain kind) := ⟨inStep_plain kind, rfl⟩

theorem resolved_choiceOf (values : List Json) : Resolved (choiceOf values) :=
  ⟨inStep_choiceOf values, rfl⟩

theorem resolved_arrayOf {items : Shape} (h : InStep items) : Resolved (arrayOf items) :=
  ⟨inStep_arrayOf h, rfl⟩

theorem resolved_ofProperties {properties : List (String × Shape)}
    (h : PropertiesInStep properties) : Resolved (ofProperties properties) :=
  ⟨inStep_ofProperties h, rfl⟩

theorem resolved_unite {parts : List Shape} (h : ∀ s ∈ parts, Resolved s) :
    Resolved (unite parts) := by
  unfold unite
  split
  · exact resolved_unknown
  · rename_i last hlast
    split
    · exact resolved_ofProperties (propertiesInStep_unionOf fun s hs => (h s hs).1)
    · exact h last (List.mem_of_getLast? hlast)

/-- A class derived from resolved ones is resolved. -/
theorem Derivation.resolved_apply (how : Derivation) {bases : List Shape}
    (h : ∀ s ∈ bases, Resolved s) : Resolved (how.apply bases) := by
  unfold Derivation.apply
  split
  · exact resolved_unknown
  · rename_i first rest
    have hfirst : Resolved first := h first List.mem_cons_self
    split
    · exact resolved_unite h
    · exact ⟨hfirst.1.allOptional, hfirst.2⟩
    · exact ⟨hfirst.1.restrict _ _, rfl⟩
    · exact resolved_unknown

/-- The marks of a field leave the parts of its type's shape alone. -/
theorem FieldNotes.inStep_apply (notes : FieldNotes) (optional : Bool) {typed : Option Shape}
    (h : ∀ s, typed = some s → InStep s) : InStep (notes.apply optional typed) := by
  unfold FieldNotes.apply
  cases typed with
  | none =>
    cases notes.kind with
    | none => exact inStep_unknown.marked rfl rfl rfl
    | some kind => exact (inStep_plain kind).marked rfl rfl rfl
  | some shape =>
    cases notes.kind with
    | none => exact (h shape rfl).marked rfl rfl rfl
    | some kind =>
      by_cases hbare : (shape.kind == Kind.object && shape.properties.isEmpty) = true
      · simp only [hbare, if_true]
        exact (inStep_plain kind).marked rfl rfl rfl
      · simp only [hbare]
        exact (h shape rfl).marked rfl rfl rfl

/-! ## What is written on types and declarations

Some shapes are written on a type when it is read from the tree, before any session: keywords and
literals.  These are resolved by themselves. -/

/-- Every shape written on the expression is a resolved one. -/
inductive TypeExpr.FixedResolved : TypeExpr → Prop
  | absent : FixedResolved .absent
  | fixed {shape : Shape} (h : Resolved shape) : FixedResolved (.fixed shape)
  | named (name : String) : FixedResolved (.named name)
  | array {item : TypeExpr} (h : FixedResolved item) : FixedResolved (.array item)
  | partially {base : TypeExpr} (h : FixedResolved base) : FixedResolved (.partially base)
  | restricted {base : TypeExpr} (h : FixedResolved base) (names : List String) (keep : Bool) :
      FixedResolved (.restricted base names keep)
  | variant (nullable : Bool) {first : TypeExpr} (h : FixedResolved first) :
      FixedResolved (.variant nullable first)
  | every {parts : List TypeExpr} (h : ∀ t ∈ parts, FixedResolved t) : FixedResolved (.every parts)
  | record {members : List (String × Bool × TypeExpr)} (h : ∀ m ∈ members, FixedResolved m.2.2) :
      FixedResolved (.record members)

/-- The same for every type that a declaration mentions. -/
inductive Definition.FixedResolved : Definition → Prop
  | class (bases : List Base) {fields : List Field}
      (h : ∀ f ∈ fields, ∀ t, f.type = some t → t.FixedResolved) : FixedResolved (.class bases fields)
  | interface {bases : List TypeExpr} {members : List (String × Bool × TypeExpr)}
      (hbases : ∀ t ∈ bases, t.FixedResolved) (hmembers : ∀ m ∈ members, m.2.2.FixedResolved) :
      FixedResolved (.interface bases members)
  | synonym {type : TypeExpr} (h : type.FixedResolved) : FixedResolved (.synonym type)
  | choice (values : List Json) : FixedResolved (.choice values)
  | other : FixedResolved .other

namespace TypeExpr

/-- The shape of a keyword is resolved. -/
theorem resolved_keywordShape (word : String) : Resolved (keywordShape word) := by
  unfold keywordShape
  split
  · exact resolved_plain _
  · exact resolved_unknown

/-- The shape of a literal type is resolved. -/
theorem resolved_literalTypeShape (n : Node) : Resolved (literalTypeShape n) := by
  unfold literalTypeShape
  split
  · exact resolved_text
  · exact resolved_text
  · exact resolved_choiceOf _

/-- The shape of a union of literals is resolved. -/
theorem resolved_of_choiceOfLiterals? {nullable : Bool} {kept : List Node} {shape : Shape}
    (h : choiceOfLiterals? nullable kept = some shape) : Resolved shape := by
  unfold choiceOfLiterals? at h
  split at h
  · split at h
    · cases h
    · cases h
      exact ⟨inStep_bare rfl rfl rfl, rfl⟩
  · cases h

/-- **A type that is read from a tree** has only resolved shapes written on it.

    The cases are those of the reading: what it writes down itself are keywords, literals and
    unknown types. -/
theorem fixedResolved_ofNode (node : Node) : FixedResolved (ofNode node) := by
  fun_induction ofNode node
  case case1 => exact .absent
  case case2 => exact .fixed (resolved_keywordShape _)
  case case3 | case4 | case8 | case15 | case17 => exact .named _
  case case5 | case21 => exact .array .absent
  case case6 | case7 | case14 | case16 | case19 | case24 | case30 => exact .fixed resolved_unknown
  case case9 ih | case20 ih | case22 ih => exact .array ih
  case case10 ih | case18 ih => exact ih
  case case11 ih => exact .partially ih
  case case12 ih | case13 ih => exact .restricted ih _ _
  case case23 => exact .fixed (resolved_arrayOf inStep_text)
  case case25 shape hshape => exact .fixed (resolved_of_choiceOfLiterals? hshape)
  case case26 ih => exact .variant _ ih
  case case27 ih =>
    refine .every fun t ht => ?_
    obtain ⟨⟨c, hc⟩, -, rfl⟩ := List.mem_map.mp ht
    exact ih c hc
  case case28 => exact .fixed (resolved_literalTypeShape _)
  case case29 ih =>
    refine .record fun m hm => ?_
    obtain ⟨⟨⟨name, opt, type⟩, hs⟩, -, rfl⟩ := List.mem_map.mp hm
    cases type with
    | some t => exact ih name opt t hs
    | none => exact .absent

theorem fixedResolved_ofNode? (node : Option Node) : FixedResolved (ofNode? node) := by
  cases node with
  | none => exact .absent
  | some n => exact fixedResolved_ofNode n

theorem fixedResolved_membersOf (members : List Node) :
    ∀ m ∈ membersOf members, FixedResolved m.2.2 := by
  intro m hm
  obtain ⟨⟨name, opt, type⟩, -, rfl⟩ := List.mem_map.mp hm
  exact fixedResolved_ofNode? type

end TypeExpr

theorem fixedResolved_of_fieldOf? {member : Syntax.Site} {f : Field} (h : fieldOf? member = some f)
    {t : TypeExpr} (ht : f.type = some t) : t.FixedResolved := by
  unfold fieldOf? at h
  dsimp only at h
  split at h
  · cases h
  · obtain ⟨name, -, h⟩ := Option.bind_eq_some_iff.mp h
    split at h
    · cases h
    · cases h
      obtain ⟨n, -, rfl⟩ := Option.map_eq_some_iff.mp ht
      exact TypeExpr.fixedResolved_ofNode n

/-- **A declaration that is read from a tree** mentions only such types. -/
theorem fixedResolved_declaration (node : Node) : (Definition.ofNode node).FixedResolved := by
  have hclass : (Definition.class (classBases node)
      (((((Syntax.Site.root node).field? "body").map Syntax.Site.namedChildren).getD []).filterMap
        fieldOf?)).FixedResolved := by
    refine .class _ fun f hf t ht => ?_
    obtain ⟨member, -, hmember⟩ := List.mem_filterMap.mp hf
    exact fixedResolved_of_fieldOf? hmember ht
  unfold Definition.ofNode
  split
  · exact hclass
  · exact hclass
  · refine .interface (fun t ht => ?_) (TypeExpr.fixedResolved_membersOf _)
    obtain ⟨clause, -, hclause⟩ := List.mem_flatMap.mp ht
    obtain ⟨n, -, rfl⟩ := List.mem_map.mp hclause
    exact TypeExpr.fixedResolved_ofNode n
  · exact .synonym (TypeExpr.fixedResolved_ofNode? _)
  · exact .choice _
  · exact .other

/-! ## Computations in a session

A small program logic: `Yields I Q m` says that `m` keeps the invariant `I` of a session and gives
what satisfies `Q`.  It goes through return, bind and loops. -/

/-- The session remembers resolved shapes only. -/
def Session.Sound (s : Session) : Prop := ∀ e ∈ s.memory, Resolved e.2

/-- In a session with `I` the computation gives what satisfies `Q`, and leaves a session with `I`. -/
def Yields {α : Type} (I : Session → Prop) (Q : α → Prop) (m : Resolving α) : Prop :=
  ∀ s : Session, I s → Q (m s).1 ∧ I (m s).2

namespace Yields

variable {α β : Type} {I : Session → Prop} {Q : α → Prop} {R : β → Prop}

theorem pure {a : α} (h : Q a) : Yields I Q (Pure.pure a) := fun _ hs => ⟨h, hs⟩

/-- One computation after the other. -/
theorem bind {m : Resolving α} {f : α → Resolving β} (hm : Yields I Q m)
    (hf : ∀ a, Q a → Yields I R (f a)) : Yields I R (m >>= f) := by
  intro s hs
  obtain ⟨ha, hs'⟩ := hm s hs
  exact hf (m s).1 ha (m s).2 hs'

/-- Nothing is given: all that is given satisfies `Q`. -/
theorem none : Yields I (fun given : Option α => ∀ a, given = some a → Q a) (Pure.pure none) :=
  .pure fun a h => absurd h.symm (Option.some_ne_none a)

/-- Cutting short gives a shape that could be anything. -/
theorem cutShort (cut : Cut) : Yields Session.Sound Resolved (cutShort cut) :=
  fun _ hs => ⟨resolved_unknown, hs⟩

/-- What a list of steps gives holds of all that they started with and gave. -/
theorem foldlM {step : β → α → Resolving β} (entries : List α) {start : β} (hstart : R start)
    (h : ∀ b, R b → ∀ a ∈ entries, Yields I R (step b a)) : Yields I R (entries.foldlM step start) := by
  induction entries generalizing start with
  | nil => exact .pure hstart
  | cons a entries ih =>
    rw [List.foldlM_cons]
    refine (h start hstart a List.mem_cons_self).bind fun b hb => ?_
    exact ih hb fun b hb a ha => h b hb a (List.mem_cons_of_mem _ ha)

/-- A loop that gives one result for each entry. -/
theorem mapM {f : α → Resolving β} (entries : List α) (h : ∀ a ∈ entries, Yields I R (f a)) :
    Yields I (fun results => ∀ b ∈ results, R b) (entries.mapM f) := by
  induction entries with
  | nil => exact .pure fun _ hb => absurd hb List.not_mem_nil
  | cons a entries ih =>
    rw [List.mapM_cons]
    refine (h a List.mem_cons_self).bind fun b hb => ?_
    refine (ih fun a ha => h a (List.mem_cons_of_mem _ ha)).bind fun bs hbs => ?_
    refine .pure fun c hc => ?_
    rcases List.mem_cons.mp hc with rfl | hc
    · exact hb
    · exact hbs c hc

end Yields

/-! ## Types and declarations

By recursion on the type, as the program does it.  Names are left to `find`, of which it is assumed
that it yields resolved shapes. -/

/-- Every name that is looked up yields a resolved shape. -/
def FindsResolved (find : Lookup) : Prop :=
  ∀ levels name, Yields Session.Sound Resolved (find levels name)

variable {find : Lookup}

mutual

/-- **A type yields a resolved shape**, at any level. -/
theorem yields_shapeAt (hfind : FindsResolved find) :
    ∀ (levels : Nat) (type : TypeExpr), type.FixedResolved →
    Yields Session.Sound Resolved (shapeAt find levels type)
  -- what is not written is anything, on every level
  | _, .absent, _ => by
    rw [shapeAt]
    exact .pure resolved_unknown
  | 0, type, _ => by
    rcases shapeAt_zero find type with h | h
    · rw [h]
      exact .pure resolved_unknown
    · rw [h]
      exact .cutShort .depth
  | levels + 1, .fixed shape, .fixed h => by
    rw [shapeAt]
    exact .pure h
  -- names are left to the look-ups
  | levels + 1, .named name, _ => by
    rw [shapeAt]
    exact hfind (levels + 1) name
  | levels + 1, .array item, .array h => by
    rw [shapeAt]
    exact (yields_shapeAt hfind levels item h).bind fun s hs => .pure (resolved_arrayOf hs.1)
  | levels + 1, .partially base, .partially h => by
    rw [shapeAt]
    exact (yields_shapeAt hfind (levels + 1) base h).bind fun s hs => .pure ⟨hs.1.allOptional, hs.2⟩
  | levels + 1, .restricted base names keep, .restricted h _ _ => by
    rw [shapeAt]
    exact (yields_shapeAt hfind (levels + 1) base h).bind fun s hs =>
      .pure ⟨hs.1.restrict names keep, rfl⟩
  | levels + 1, .variant nullable first, .variant _ h => by
    rw [shapeAt]
    refine (yields_shapeAt hfind levels first h).bind fun s hs => .pure ?_
    split
    · exact ⟨hs.1.marked rfl rfl rfl, hs.2⟩
    · exact hs
  | levels + 1, .every parts, .every h => by
    rw [shapeAt]
    exact (yields_shapesAt hfind levels parts h).bind fun s hs => .pure (resolved_unite hs)
  -- an object type is made of its members
  | levels + 1, .record members, .record h => by
    rw [shapeAt]
    exact (yields_entriesAt hfind levels members h).bind fun entries hentries =>
      .pure (resolved_ofProperties (propertiesInStep_ofList hentries))

/-- Several types yield resolved shapes. -/
theorem yields_shapesAt (hfind : FindsResolved find)
    (levels : Nat) : ∀ types : List TypeExpr, (∀ t ∈ types, t.FixedResolved) →
    Yields Session.Sound (fun shapes => ∀ s ∈ shapes, Resolved s) (shapesAt find levels types)
  | [], _ => by
    rw [shapesAt]
    exact .pure fun _ hs => absurd hs List.not_mem_nil
  | t :: ts, h => by
    rw [shapesAt]
    refine (yields_shapeAt hfind levels t (h t List.mem_cons_self)).bind fun s hs => ?_
    refine (yields_shapesAt hfind levels ts fun t ht => h t (List.mem_cons_of_mem _ ht)).bind
      fun ss hss => ?_
    exact .pure (List.forall_mem_cons.mpr ⟨hs, hss⟩)

/-- The members of an object type yield shapes in step; some of them are optional. -/
theorem yields_entriesAt (hfind : FindsResolved find)
    (levels : Nat) : ∀ members : List (String × Bool × TypeExpr),
    (∀ m ∈ members, m.2.2.FixedResolved) →
    Yields Session.Sound (fun entries => ∀ e ∈ entries, InStep e.2) (entriesAt find levels members)
  | [], _ => by
    rw [entriesAt]
    exact .pure fun _ hs => absurd hs List.not_mem_nil
  | (name, opt, type) :: rest, h => by
    rw [entriesAt]
    refine (yields_shapeAt hfind levels type (h _ List.mem_cons_self)).bind fun s hs => ?_
    refine (yields_entriesAt hfind levels rest fun m hm => h m (List.mem_cons_of_mem _ hm)).bind
      fun entries hentries => ?_
    exact .pure (List.forall_mem_cons.mpr ⟨hs.1.asOptional opt, hentries⟩)

end

/-- The table of these members is one of properties in step. -/
theorem yields_membersAt (hfind : FindsResolved find)
    (levels : Nat) (members : List (String × Bool × TypeExpr))
    (h : ∀ m ∈ members, m.2.2.FixedResolved) :
    Yields Session.Sound PropertiesInStep (membersAt find levels members) := by
  rw [membersAt]
  exact (yields_entriesAt hfind levels members h).bind fun entries hentries =>
    .pure (propertiesInStep_ofList hentries)

/-- A field yields a shape in step: its marks come on top of a resolved shape. -/
theorem yields_fieldAt (hfind : FindsResolved find)
    (definitions : Dict Definition) (levels : Nat) {field : Field}
    (h : ∀ t, field.type = some t → t.FixedResolved) :
    Yields Session.Sound InStep (fieldAt find definitions levels field) := by
  unfold fieldAt
  dsimp only
  split
  · exact .pure (FieldNotes.inStep_apply _ _ nofun)
  · rename_i type htype
    refine (yields_shapeAt hfind (levels - 1) type (h type htype)).bind fun s hs => .pure ?_
    exact FieldNotes.inStep_apply _ _ fun t ht => Option.some.inj ht ▸ hs.1

theorem yields_fieldsAt (hfind : FindsResolved find)
    (definitions : Dict Definition) (levels : Nat) {fields : List Field}
    (h : ∀ f ∈ fields, ∀ t, f.type = some t → t.FixedResolved) :
    Yields Session.Sound (fun entries => ∀ e ∈ entries, InStep e.2)
      (fieldsAt find definitions levels fields) := by
  induction fields with
  | nil => exact .pure fun _ he => absurd he List.not_mem_nil
  | cons f fields ih =>
    rw [fieldsAt]
    refine (yields_fieldAt hfind definitions levels (h f List.mem_cons_self)).bind fun s hs => ?_
    refine (ih fun g hg => h g (List.mem_cons_of_mem _ hg)).bind fun entries hentries => ?_
    exact .pure (List.forall_mem_cons.mpr ⟨hs, hentries⟩)

/-- Names that are looked up one after the other yield resolved shapes. -/
theorem yields_lookupAll (hfind : FindsResolved find) (levels : Nat)
    (names : List String) :
    Yields Session.Sound (fun shapes => ∀ s ∈ shapes, Resolved s) (lookupAll find levels names) := by
  induction names with
  | nil => exact .pure fun _ hs => absurd hs List.not_mem_nil
  | cons n names ih =>
    rw [lookupAll]
    refine (hfind levels n).bind fun s hs => ih.bind fun ss hss => ?_
    exact .pure (List.forall_mem_cons.mpr ⟨hs, hss⟩)

theorem yields_basesAt (hfind : FindsResolved find) (levels : Nat)
    (bases : List Base) :
    Yields Session.Sound (fun shapes => ∀ s ∈ shapes, Resolved s) (basesAt find levels bases) := by
  induction bases with
  | nil => exact .pure fun _ hs => absurd hs List.not_mem_nil
  | cons base bases ih =>
    cases base with
    | named name =>
      rw [basesAt]
      refine (hfind levels name).bind fun s hs => ih.bind fun ss hss => ?_
      exact .pure (List.forall_mem_cons.mpr ⟨hs, hss⟩)
    | derived names how =>
      rw [basesAt]
      refine (yields_lookupAll hfind levels names).bind fun s hs => ih.bind fun ss hss => ?_
      exact .pure (List.forall_mem_cons.mpr ⟨how.resolved_apply hs, hss⟩)

/-- A declaration yields what its own properties and those of its bases make up.  Every kind of
    declaration is united from parts that are resolved, or is a type by itself. -/
theorem yields_definitionAt (hfind : FindsResolved find)
    (definitions : Dict Definition) (levels : Nat) {definition : Definition}
    (h : definition.FixedResolved) :
    Yields Session.Sound Resolved (definitionAt find definitions levels definition) := by
  -- what is declared itself comes last and is an object of its own
  have hunite : ∀ {parts : List Shape} {own : List (String × Shape)}, (∀ s ∈ parts, Resolved s) →
      PropertiesInStep own → Resolved (unite (parts ++ [ofProperties own])) := by
    intro parts own hparts hown
    refine resolved_unite fun s hs => ?_
    rcases List.mem_append.mp hs with hs | hs
    · exact hparts s hs
    · exact List.mem_singleton.mp hs ▸ resolved_ofProperties hown
  unfold definitionAt
  cases h with
  | «class» bases hfields =>
    refine (yields_basesAt hfind levels bases).bind fun parts hparts => ?_
    refine (yields_fieldsAt hfind definitions levels hfields).bind fun own hown => ?_
    exact .pure (hunite hparts (propertiesInStep_ofList hown))
  | interface hbases hmembers =>
    refine (yields_shapesAt hfind levels _ hbases).bind fun parts hparts => ?_
    refine (yields_membersAt hfind (levels - 1) _ hmembers).bind fun own hown => ?_
    exact .pure (hunite hparts hown)
  | synonym htype => exact yields_shapeAt hfind levels _ htype
  | choice values => exact .pure (resolved_choiceOf values)
  | other => exact .pure resolved_unknown

/-! ## Names

A look-up returns what is remembered, cuts short, or resolves the declaration one level further
down.  In every case the shape is resolved, and so is what is remembered after it. -/

/-- What a declaration yields is what is remembered under its name. -/
theorem Yields.enter (name : String) {body : Resolving Shape} (h : Yields Session.Sound Resolved body) :
    Yields Session.Sound Resolved (enter name body) := by
  intro s hs
  obtain ⟨hshape, hafter⟩ := h (s.inside name) hs
  rw [enter_eq]
  refine ⟨hshape, ?_⟩
  unfold Session.Sound
  dsimp only
  split
  · rintro ⟨k, v⟩ he
    rcases Dict.mem_put he with hold | ⟨rfl, -⟩
    · exact hafter _ hold
    · exact hshape
  · exact hafter

/-- Every declaration in the table mentions resolved shapes only. -/
def DeclaresResolved (definitions : Dict Definition) : Prop :=
  ∀ e ∈ definitions, e.2.FixedResolved

/-- A name yields a resolved shape if its declaration does one level further down.  A shape that was
    remembered is resolved because the session is sound. -/
theorem yields_lookupWith {definitions : Dict Definition} (hdefs : DeclaresResolved definitions)
    {define : Option (Definition → Resolving Shape)}
    (h : ∀ d, define = some d → ∀ definition : Definition, definition.FixedResolved →
      Yields Session.Sound Resolved (d definition)) (name : String) :
    Yields Session.Sound Resolved (lookupWith definitions define name) := by
  intro s hs
  unfold lookupWith
  split
  · exact ⟨resolved_plain _, hs⟩
  split
  · exact ⟨⟨inStep_formatted _, rfl⟩, hs⟩
  split
  · rename_i shape hget
    exact ⟨hs _ (Dict.mem_of_get? hget), hs⟩
  split
  · exact ⟨resolved_unknown, hs⟩
  rename_i definition hdef
  split
  · exact Yields.cutShort _ s hs
  split
  · exact Yields.cutShort _ s hs
  · exact Yields.enter name (h _ rfl definition (hdefs _ (Dict.mem_of_get? hdef))) s hs

/-- **Every name yields a resolved shape**, with whatever levels left. -/
theorem findsResolved_lookup {definitions : Dict Definition}
    (hdefs : DeclaresResolved definitions) : FindsResolved (lookup definitions) := by
  have hupTo : ∀ top, FindsResolved (lookupUpTo definitions top) := by
    intro top
    induction top with
    | zero =>
      intro _ name
      refine yields_lookupWith hdefs (fun _ hd => ?_) name
      cases hd
    | succ top ih =>
      intro levels name
      rw [lookupUpTo_succ]
      split
      · exact ih levels name
      · refine yields_lookupWith hdefs (fun d hd definition hdefinition => ?_) name
        cases hd
        exact yields_definitionAt ih definitions top hdefinition
  exact fun levels name => hupTo levels levels name

/-- **So does every type**. -/
theorem yields_type {definitions : Dict Definition} (hdefs : DeclaresResolved definitions)
    (levels : Nat) {type : TypeExpr} (h : type.FixedResolved) :
    Yields Session.Sound Resolved (shapeAt (lookup definitions) levels type) :=
  yields_shapeAt (findsResolved_lookup hdefs) levels type h

/-! ## Histories

The session of a survey is shared by all handlers.  By induction on their calls it is sound. -/

/-- The declarations that nodes of a file are read as. -/
def declarations (nodes : Dict Node) : Dict Definition :=
  nodes.map fun (n, node) => (n, Definition.ofNode node)

/-- The declarations of a file mention resolved shapes only. -/
theorem declaresResolved_declarations (nodes : Dict Node) :
    DeclaresResolved (declarations nodes) := by
  intro e he
  obtain ⟨⟨n, node⟩, -, rfl⟩ := List.mem_map.mp he
  exact fixedResolved_declaration node

/-- A call keeps a session sound. -/
theorem yields_run {definitions : Dict Definition} (hdefs : DeclaresResolved definitions)
    (call : Call) : Yields Session.Sound Resolved (call.run definitions) := by
  cases call with
  | named levels name => exact findsResolved_lookup hdefs levels name
  | typed levels node => exact yields_type hdefs levels (TypeExpr.fixedResolved_ofNode? node)

/-- **After any calls a session is sound.** -/
theorem sound_after {definitions : Dict Definition} (hdefs : DeclaresResolved definitions)
    (calls : List Call) : (Session.after definitions calls).Sound :=
  Session.after_induct (fun _ he => absurd he List.not_mem_nil)
    (fun call s hs => (yields_run hdefs call s hs).2) calls

end RouteAtlas.Shape
