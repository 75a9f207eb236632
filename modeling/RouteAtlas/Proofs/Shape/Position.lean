/-
  What is remembered of a name does not depend on where the name was met.

  ==== Problem ====

  A name may be met deep within other declarations.  Few levels are left there, and the names of the
  declarations around it are unknown objects.  What the session remembers of the name is used
  everywhere later, so it should show neither.

  ==== Program ====

  1. **One run** - `Keeps`: whatever is resolved, the names being resolved are the same afterwards,
     and the memory has got new entries behind the old ones.

  2. **Two runs** - `Lifts`: a computation at one place, and the same computation at a higher place,
     where more levels are left and fewer names are being resolved.  Unless the first makes a cut that
     comes from its place, both go the same way (`lifts_shapeAt`, `lifts_definitionAt`,
     `lookupsLift`).

  3. **Together** - what is remembered of a name is what it is at the top, with nothing being
     resolved and any number of further levels (`lookup_of_stored`); and a memory is built of such
     shapes, one after the other (`fromTop_after`).

  ==== The crux ====

  Cuts are never forgotten except by the declaration that they are at.  So a declaration whose notes
  name nothing but itself made no other cut on the way, and that is all its place could do to it.
-/
import RouteAtlas.Proofs.Shape.History

namespace RouteAtlas.Shape

variable {definitions : Dict Definition}

/-! ## One run

What one look-up does to a session, whatever the session was: names in progress are as before, and
memory only grows.  No assumption on circles is made here. -/

/-- A run leaves the names being resolved as they were and remembers none of them, has added to the
    end of the memory, and has forgotten no cut. -/
structure Keeps (s s' : Session) : Prop where
  busy_eq : s'.busy = s.busy
  memory : s.memory <+: s'.memory
  apart : ∀ n ∈ s.busy, Dict.get? s'.memory n = Dict.get? s.memory n
  cuts : ∀ c ∈ s.cuts, c ∈ s'.cuts

namespace Keeps

variable {s s' s'' : Session}

theorem refl (s : Session) : Keeps s s :=
  ⟨rfl, List.prefix_refl _, fun _ _ => rfl, fun _ hc => hc⟩

/-- One computation after the other keeps it if both do. -/
theorem trans (h : Keeps s s') (h' : Keeps s' s'') : Keeps s s'' where
  busy_eq := h'.busy_eq.trans h.busy_eq
  memory := h.memory.trans h'.memory
  apart := fun n hn => (h'.apart n (h.busy_eq ▸ hn)).trans (h.apart n hn)
  cuts := fun c hc => h'.cuts c (h.cuts c hc)

/-- Cutting short changes only the notes of cuts. -/
theorem cutShort (cut : Cut) (s : Session) : Keeps s (cutShort cut s).2 where
  busy_eq := rfl
  memory := List.prefix_refl _
  apart := fun _ _ => rfl
  cuts := fun _ hc => mem_cuts_cutShort.mpr (.inl hc)

/-- What was remembered stays. -/
theorem get?_eq_some (h : Keeps s s') {n : String} {shape : Shape}
    (hn : Dict.get? s.memory n = some shape) : Dict.get? s'.memory n = some shape := by
  obtain ⟨added, hadded⟩ := h.memory
  rw [← hadded, Dict.get?_append, hn]
  rfl

section

variable {name : String} {body : Resolving Shape} (hmemory : Dict.get? s.memory name = none)
  (h : Keeps (s.inside name) (body (s.inside name)).2)
include hmemory h

/-- The body of a declaration does not remember the declaration. -/
theorem get?_body : Dict.get? (body (s.inside name)).2.memory name = none :=
  (h.apart name List.mem_cons_self).trans hmemory

/-- A name that is entered is remembered behind all that its body remembers. -/
theorem memory_enter : (enter name body s).2.memory =
    if ((body (s.inside name)).2.cutsBesides name).isEmpty then
      (body (s.inside name)).2.memory ++ [(name, (body (s.inside name)).1)]
    else (body (s.inside name)).2.memory := by
  rw [enter_eq]
  dsimp only
  rw [Dict.put_eq_append (get?_body hmemory h)]

/-- Entering a name keeps the session if its body does.  The name is put in front of those in
    progress and taken out again. -/
theorem enter (hbusy : name ∉ s.busy) : Keeps s (enter name body s).2 where
  busy_eq := by
    rw [enter_eq]
    show (body (s.inside name)).2.busy.erase name = s.busy
    rw [h.busy_eq]
    exact List.erase_cons_head ..
  memory := by
    have hbody : s.memory <+: (body (s.inside name)).2.memory := h.memory
    rw [memory_enter hmemory h]
    split
    · exact hbody.trans (List.prefix_append ..)
    · exact hbody
  apart := by
    intro n hn
    have hne : n ≠ name := by
      rintro rfl
      exact hbusy hn
    rw [get?_enter, if_neg fun hand => hne hand.1]
    exact h.apart n (List.mem_cons_of_mem _ hn)
  cuts := fun c hc => mem_cuts_enter.mpr (.inl hc)

end

end Keeps

/-- The steps of a script keep what look-ups keep. -/
theorem Scripted.keeps {α : Type} {levels : Nat} {names : List String} {m : Lookup → Resolving α}
    {value : (String → Shape) → α} (hm : Scripted levels names m value)
    (hlookup : ∀ l ≤ levels, ∀ name s, Keeps s (lookup definitions l name s).2) (s : Session) :
    Keeps s (m (lookup definitions) s).2 := by
  obtain ⟨steps, assemble, hrun, hwithin, -⟩ := hm
  rw [hrun]
  exact performAll_along .refl .trans (.cutShort .depth) (fun l hl name _ => hlookup l hl name)
    hwithin s

/-- **Every look-up keeps the session**, whatever it was. -/
theorem keeps_lookup (definitions : Dict Definition) (levels : Nat) (name : String) (s : Session) :
    Keeps s (lookup definitions levels name s).2 := by
  induction levels using Nat.strongRecOn generalizing name s with
  | ind levels ih =>
    have hcase := looksUp definitions levels name s
    generalize lookup definitions levels name s = found at hcase ⊢
    cases hcase with
    | builtIn | remembered | undeclared => exact .refl s
    | busy | deepest => exact .cutShort _ s
    | @enter levels d hd hmemory hbusy =>
      refine .enter hmemory ?_ hbusy
      exact (scripted_definitionAt definitions levels d).keeps
        (fun l hl => ih l (Nat.lt_succ_of_le hl)) _

/-- So does every script. -/
theorem Scripted.keeps_session {α : Type} {levels : Nat} {names : List String}
    {m : Lookup → Resolving α} {value : (String → Shape) → α} (hm : Scripted levels names m value)
    (definitions : Dict Definition) (s : Session) : Keeps s (m (lookup definitions) s).2 :=
  hm.keeps (fun l _ => keeps_lookup definitions l) s

/-! ## Two runs

The same look-up at two places, one higher up than the other.  As long as the lower one is not cut
by depth, both do the same, step by step: a simulation. -/

/-- `s'` is higher than `s`: it remembers the same and has noted the same cuts, and fewer names are
    being resolved. -/
structure Higher (s' s : Session) : Prop where
  memory_eq : s'.memory = s.memory
  cuts_eq : s'.cuts = s.cuts
  busy : ∀ n ∈ s'.busy, n ∈ s.busy

/-- Within a name the higher session is higher still. -/
theorem Higher.inside {s s' : Session} (h : Higher s' s) (name : String) :
    Higher (s'.inside name) (s.inside name) where
  memory_eq := h.memory_eq
  cuts_eq := rfl
  busy := by
    intro n hn
    rcases List.mem_cons.mp hn with rfl | hn
    · exact List.mem_cons_self
    · exact List.mem_cons_of_mem _ (h.busy n hn)

/-- Both note the same cut. -/
theorem Higher.cutShort {s s' : Session} (h : Higher s' s) (cut : Cut) :
    Higher (cutShort cut s').2 (cutShort cut s).2 := by
  unfold Shape.cutShort
  dsimp only
  rw [h.cuts_eq]
  exact ⟨h.memory_eq, rfl, h.busy⟩

/-- All cuts that were noted are at names in `busy`. -/
def CutsAt (busy : List String) (s : Session) : Prop := ∀ c ∈ s.cuts, ∃ n ∈ busy, c = .circle n

/-- The second computation does at a higher place what the first one does, unless the first one makes
    a cut that comes from its place. -/
structure Lifts {α : Type} (m m' : Resolving α) : Prop where
  keeps : ∀ s, Keeps s (m s).2
  keeps' : ∀ s, Keeps s (m' s).2
  agrees : ∀ s s', Higher s' s → CutsAt s'.busy (m s).2 →
    (m' s').1 = (m s).1 ∧ Higher (m' s').2 (m s).2

namespace Lifts

variable {α β γ : Type}

/-- A computation that does nothing does the same anywhere. -/
theorem pure (a : α) : Lifts (Pure.pure a : Resolving α) (Pure.pure a) where
  keeps := .refl
  keeps' := .refl
  agrees := fun _ _ h _ => ⟨rfl, h⟩

/-- What is cut by depth may be anything at a higher place. -/
theorem cut {m' : Resolving Shape} (hkeeps : ∀ s, Keeps s (m' s).2) : Lifts (cutShort .depth) m' where
  keeps := .cutShort .depth
  keeps' := hkeeps
  agrees := by
    intro s s' _ hcuts
    obtain ⟨n, -, hn⟩ := hcuts .depth (mem_cuts_cutShort.mpr (.inr rfl))
    cases hn

theorem map {m m' : Resolving α} (h : Lifts m m') (f : α → β) :
    Lifts (do return f (← m)) (do return f (← m')) where
  keeps := h.keeps
  keeps' := h.keeps'
  agrees := by
    intro s s' hhigher hcuts
    obtain ⟨hresult, hafter⟩ := h.agrees s s' hhigher hcuts
    exact ⟨congrArg f hresult, hafter⟩

/-- One after the other: what the first part notes stands in the end. -/
theorem both {m m' : Resolving α} {k k' : Resolving β} (h : Lifts m m') (hk : Lifts k k')
    (f : α → β → γ) :
    Lifts (do let a ← m; let b ← k; return f a b) (do let a ← m'; let b ← k'; return f a b) where
  keeps := fun s => (h.keeps s).trans (hk.keeps _)
  keeps' := fun s => (h.keeps' s).trans (hk.keeps' _)
  agrees := by
    intro s s' hhigher hcuts
    have hcuts : CutsAt s'.busy (k (m s).2).2 := hcuts
    obtain ⟨hfirst, hmiddle⟩ := h.agrees s s' hhigher fun c hc => hcuts c ((hk.keeps _).cuts c hc)
    have hbusy : (m' s').2.busy = s'.busy := (h.keeps' s').busy_eq
    obtain ⟨hsecond, hafter⟩ := hk.agrees _ _ hmiddle (hbusy ▸ hcuts)
    exact ⟨congrArg₂ f hfirst hsecond, hafter⟩

end Lifts

/-- Look-ups with up to `levels` levels left lift to those with more. -/
def LookupsLift (definitions : Dict Definition) (levels : Nat) : Prop :=
  ∀ l ≤ levels, ∀ more, l ≤ more → ∀ name,
    Lifts (lookup definitions l name) (lookup definitions more name)

/-- With no level left all is cut that is written. -/
theorem lifts_shapeAt_zero (more : Nat) (type : TypeExpr) :
    Lifts (shapeAt (lookup definitions) 0 type) (shapeAt (lookup definitions) more type) := by
  cases type with
  | absent =>
    rw [shapeAt, shapeAt]
    exact .pure unknown
  | _ =>
    rw [shapeAt.eq_2]
    · exact .cut ((scripted_shapeAt more _).keeps_session definitions)
    · exact nofun

mutual

/-- **A type** is the same at a higher place. -/
theorem lifts_shapeAt {bound : Nat} (hlookup : LookupsLift definitions bound) :
    ∀ (levels more : Nat) (type : TypeExpr), levels ≤ bound → levels ≤ more →
    Lifts (shapeAt (lookup definitions) levels type) (shapeAt (lookup definitions) more type)
  -- the recursion of the program: on the levels, and within one level on the type
  | 0, more, type, _, _ => lifts_shapeAt_zero more type
  | levels + 1, 0, _, _, h => absurd h (Nat.not_succ_le_zero levels)
  | levels + 1, more + 1, .absent, _, _ => by
    rw [shapeAt, shapeAt]
    exact .pure unknown
  | levels + 1, more + 1, .fixed shape, _, _ => by
    rw [shapeAt, shapeAt]
    exact .pure shape
  -- names are left to the look-ups, which the caller lifts
  | levels + 1, more + 1, .named name, hl, h => by
    rw [shapeAt, shapeAt]
    exact hlookup (levels + 1) hl (more + 1) h name
  | levels + 1, more + 1, .array item, hl, h => by
    rw [shapeAt, shapeAt]
    exact (lifts_shapeAt hlookup levels more item (by omega) (by omega)).map arrayOf
  -- derived types stay on their level
  | levels + 1, more + 1, .partially base, hl, h => by
    rw [shapeAt, shapeAt]
    exact (lifts_shapeAt hlookup (levels + 1) (more + 1) base hl h).map allOptional
  | levels + 1, more + 1, .restricted base names keep, hl, h => by
    rw [shapeAt, shapeAt]
    exact (lifts_shapeAt hlookup (levels + 1) (more + 1) base hl h).map fun s => s.restrict names keep
  | levels + 1, more + 1, .variant nullable first, hl, h => by
    rw [shapeAt, shapeAt]
    exact (lifts_shapeAt hlookup levels more first (by omega) (by omega)).map fun s =>
      if nullable then { s with nullable := true } else s
  | levels + 1, more + 1, .every parts, hl, h => by
    rw [shapeAt, shapeAt]
    exact (lifts_shapesAt hlookup levels more parts (by omega) (by omega)).map unite
  | levels + 1, more + 1, .record members, hl, h => by
    rw [shapeAt, shapeAt]
    exact (lifts_entriesAt hlookup levels more members (by omega) (by omega)).map
      fun entries => ofProperties (Dict.ofList entries)

/-- Several types are the same at a higher place. -/
theorem lifts_shapesAt {bound : Nat} (hlookup : LookupsLift definitions bound)
    (levels more : Nat) : ∀ types : List TypeExpr, levels ≤ bound → levels ≤ more →
    Lifts (shapesAt (lookup definitions) levels types) (shapesAt (lookup definitions) more types)
  | [], _, _ => by
    rw [shapesAt, shapesAt]
    exact .pure []
  | t :: ts, hl, h => by
    rw [shapesAt, shapesAt]
    exact (lifts_shapeAt hlookup levels more t hl h).both
      (lifts_shapesAt hlookup levels more ts hl h) List.cons

theorem lifts_entriesAt {bound : Nat} (hlookup : LookupsLift definitions bound)
    (levels more : Nat) : ∀ members : List (String × Bool × TypeExpr),
    levels ≤ bound → levels ≤ more →
    Lifts (entriesAt (lookup definitions) levels members)
      (entriesAt (lookup definitions) more members)
  | [], _, _ => by
    rw [entriesAt, entriesAt]
    exact .pure []
  | (name, opt, type) :: rest, hl, h => by
    rw [entriesAt, entriesAt]
    exact (lifts_shapeAt hlookup levels more type hl h).both
      (lifts_entriesAt hlookup levels more rest hl h)
      fun shape entries => (name, shape.asOptional opt) :: entries

end

theorem lifts_membersAt {bound : Nat} (hlookup : LookupsLift definitions bound)
    (levels more : Nat) (members : List (String × Bool × TypeExpr))
    (hl : levels ≤ bound) (h : levels ≤ more) :
    Lifts (membersAt (lookup definitions) levels members)
      (membersAt (lookup definitions) more members) := by
  rw [membersAt, membersAt]
  exact (lifts_entriesAt hlookup levels more members hl h).map Dict.ofList

section

variable {bound levels more : Nat} (hlookup : LookupsLift definitions bound) (hl : levels ≤ bound)
  (h : levels ≤ more)
include hlookup hl h

theorem lifts_fieldAt (field : Field) :
    Lifts (fieldAt (lookup definitions) definitions levels field)
      (fieldAt (lookup definitions) definitions more field) := by
  unfold fieldAt
  cases field.type with
  | none => exact .pure _
  | some type =>
    have hbelow : levels - 1 ≤ more - 1 := by omega
    exact (lifts_shapeAt hlookup (levels - 1) (more - 1) type (by omega) hbelow).map _

theorem lifts_fieldsAt (fields : List Field) :
    Lifts (fieldsAt (lookup definitions) definitions levels fields)
      (fieldsAt (lookup definitions) definitions more fields) := by
  induction fields with
  | nil => exact .pure []
  | cons f fields ih =>
    exact (lifts_fieldAt hlookup hl h f).both ih fun shape rest => (f.name, shape) :: rest

theorem lifts_lookupAll (names : List String) :
    Lifts (lookupAll (lookup definitions) levels names)
      (lookupAll (lookup definitions) more names) := by
  induction names with
  | nil => exact .pure []
  | cons n names ih => exact (hlookup levels hl more h n).both ih List.cons

theorem lifts_basesAt (bases : List Base) :
    Lifts (basesAt (lookup definitions) levels bases) (basesAt (lookup definitions) more bases) := by
  induction bases with
  | nil => exact .pure []
  | cons base bases ih =>
    cases base with
    | named name => exact (hlookup levels hl more h name).both ih List.cons
    | derived names how =>
      exact (lifts_lookupAll hlookup hl h names).both ih fun shapes rest => how.apply shapes :: rest

/-- **A declaration** is the same at a higher place. -/
theorem lifts_definitionAt (d : Definition) :
    Lifts (definitionAt (lookup definitions) definitions levels d)
      (definitionAt (lookup definitions) definitions more d) := by
  cases d with
  | «class» bases fields =>
    exact (lifts_basesAt hlookup hl h bases).both (lifts_fieldsAt hlookup hl h fields)
      fun parts own => unite (parts ++ [ofProperties (Dict.ofList own)])
  | interface bases members =>
    have hbelow : levels - 1 ≤ more - 1 := by omega
    exact (lifts_shapesAt hlookup levels more bases hl h).both
      (lifts_membersAt hlookup (levels - 1) (more - 1) members (by omega) hbelow)
      fun parts own => unite (parts ++ [ofProperties own])
  | synonym type => exact lifts_shapeAt hlookup levels more type hl h
  | choice values => exact .pure (choiceOf values)
  | other => exact .pure unknown

end

/-- Two runs that enter a name: what its own declaration notes decides in both whether the name is
    remembered. -/
theorem agrees_enter {body body' : Resolving Shape} (h : Lifts body body') (name : String)
    {s s' : Session} (hhigher : Higher s' s) (hcuts : CutsAt s'.busy (enter name body s).2) :
    (enter name body' s').1 = (enter name body s).1 ∧
      Higher (enter name body' s').2 (enter name body s).2 := by
  have hinside : CutsAt (s'.inside name).busy (body (s.inside name)).2 := by
    intro c hc
    by_cases hown : c = .circle name
    · exact ⟨name, List.mem_cons_self, hown⟩
    · obtain ⟨n, hn, heq⟩ := hcuts c (mem_cuts_enter.mpr (.inr ⟨hc, hown⟩))
      exact ⟨n, List.mem_cons_of_mem _ hn, heq⟩
  obtain ⟨hshape, hafter⟩ := h.agrees _ _ (hhigher.inside name) hinside
  have hbesides : (body' (s'.inside name)).2.cutsBesides name =
      (body (s.inside name)).2.cutsBesides name := by
    rw [Session.cutsBesides, hafter.cuts_eq]
    rfl
  have hbusy : (body (s.inside name)).2.busy = name :: s.busy := (h.keeps _).busy_eq
  have hbusy' : (body' (s'.inside name)).2.busy = name :: s'.busy := (h.keeps' _).busy_eq
  rw [enter_eq, enter_eq, hshape, hbesides, hafter.memory_eq, hhigher.cuts_eq, hbusy, hbusy',
    List.erase_cons_head, List.erase_cons_head]
  exact ⟨rfl, rfl, rfl, hhigher.busy⟩

/-- **Every look-up** is the same at a higher place, unless it is cut there where it is.

    With more levels left it goes the same way, except where it was cut by depth, and such cuts are
    excluded. -/
theorem lookupsLift (definitions : Dict Definition) (bound : Nat) : LookupsLift definitions bound := by
  induction bound using Nat.strongRecOn with
  | ind bound ih =>
    intro levels hlevels more hmore name
    refine ⟨keeps_lookup definitions levels name, keeps_lookup definitions more name, ?_⟩
    intro s s' hhigher hcuts
    have hcase := looksUp definitions levels name s
    generalize lookup definitions levels name s = found at hcase hcuts ⊢
    cases hcase with
    | builtIn hb =>
      rw [lookup_builtIn hb]
      exact ⟨rfl, hhigher⟩
    | remembered hb hmemory =>
      rw [lookup_remembered hb (hhigher.memory_eq ▸ hmemory)]
      exact ⟨rfl, hhigher⟩
    | undeclared hb hmemory hd =>
      rw [lookup_undeclared hb (hhigher.memory_eq ▸ hmemory) hd]
      exact ⟨rfl, hhigher⟩
    | busy hd hmemory hbusy =>
      -- the cut is at a name that is being resolved at the higher place, too
      obtain ⟨n, hn, heq⟩ := hcuts _ (mem_cuts_cutShort.mpr (.inr rfl))
      cases heq
      rw [lookup_busy hd (hhigher.memory_eq ▸ hmemory) hn]
      exact ⟨rfl, hhigher.cutShort _⟩
    | deepest hd hmemory hbusy =>
      obtain ⟨n, -, heq⟩ := hcuts _ (mem_cuts_cutShort.mpr (.inr rfl))
      cases heq
    | @enter levels d hd hmemory hbusy =>
      have hbusy' : name ∉ s'.busy := fun hmem => hbusy (hhigher.busy name hmem)
      obtain ⟨above, rfl⟩ : ∃ above, more = above + 1 := ⟨more - 1, by omega⟩
      have hbody := lifts_definitionAt (ih levels hlevels) (Nat.le_refl levels)
        (Nat.le_of_succ_le_succ hmore) d
      rw [lookup_enter hd (hhigher.memory_eq ▸ hmemory) hbusy']
      exact agrees_enter hbody name hhigher hcuts

/-! ## What is remembered

A shape is remembered only if nothing above its declaration was in the way, so it is what the
declaration gives at the top. -/

/-- A look-up that remembers its name has entered it, and all cuts in the declaration were at the name
    itself. -/
theorem entered_of_stored {levels : Nat} {name : String} {s : Session} {shape : Shape}
    (hnew : Dict.get? s.memory name = none)
    (hstored : Dict.get? (lookup definitions levels name s).2.memory name = some shape) :
    ∃ d below, declaration? definitions name = some d ∧ levels = below + 1 ∧
      CutsAt [name] (definitionAt (lookup definitions) definitions below d (s.inside name)).2 ∧
      (definitionAt (lookup definitions) definitions below d (s.inside name)).1 = shape := by
  have hnone : Dict.get? s.memory name ≠ some shape := by
    rw [hnew]
    exact (Option.some_ne_none shape).symm
  have hcase := looksUp definitions levels name s
  generalize lookup definitions levels name s = found at hcase hstored
  cases hcase with
  | builtIn | remembered | undeclared | busy | deepest => exact absurd hstored hnone
  | @enter below d hd _ hbusy =>
    have hkeeps := (scripted_definitionAt definitions below d).keeps_session definitions
      (s.inside name)
    rw [get?_enter, hkeeps.get?_body hnew] at hstored
    split at hstored
    · rename_i hown
      refine ⟨d, below, hd, rfl, fun c hc => ⟨name, List.mem_singleton_self name, ?_⟩,
        Option.some.inj hstored⟩
      refine Classical.byContradiction fun hother => ?_
      have hmem : c ∈ (definitionAt (lookup definitions) definitions below d
          (s.inside name)).2.cutsBesides name := List.mem_filter.mpr ⟨hc, bne_iff_ne.mpr hother⟩
      rw [hown.2] at hmem
      exact List.not_mem_nil hmem
    · cases hstored

/-- **What is remembered of a name is what it is at the top**, for a session that knows what was known
    when the name was met, and with as many levels left or more. -/
theorem lookup_of_stored {levels more : Nat} (hmore : levels ≤ more) {name : String} {s : Session}
    {shape : Shape} (hnew : Dict.get? s.memory name = none)
    (hstored : Dict.get? (lookup definitions levels name s).2.memory name = some shape) :
    (lookup definitions more name { memory := s.memory }).1 = shape := by
  obtain ⟨d, below, hd, rfl, hcuts, rfl⟩ := entered_of_stored hnew hstored
  obtain ⟨above, rfl⟩ : ∃ above, more = above + 1 := ⟨more - 1, by omega⟩
  have hlifts := lifts_definitionAt (lookupsLift definitions below) (Nat.le_refl below)
    (Nat.le_of_succ_le_succ hmore) d
  have hhigher : Higher { memory := s.memory } { s with cuts := [] } :=
    ⟨rfl, rfl, fun _ hn => absurd hn List.not_mem_nil⟩
  have hatTop : lookup definitions (above + 1) name { memory := s.memory } =
      enter name (definitionAt (lookup definitions) definitions above d) { memory := s.memory } :=
    lookup_enter (s := { memory := s.memory }) hd hnew List.not_mem_nil above
  rw [hatTop]
  exact (hlifts.agrees _ _ (hhigher.inside name) hcuts).1

/-! ## Histories

By induction on the calls: every entry of a memory was stored by some look-up, over a memory of the
same sort. -/

/-- A memory built of shapes that names have at the top: each entry is what a session gives that
    remembers the first of the entries before it and resolves nothing, with at least `cap` levels. -/
inductive FromTop (definitions : Dict Definition) (cap : Nat) : Dict Shape → Prop
  | nil : FromTop definitions cap []
  | next {memory known : Dict Shape} {name : String} {shape : Shape}
      (before : FromTop definitions cap memory) (first : known <+: memory)
      (top : ∀ levels, cap ≤ levels →
        (lookup definitions levels name { memory := known }).1 = shape) :
      FromTop definitions cap (memory ++ [(name, shape)])

/-- A script adds what its look-ups add. -/
theorem Scripted.fromTop {α : Type} {cap levels : Nat} {names : List String}
    {m : Lookup → Resolving α} {value : (String → Shape) → α} (hm : Scripted levels names m value)
    (hlookup : ∀ l ≤ levels, ∀ name s, FromTop definitions cap s.memory →
      FromTop definitions cap (lookup definitions l name s).2.memory)
    {s : Session} (h : FromTop definitions cap s.memory) :
    FromTop definitions cap (m (lookup definitions) s).2.memory := by
  obtain ⟨steps, assemble, hrun, hwithin, -⟩ := hm
  rw [hrun]
  exact performAll_along
    (R := fun s s' => FromTop definitions cap s.memory → FromTop definitions cap s'.memory)
    (fun _ h => h) (fun hfirst hsecond h => hsecond (hfirst h)) (fun _ h => h)
    (fun l hl name _ => hlookup l hl name) hwithin s h

/-- **A look-up adds shapes from the top only.** A shape is only stored if nothing was cut in its
    declaration, and without cuts more levels make no difference. -/
theorem fromTop_lookup {cap levels : Nat} (hcap : levels ≤ cap) (name : String) (s : Session)
    (h : FromTop definitions cap s.memory) :
    FromTop definitions cap (lookup definitions levels name s).2.memory := by
  induction levels using Nat.strongRecOn generalizing name s with
  | ind levels ih =>
    have hcase := looksUp definitions levels name s
    generalize hfound : lookup definitions levels name s = found at hcase ⊢
    cases hcase with
    | builtIn | remembered | undeclared | busy | deepest => exact h
    | @enter below d hd hmemory hbusy =>
      have hscript := scripted_definitionAt definitions below d
      have hkeeps := hscript.keeps_session definitions (s.inside name)
      have hbody := hscript.fromTop (s := s.inside name)
        (fun l hl name s => ih l (Nat.lt_succ_of_le hl) (by omega) name s) h
      rw [Keeps.memory_enter hmemory hkeeps]
      split
      case isTrue hown =>
        refine .next hbody hkeeps.memory fun more hmore => ?_
        have hless : below + 1 ≤ more := Nat.le_trans hcap hmore
        refine lookup_of_stored (s := s) hless hmemory ?_
        rw [hfound, get?_enter, if_pos ⟨rfl, List.isEmpty_iff.mp hown⟩]
      case isFalse => exact hbody

/-- **After any calls a memory is built from the top**, and nothing is being resolved. -/
theorem fromTop_after {cap : Nat} {calls : List Call} (hcap : ∀ call ∈ calls, call.levels ≤ cap) :
    FromTop definitions cap (Session.after definitions calls).memory := by
  have hfold : ∀ s : Session, FromTop definitions cap s.memory → FromTop definitions cap
      (calls.foldl (fun s call => (call.run definitions s).2) s).memory := by
    induction calls with
    | nil => exact fun s hs => hs
    | cons call calls ih =>
      intro s hs
      obtain ⟨m, value, hm, hrun⟩ := call.scripted
      have hl : call.levels ≤ cap := hcap call List.mem_cons_self
      refine ih (fun c hc => hcap c (List.mem_cons_of_mem _ hc)) _ ?_
      dsimp only
      rw [hrun definitions]
      exact hm.fromTop (fun l hle => fromTop_lookup (Nat.le_trans hle hl)) hs
  exact hfold {} .nil

/-- **What is remembered does not depend on its place.**  Every call has a result, for declarations that
    go round in circles as well: each step goes down a level or into a type, and the levels are those
    of the program.  Whatever session a call finds, it leaves the names being resolved as they were and
    only adds to the memory.  A name that comes to be remembered, wherever it is met, gets the shape
    that it has at the top, with what was known when it was met and any number of further levels; and
    a memory that calls leave is built of such shapes. -/
theorem memory_from_top (definitions : Dict Definition) :
    (∀ (call : Call) (s : Session),
      ((call.run definitions).run s).2.busy = s.busy ∧
      s.memory <+: ((call.run definitions).run s).2.memory ∧
      ∀ n shape, Dict.get? s.memory n = some shape →
        Dict.get? ((call.run definitions).run s).2.memory n = some shape) ∧
    (∀ (levels : Nat) (name : String) (s : Session) (shape : Shape),
      Dict.get? s.memory name = none →
      Dict.get? ((lookup definitions levels name).run s).2.memory name = some shape →
      ∀ more, levels ≤ more →
        ((lookup definitions more name).run { memory := s.memory }).1 = shape) ∧
    (∀ (cap : Nat) (calls : List Call), (∀ call ∈ calls, call.levels ≤ cap) →
      (Session.after definitions calls).busy = [] ∧
      FromTop definitions cap (Session.after definitions calls).memory) := by
  have hkeeps : ∀ (call : Call) (s : Session), Keeps s ((call.run definitions).run s).2 := by
    intro call s
    obtain ⟨m, value, hm, hrun⟩ := call.scripted
    rw [hrun definitions]
    exact hm.keeps_session definitions s
  refine ⟨fun call s => ?_, ?_, fun cap calls hcap => ⟨?_, fromTop_after hcap⟩⟩
  · exact ⟨(hkeeps call s).busy_eq, (hkeeps call s).memory, fun n shape => (hkeeps call s).get?_eq_some⟩
  · intro levels name s shape hnew hstored more hmore
    exact lookup_of_stored hmore hnew hstored
  · refine Session.after_induct (P := fun s => s.busy = []) rfl (fun call s hs => ?_) calls
    exact (hkeeps call s).busy_eq.trans hs

/-- A folder may be in another folder; a drawer has one. -/
def cabinet : Dict Definition :=
  [("Folder", .interface [] [("parent", true, .named "Folder")]),
    ("Drawer", .interface [] [("folder", false, .named "Folder")])]

/-- A folder that is met in a drawer is remembered as it is at the top.  A drawer for which the levels
    run out is not remembered, and neither is its folder. -/
theorem memory_from_top_cabinet :
    (Dict.get? ((lookup cabinet 3 "Folder").run { busy := ["Drawer"] }).2.memory "Folder" =
        some (ofProperties [("parent", unknown.asOptional true)]) ∧
      ∀ more, 3 ≤ more → ((lookup cabinet more "Folder").run {}).1 =
        ofProperties [("parent", unknown.asOptional true)]) ∧
    (Session.after cabinet [.named 4 "Drawer"]).memory = [] ∧
    Dict.keys (Session.after cabinet [.named 4 "Drawer", .named maxTypeLevels "Drawer"]).memory =
      ["Folder", "Drawer"] ∧
    FromTop cabinet maxTypeLevels
      (Session.after cabinet [.named 4 "Drawer", .named maxTypeLevels "Drawer"]).memory := by
  obtain ⟨-, hstored, hafter⟩ := memory_from_top cabinet
  have hfolder : Dict.get? ((lookup cabinet 3 "Folder").run { busy := ["Drawer"] }).2.memory
      "Folder" = some (ofProperties [("parent", unknown.asOptional true)]) := rfl
  exact ⟨⟨hfolder, hstored 3 "Folder" { busy := ["Drawer"] } _ rfl hfolder⟩, rfl, rfl,
    (hafter maxTypeLevels _ (by decide)).2⟩

end RouteAtlas.Shape
