/-
  When the shape of a type does not depend on what was resolved before.

  ==== Problem ====

  A session looks into its memory before it counts levels and before it notices circles.  So what was
  resolved before can fill in what would be cut off now: a name met below the deepest level, or one
  that is remembered from within a circle.  Which types are the same after any history?

  ==== Program ====

  1. **Cuts do not count** - a look-up reads the memory of a session and the names being resolved, and
     never the cuts made before (`AlikeButCuts`).

  2. **More memory, fewer cuts** - `spares_lookup`: of two sessions, the one that remembers all that
     the other does makes no cut by depth where the other makes none.

  3. **Together** - `run_eq_fresh`: a type whose names are plain, and which a fresh session resolves
     without a cut by depth, has the same shape after any history.

  ==== The crux ====

  Two sessions that remember different things take different ways through one type: where one looks a
  name up in its memory, the other enters the declaration.  What the second remembers afterwards the
  first remembers already, since a memory is closed under what its names lead to (`Faithful.closed`).
-/
import RouteAtlas.Proofs.Shape.Memory

namespace RouteAtlas.Shape

variable {definitions : Dict Definition}

/-! ## Cuts do not count

A session notes where it cut something short.  The notes are only read when a declaration is left,
so sessions that differ in them alone give the same shapes. -/

/-- Two sessions that differ in their cuts at most. -/
structure AlikeButCuts (s s' : Session) : Prop where
  memory : s.memory = s'.memory
  busy : s.busy = s'.busy

/-- Within a name, where the notes start anew, there is no difference at all. -/
theorem AlikeButCuts.inside {s s' : Session} (h : AlikeButCuts s s') (name : String) :
    s.inside name = s'.inside name := by
  unfold Session.inside
  rw [h.memory, h.busy]

/-- A look-up gives the same in both, and they stay alike.  The cuts are only collected; which way a
    look-up goes is decided by what is remembered and what is in progress. -/
theorem lookup_alike {s s' : Session} (h : AlikeButCuts s s') (levels : Nat) (name : String) :
    (lookup definitions levels name s).1 = (lookup definitions levels name s').1 ∧
      AlikeButCuts (lookup definitions levels name s).2 (lookup definitions levels name s').2 := by
  have hcase := looksUp definitions levels name s
  generalize lookup definitions levels name s = found at hcase ⊢
  cases hcase with
  | builtIn hb =>
    rw [lookup_builtIn hb]
    exact ⟨rfl, h⟩
  | remembered hb hmemory =>
    rw [lookup_remembered hb (h.memory ▸ hmemory)]
    exact ⟨rfl, h⟩
  | undeclared hb hmemory hd =>
    rw [lookup_undeclared hb (h.memory ▸ hmemory) hd]
    exact ⟨rfl, h⟩
  | busy hd hmemory hbusy =>
    rw [lookup_busy hd (h.memory ▸ hmemory) (h.busy ▸ hbusy)]
    exact ⟨rfl, h.memory, h.busy⟩
  | deepest hd hmemory hbusy =>
    rw [lookup_deepest hd (h.memory ▸ hmemory) (h.busy ▸ hbusy)]
    exact ⟨rfl, h.memory, h.busy⟩
  | enter hd hmemory hbusy =>
    rw [lookup_enter hd (h.memory ▸ hmemory) (h.busy ▸ hbusy), enter_eq, enter_eq, h.inside name]
    exact ⟨rfl, rfl, rfl⟩

/-- Several steps give the same in both. -/
theorem performAll_alike (steps : List Step) {s s' : Session} (h : AlikeButCuts s s') :
    (performAll (lookup definitions) steps s).1 = (performAll (lookup definitions) steps s').1 := by
  induction steps generalizing s s' with
  | nil => rfl
  | cons step steps ih =>
    have hstep : (step.perform (lookup definitions) s).1 = (step.perform (lookup definitions) s').1 ∧
        AlikeButCuts (step.perform (lookup definitions) s).2
          (step.perform (lookup definitions) s').2 := by
      cases step with
      | look l name => exact lookup_alike h l name
      | cut => exact ⟨rfl, h.memory, h.busy⟩
    exact congrArg₂ List.cons hstep.1 (ih hstep.2)

/-- **What a script gives does not depend on the cuts made before.** -/
theorem Scripted.alike {α : Type} {levels : Nat} {names : List String} {m : Lookup → Resolving α}
    {value : (String → Shape) → α} (hm : Scripted levels names m value) {s s' : Session}
    (h : AlikeButCuts s s') : (m (lookup definitions) s).1 = (m (lookup definitions) s').1 := by
  obtain ⟨steps, assemble, hrun, -, -⟩ := hm
  rw [hrun, hrun, performAll_alike steps h]

/-! ## More memory, fewer cuts

A session that remembers more looks up less, so it goes down less far.  This is an induction on the
levels, with the two sessions side by side. -/

/-- All plain names that `s` remembers are remembered by `s'`. -/
def Covers (definitions : Dict Definition) (s s' : Session) : Prop :=
  ∀ n, Plain definitions n → (Dict.get? s.memory n).isSome = true →
    (Dict.get? s'.memory n).isSome = true

/-- Where a session makes no cut by depth, none is made by one that remembers as much or more. -/
def Spares (definitions : Dict Definition) (levels : Nat) : Prop :=
  ∀ {name : String} {busy : List String} {s s' : Session}, Faithful definitions busy s →
    Faithful definitions busy s' → Covers definitions s s' → From definitions busy name →
    Plain definitions name → .depth ∉ (lookup definitions levels name s).2.cuts → .depth ∉ s'.cuts →
    .depth ∉ (lookup definitions levels name s').2.cuts ∧
      Covers definitions (lookup definitions levels name s).2 (lookup definitions levels name s').2

section

variable {levels : Nat} (hspares : ∀ l ≤ levels, Spares definitions l) {busy names : List String}
  (hfrom : ∀ n ∈ names, From definitions busy n) (hplain : ∀ n ∈ names, Plain definitions n)
include hspares hfrom hplain

/-- Where some steps make no cut by depth, they make none in a session that remembers as
    much.  After each step both sessions are faithful still and the second one remembers as much,
    which the next step needs. -/
theorem spares_performAll {steps : List Step} (hwithin : ∀ step ∈ steps, step.Within levels names)
    {s s' : Session} (h : Faithful definitions busy s) (h' : Faithful definitions busy s')
    (hcovers : Covers definitions s s')
    (hdepth : .depth ∉ (performAll (lookup definitions) steps s).2.cuts) (hdepth' : .depth ∉ s'.cuts) :
    .depth ∉ (performAll (lookup definitions) steps s').2.cuts ∧
      Covers definitions (performAll (lookup definitions) steps s).2
        (performAll (lookup definitions) steps s').2 := by
  induction steps generalizing s s' with
  | nil => exact ⟨hdepth', hcovers⟩
  | cons step steps ih =>
    have hlooks : ∀ l ≤ levels, Looks definitions l := fun l _ => looks_lookup definitions l
    have htail : ∀ step ∈ steps, step.Within levels names :=
      fun step hs => hwithin step (List.mem_cons_of_mem _ hs)
    have hw := hwithin step List.mem_cons_self
    cases step with
    | cut =>
      have hcut := extends_performAll hlooks hfrom htail (h.withCuts (cutShort .depth s).2.cuts)
      exact absurd (hcut.cuts .depth (mem_cuts_cutShort.mpr (.inr rfl))) hdepth
    | look l name =>
      have hfirst := (hlooks l hw.1 h (hfrom name hw.2)).1
      have hfirst' := (hlooks l hw.1 h' (hfrom name hw.2)).1
      have hrest := extends_performAll hlooks hfrom htail hfirst.faithful
      obtain ⟨hnone, hcovered⟩ := hspares l hw.1 h h' hcovers (hfrom name hw.2) (hplain name hw.2)
        (fun hc => hdepth (hrest.cuts _ hc)) hdepth'
      exact ih htail hfirst.faithful hfirst'.faithful hcovered hdepth hnone

theorem Scripted.spares {α : Type} {m : Lookup → Resolving α} {value : (String → Shape) → α}
    (hm : Scripted levels names m value) {s s' : Session} (h : Faithful definitions busy s)
    (h' : Faithful definitions busy s') (hcovers : Covers definitions s s')
    (hdepth : .depth ∉ (m (lookup definitions) s).2.cuts) (hdepth' : .depth ∉ s'.cuts) :
    .depth ∉ (m (lookup definitions) s').2.cuts ∧
      Covers definitions (m (lookup definitions) s).2 (m (lookup definitions) s').2 := by
  obtain ⟨steps, assemble, hrun, hwithin, -⟩ := hm
  rw [hrun] at hdepth
  rw [hrun, hrun]
  exact spares_performAll hspares hfrom hplain hwithin h h' hcovers hdepth hdepth'

end

/-- What a look-up adds to one memory is in another that knows the name. -/
theorem covers_lookup {levels : Nat} {name : String} {busy : List String} {s s' : Session}
    (h : Faithful definitions busy s) (h' : Faithful definitions busy s')
    (hcovers : Covers definitions s s') (hfrom : From definitions busy name)
    (hplain : Plain definitions name) (hknows : s'.Knows definitions name) :
    Covers definitions (lookup definitions levels name s).2 s' := by
  intro n hn hsome
  have hlooks := (looks_lookup definitions levels h hfrom).1
  rcases hlooks.added n hsome with hold | ⟨m, hm, hleads⟩
  · exact hcovers n hn hold
  · obtain rfl := List.mem_singleton.mp hm
    exact (h'.knows_of_leads hleads hplain hknows).resolve_left (hlooks.faithful.declared n hsome)

/-- Two sessions that both enter a name: their bodies make no cut by depth, so both remember
    it.  The body is run by both in a session of its own, without cuts, so the induction speaks of
    it. -/
theorem spares_enter {levels : Nat} {name : String} {d : Definition} {busy : List String}
    {s s' : Session} (h : Faithful definitions busy s) (h' : Faithful definitions busy s')
    (hcovers : Covers definitions s s') (hfrom : From definitions busy name)
    (hplain : Plain definitions name) (hd : declaration? definitions name = some d)
    (hmemory : Dict.get? s.memory name = none) (hmemory' : Dict.get? s'.memory name = none)
    (hspares : ∀ l ≤ levels, Spares definitions l)
    (hdepth : .depth ∉
      (enter name (definitionAt (lookup definitions) definitions levels d) s).2.cuts)
    (hdepth' : .depth ∉ s'.cuts) :
    .depth ∉ (enter name (definitionAt (lookup definitions) definitions levels d) s').2.cuts ∧
      Covers definitions
        (enter name (definitionAt (lookup definitions) definitions levels d) s).2
        (enter name (definitionAt (lookup definitions) definitions levels d) s').2 := by
  have hlooks : ∀ l ≤ levels, Looks definitions l := fun l _ => looks_lookup definitions l
  have hdeclared : declaration? definitions name ≠ none := by
    rw [hd]
    exact Option.some_ne_none d
  have hbody : .depth ∉
      (definitionAt (lookup definitions) definitions levels d (s.inside name)).2.cuts :=
    fun hmem => hdepth (mem_cuts_enter.mpr (.inr ⟨hmem, nofun⟩))
  obtain ⟨hbody', hcovered⟩ := (scripted_definitionAt definitions levels d).spares hspares
    (from_names hd busy) (hplain.of_names hd) (h.inside hfrom hdeclared hmemory)
    (h'.inside hfrom hdeclared hmemory') hcovers hbody List.not_mem_nil
  have hextends' := (body_spec h' hfrom hd hmemory' hlooks).1
  refine ⟨fun hc => ?_, fun n hn hsome => ?_⟩
  · rcases mem_cuts_enter.mp hc with hold | ⟨hnew, -⟩
    · exact hdepth' hold
    · exact hbody' hnew
  · rw [get?_enter] at hsome ⊢
    by_cases hname : n = name
    · rw [if_pos ⟨hname, cutsBesides_eq_nil hd hplain hextends' hbody'⟩]
      rfl
    · rw [if_neg fun hand => hname hand.1] at hsome ⊢
      exact hcovered n hn hsome

/-- **More memory makes no cut by depth where less makes none.** The cases are those of the session
    that remembers more.  Wherever it does not stop earlier, the other one goes the same way. -/
theorem spares_lookup (definitions : Dict Definition) (levels : Nat) : Spares definitions levels := by
  induction levels using Nat.strongRecOn with
  | ind levels ih =>
    intro name busy s s' h h' hcovers hfrom hplain hdepth hdepth'
    have hcase := looksUp definitions levels name s'
    have hnone : Dict.get? s'.memory name = none → Dict.get? s.memory name = none := by
      intro hmemory'
      refine Option.not_isSome_iff_eq_none.mp fun hsome => ?_
      have hcovered := hcovers name hplain hsome
      rw [hmemory'] at hcovered
      exact Bool.false_ne_true hcovered
    have hbusyEq : s.busy = s'.busy := h.busy_eq.trans h'.busy_eq.symm
    generalize lookup definitions levels name s' = found at hcase ⊢
    cases hcase with
    | builtIn hb =>
      rw [lookup_builtIn hb]
      exact ⟨hdepth', hcovers⟩
    -- the one that remembers more stops here, and then it need not have less afterwards
    | remembered hb hmemory' =>
      refine ⟨hdepth', covers_lookup h h' hcovers hfrom hplain (.inr ?_)⟩
      rw [hmemory']
      rfl
    -- what is not declared is not remembered either
    | undeclared hb hmemory' hd =>
      rw [lookup_undeclared hb (hnone hmemory') hd]
      exact ⟨hdepth', hcovers⟩
    -- a circle cuts both, but not by depth
    | busy hd hmemory' hbusy =>
      rw [lookup_busy hd (hnone hmemory') (hbusyEq ▸ hbusy)]
      refine ⟨fun hc => ?_, hcovers⟩
      rcases mem_cuts_cutShort.mp hc with hold | heq
      · exact hdepth' hold
      · cases heq
    -- excluded, as the other one would have been cut by depth, too
    | deepest hd hmemory' hbusy =>
      rw [lookup_deepest hd (hnone hmemory') (hbusyEq ▸ hbusy)] at hdepth
      exact absurd (mem_cuts_cutShort.mpr (.inr rfl)) hdepth
    -- both go down into the declaration
    | @enter levels d hd hmemory' hbusy =>
      rw [lookup_enter hd (hnone hmemory') (hbusyEq ▸ hbusy)] at hdepth ⊢
      exact spares_enter h h' hcovers hfrom hplain hd (hnone hmemory') hmemory'
        (fun l hl => ih l (Nat.lt_succ_of_le hl)) hdepth hdepth'

/-! ## Calls

What a handler asks for: a body of its own or a referenced type.  A history is a list of such calls. -/

/-- The names that a call looks up, or that its type mentions. -/
def Call.names : Call → List String
  | .named _ name => [name]
  | .typed _ node => (TypeExpr.ofNode? node).names

/-- The levels that a call has left. -/
def Call.levels : Call → Nat
  | .named levels _ => levels
  | .typed levels _ => levels

/-- A call is a script over the names that it mentions. -/
theorem Call.scripted (call : Call) : ∃ m value, Scripted call.levels call.names m value ∧
    ∀ definitions, call.run definitions = m (lookup definitions) := by
  cases call with
  | named levels name => exact ⟨_, _, .look levels name, fun _ => rfl⟩
  | typed levels node =>
    exact ⟨_, _, scripted_shapeAt levels (TypeExpr.ofNode? node), fun _ => rfl⟩

/-- Outside all declarations any name may be looked up. -/
theorem from_nil (name : String) : From definitions [] name := by
  intro h hhead
  cases hhead

/-- **Any history leaves a session that remembers rightly.** -/
theorem faithful_after (definitions : Dict Definition) (calls : List Call) :
    Faithful definitions [] (Session.after definitions calls) := by
  refine Session.after_induct faithful_nil (fun call s hs => ?_) calls
  obtain ⟨m, value, hm, hrun⟩ := call.scripted
  rw [hrun]
  exact (hm.run_spec (fun l _ => looks_lookup definitions l) (fun n _ => from_nil n) hs).1.faithful

/-- A fresh session resolves the call without a cut by depth, and all its names are plain. -/
structure Call.Settled (definitions : Dict Definition) (call : Call) : Prop where
  plain : ∀ n ∈ call.names, Plain definitions n
  whole : .depth ∉ ((call.run definitions).run {}).2.cuts

/-- **A settled call gives the same after any history.** Both are what the names mean, put together:
    this is the way from one session to the other. -/
theorem Call.Settled.run_eq_fresh {call : Call} (h : call.Settled definitions) (calls : List Call) :
    ((call.run definitions).run (Session.after definitions calls)).1 =
      ((call.run definitions).run {}).1 := by
  obtain ⟨m, value, hm, hrun⟩ := call.scripted
  have hlooks : ∀ l ≤ call.levels, Looks definitions l := fun l _ => looks_lookup definitions l
  have hfrom : ∀ n ∈ call.names, From definitions [] n := fun n _ => from_nil n
  have hwhole : .depth ∉ (m (lookup definitions) {}).2.cuts := hrun definitions ▸ h.whole
  -- the cuts of the calls before do not count, so they may as well not be there
  have hafter : Faithful definitions [] { Session.after definitions calls with cuts := [] } :=
    (faithful_after definitions calls).withCuts []
  have hspared : .depth ∉
      (m (lookup definitions) { Session.after definitions calls with cuts := [] }).2.cuts :=
    (hm.spares (fun l _ => spares_lookup definitions l) hfrom h.plain faithful_nil hafter
      (fun _ _ hnone => absurd hnone Bool.false_ne_true) hwhole List.not_mem_nil).1
  rw [hrun definitions]
  calc (m (lookup definitions) (Session.after definitions calls)).1
      = (m (lookup definitions) { Session.after definitions calls with cuts := [] }).1 :=
        hm.alike ⟨rfl, rfl⟩
    _ = value (seen definitions []) := ((hm.run_spec hlooks hfrom hafter).2 h.plain hspared).1
    _ = (m (lookup definitions) {}).1 := ((hm.run_spec hlooks hfrom faithful_nil).2 h.plain hwhole).1.symm

end RouteAtlas.Shape
