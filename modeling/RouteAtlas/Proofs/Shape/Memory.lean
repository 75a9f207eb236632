/-
  What a session remembers, and what its cuts say.

  ==== Problem ====

  A session remembers the shape of a name when the only cuts in it are at the name itself.  Such a
  shape should be what the name means, wherever it is looked up later; and a shape without a cut by
  depth should be right at its place even when it is not remembered.

  ==== Program ====

  1. **Invariant** - `Faithful`: what is remembered of plain names is what they mean, together with
     all that they lead to; names whose declarations are being resolved are not remembered.

  2. **One look-up** - `looks_lookup`: it keeps the invariant, adds to the memory only what the name
     leads to, and its only cuts are by depth and at the innermost declaration.  Without a cut by
     depth its shape is the meaning of the name, or unknown at the innermost declaration.

  3. **A script** - `Scripted.run_spec`: the same for all that a type or a declaration looks up.

  ==== The crux ====

  A plain name that is met while its declaration is being resolved is the innermost one: each
  declaration on the way mentions the next, so any other would lie on a circle with the innermost.
  Hence all cuts within a plain declaration are at its own name or by depth, and only those by depth
  keep it from being remembered.
-/
import RouteAtlas.Proofs.Shape.Meaning

namespace RouteAtlas.Shape

variable {definitions : Dict Definition}

/-! ## The invariant

`Faithful` is what every step of a session keeps: what is remembered is right for every plain name,
and whatever such a name leads to is remembered with it. -/

/-- There is nothing to be resolved: the name is not declared, or it is remembered. -/
def Session.Knows (definitions : Dict Definition) (s : Session) (name : String) : Prop :=
  declaration? definitions name = none ∨ (Dict.get? s.memory name).isSome = true

/-- The names in `busy` are being resolved, each mentioned on the way to the innermost; and what is
    remembered is right. -/
structure Faithful (definitions : Dict Definition) (busy : List String) (s : Session) : Prop where
  busy_eq : s.busy = busy
  leads : ∀ n ∈ busy, ∀ h ∈ busy.head?, Leads definitions n h
  resolving : ∀ n ∈ busy, declaration? definitions n ≠ none
  apart : ∀ n ∈ busy, Dict.get? s.memory n = none
  declared : ∀ n, (Dict.get? s.memory n).isSome = true → declaration? definitions n ≠ none
  means : ∀ n shape, Plain definitions n → Dict.get? s.memory n = some shape →
    Means definitions n shape
  closed : ∀ n m, Plain definitions n → (Dict.get? s.memory n).isSome = true →
    Refers definitions n m → s.Knows definitions m

/-- The innermost declaration mentions the name. -/
def From (definitions : Dict Definition) (busy : List String) (name : String) : Prop :=
  ∀ h ∈ busy.head?, Refers definitions h name

/-- Within a declaration its names may be looked up. -/
theorem from_names {name : String} {d : Definition} (hd : declaration? definitions name = some d)
    (busy : List String) : ∀ n ∈ d.names, From definitions (name :: busy) n := by
  intro n hn top htop
  obtain rfl : name = top := Option.some.inj htop
  exact ⟨d, hd, hn⟩

/-- A session that remembers nothing remembers nothing wrong. -/
theorem faithful_nil : Faithful definitions [] {} where
  busy_eq := rfl
  leads := fun _ h => absurd h List.not_mem_nil
  resolving := fun _ h => absurd h List.not_mem_nil
  apart := fun _ h => absurd h List.not_mem_nil
  declared := fun _ h => absurd h Bool.false_ne_true
  means := fun _ _ _ h => absurd h.symm (Option.some_ne_none _)
  closed := fun _ _ _ h => absurd h Bool.false_ne_true

namespace Faithful

variable {busy : List String} {s : Session} {name : String}

/-- **A plain name that is met again is the innermost one.** -/
theorem head_of_mem (h : Faithful definitions busy s) (hfrom : From definitions busy name)
    (hplain : Plain definitions name) (hbusy : name ∈ busy) : busy.head? = some name := by
  cases busy with
  | nil => exact absurd hbusy List.not_mem_nil
  | cons head rest =>
    have hto : Leads definitions name head := h.leads name hbusy head rfl
    have hback : Leads definitions head name := .single (hfrom head rfl)
    exact congrArg some (hplain name head .refl hto hback).symm

/-- Cuts do not count. -/
theorem withCuts (h : Faithful definitions busy s) (cuts : List Cut) :
    Faithful definitions busy { s with cuts := cuts } :=
  ⟨h.busy_eq, h.leads, h.resolving, h.apart, h.declared, h.means, h.closed⟩

/-- Within the declaration of a name that is neither being resolved nor remembered. -/
theorem inside (h : Faithful definitions busy s) (hfrom : From definitions busy name)
    (hdeclared : declaration? definitions name ≠ none) (hmemory : Dict.get? s.memory name = none) :
    Faithful definitions (name :: busy) (s.inside name) where
  busy_eq := congrArg (name :: ·) h.busy_eq
  leads := by
    intro n hn top htop
    obtain rfl : name = top := Option.some.inj htop
    rcases List.mem_cons.mp hn with rfl | hn
    · exact .refl
    · cases busy with
      | nil => exact absurd hn List.not_mem_nil
      | cons head rest => exact (h.leads n hn head rfl).tail (hfrom head rfl)
  resolving := fun n hn => (List.mem_cons.mp hn).elim (fun heq => heq ▸ hdeclared) (h.resolving n)
  apart := fun n hn => (List.mem_cons.mp hn).elim (fun heq => heq ▸ hmemory) (h.apart n)
  declared := h.declared
  means := h.means
  closed := h.closed

/-- What is remembered is remembered with all that it leads to. -/
theorem knows_of_leads (h : Faithful definitions busy s) {n : String}
    (hleads : Leads definitions name n) (hplain : Plain definitions name)
    (hknows : s.Knows definitions name) : s.Knows definitions n := by
  induction hleads with
  | refl => exact hknows
  | tail hleads hrefers ih =>
    rcases ih with hnone | hsome
    · obtain ⟨d, hd, -⟩ := hrefers
      exact absurd (hd.symm.trans hnone) (Option.some_ne_none d)
    · exact h.closed _ _ (hplain.of_leads hleads) hsome hrefers

end Faithful

/-! ## What a computation leaves

`Extends` compares a session before and after.  It is reflexive and transitive, so that a script is
covered by its steps. -/

/-- From `s` to `s'` the memory grows by what `names` lead to, and cuts by those by depth and, if the
    names are plain, at the innermost declaration. -/
structure Extends (definitions : Dict Definition) (busy names : List String) (s s' : Session) :
    Prop where
  faithful : Faithful definitions busy s'
  grows : ∀ n shape, Dict.get? s.memory n = some shape → Dict.get? s'.memory n = some shape
  added : ∀ n, (Dict.get? s'.memory n).isSome = true →
    (Dict.get? s.memory n).isSome = true ∨ ∃ m ∈ names, Leads definitions m n
  cuts : ∀ c ∈ s.cuts, c ∈ s'.cuts
  own : (∀ n ∈ names, Plain definitions n) →
    ∀ c ∈ s'.cuts, c ∈ s.cuts ∨ c = .depth ∨ ∃ h ∈ busy.head?, c = .circle h

namespace Extends

variable {busy names names' : List String} {s s' s'' : Session}

theorem refl (h : Faithful definitions busy s) : Extends definitions busy names s s :=
  ⟨h, fun _ _ h => h, fun _ h => .inl h, fun _ h => h, fun _ _ h => .inl h⟩

/-- One extension after the other is one. -/
theorem trans (h : Extends definitions busy names s s') (h' : Extends definitions busy names s' s'') :
    Extends definitions busy names s s'' where
  faithful := h'.faithful
  grows := fun n shape hn => h'.grows n shape (h.grows n shape hn)
  added := fun n hn => (h'.added n hn).elim (h.added n) .inr
  cuts := fun c hc => h'.cuts c (h.cuts c hc)
  own := fun hplain c hc => (h'.own hplain c hc).elim (h.own hplain c) .inr

/-- What some names lead to is what more names lead to. -/
theorem mono (h : Extends definitions busy names s s') (hsub : ∀ n ∈ names, n ∈ names') :
    Extends definitions busy names' s s' where
  faithful := h.faithful
  grows := h.grows
  added := fun n hn => (h.added n hn).imp_right fun ⟨m, hm, hleads⟩ => ⟨m, hsub m hm, hleads⟩
  cuts := h.cuts
  own := fun hplain => h.own fun n hn => hplain n (hsub n hn)

/-- What was known stays known. -/
theorem knows (h : Extends definitions busy names s s') {n : String}
    (hn : s.Knows definitions n) : s'.Knows definitions n := by
  refine hn.imp_right fun hsome => ?_
  obtain ⟨shape, hshape⟩ := Option.isSome_iff_exists.mp hsome
  rw [h.grows n shape hshape]
  rfl

end Extends

/-- Cutting short notes one cut. -/
theorem mem_cuts_cutShort {cut c : Cut} {s : Session} :
    c ∈ (cutShort cut s).2.cuts ↔ c ∈ s.cuts ∨ c = cut := by
  unfold cutShort
  dsimp only
  split
  · rename_i hmem
    constructor
    · exact .inl
    · rintro (hold | rfl)
      · exact hold
      · exact List.contains_iff_mem.mp hmem
  · rw [List.mem_append, List.mem_singleton]

/-- Entering a name passes on the cuts made within, but for those at the name itself. -/
theorem mem_cuts_enter {name : String} {body : Resolving Shape} {s : Session} {c : Cut} :
    c ∈ (enter name body s).2.cuts ↔
      c ∈ s.cuts ∨ c ∈ (body (s.inside name)).2.cuts ∧ c ≠ .circle name := by
  have hbesides : c ∈ (body (s.inside name)).2.cutsBesides name ↔
      c ∈ (body (s.inside name)).2.cuts ∧ c ≠ .circle name := by
    unfold Session.cutsBesides
    rw [List.mem_filter, bne_iff_ne]
  rw [enter_eq, ← hbesides]
  dsimp only
  rw [List.mem_append, List.mem_filter]
  constructor
  · exact Or.imp_right And.left
  · rintro (hold | hnew)
    · exact .inl hold
    · by_cases hold : c ∈ s.cuts
      · exact .inl hold
      · exact .inr ⟨hnew, by rw [Bool.not_eq_true', List.contains_eq_mem, decide_eq_false hold]⟩

/-- A cut leaves all but the cuts as it was. -/
theorem Extends.ofCutShort {busy names : List String} {s : Session} {cut : Cut}
    (h : Faithful definitions busy s)
    (hcut : (∀ n ∈ names, Plain definitions n) → cut = .depth ∨ ∃ h ∈ busy.head?, cut = .circle h) :
    Extends definitions busy names s (cutShort cut s).2 where
  faithful := h.withCuts _
  grows := fun _ _ hn => hn
  added := fun _ hn => .inl hn
  cuts := fun _ hc => mem_cuts_cutShort.mpr (.inl hc)
  own := by
    intro hplain c hc
    rcases mem_cuts_cutShort.mp hc with hold | rfl
    · exact .inl hold
    · exact .inr (hcut hplain)

/-! ## What a computation gives

Within the declaration of a name, the name itself stands for anything; outside it has its meaning. -/

/-- What a name stands for within the innermost declaration. -/
noncomputable def seen (definitions : Dict Definition) (busy : List String) (name : String) : Shape :=
  if busy.head? = some name then unknown else meaning definitions name

theorem seen_of_head {busy : List String} {name : String} (h : busy.head? = some name) :
    seen definitions busy name = unknown := if_pos h

theorem seen_of_ne {busy : List String} {name : String} (h : busy.head? ≠ some name) :
    seen definitions busy name = meaning definitions name := if_neg h

/-- The shape given for a name is right, and nothing is left to be resolved of it. -/
structure Answers (definitions : Dict Definition) (busy : List String) (s : Session) (name : String)
    (shape : Shape) : Prop where
  seen : shape = seen definitions busy name
  known : busy.head? ≠ some name →
    s.Knows definitions name ∧ Means definitions name (meaning definitions name)

/-- A shape that a known name means answers it. -/
theorem Answers.ofMeans {busy : List String} {s : Session} {name : String} {shape : Shape}
    (hhead : busy.head? ≠ some name) (hknows : s.Knows definitions name)
    (h : Means definitions name shape) : Answers definitions busy s name shape where
  seen := by rw [seen_of_ne hhead, h.meaning_eq]
  known := fun _ => ⟨hknows, by rwa [h.meaning_eq]⟩

/-- An answer stays one. -/
theorem Answers.extends {busy names : List String} {s s' : Session} {name : String} {shape : Shape}
    (h : Answers definitions busy s name shape) (hext : Extends definitions busy names s s') :
    Answers definitions busy s' name shape :=
  ⟨h.seen, fun hhead => ⟨hext.knows (h.known hhead).1, (h.known hhead).2⟩⟩

/-- A look-up with `levels` levels left extends the session, and gives the right shape for a plain
    name unless it made a cut by depth. -/
def Looks (definitions : Dict Definition) (levels : Nat) : Prop :=
  ∀ {name : String} {busy : List String} {s : Session}, Faithful definitions busy s →
    From definitions busy name →
    Extends definitions busy [name] s (lookup definitions levels name s).2 ∧
      (Plain definitions name → .depth ∉ (lookup definitions levels name s).2.cuts →
        Answers definitions busy (lookup definitions levels name s).2 name
          (lookup definitions levels name s).1)

/-! ## Scripts

What is known of single look-ups, for all steps of a script.  The induction is on the steps. -/

section

variable {levels : Nat} (hlooks : ∀ l ≤ levels, Looks definitions l) {busy names : List String}
  (hfrom : ∀ n ∈ names, From definitions busy n)
include hlooks hfrom

/-- Steps over some names extend the session by what these lead to. -/
theorem extends_performAll {steps : List Step} (hwithin : ∀ step ∈ steps, step.Within levels names)
    {s : Session} (h : Faithful definitions busy s) :
    Extends definitions busy names s (performAll (lookup definitions) steps s).2 := by
  refine performAll_along
    (R := fun s s' => Faithful definitions busy s → Extends definitions busy names s s')
    (fun _ => .refl) (fun hfirst hsecond h => (hfirst h).trans (hsecond (hfirst h).faithful))
    (fun _ h => .ofCutShort h fun _ => .inl rfl) (fun l hl name hname s h => ?_) hwithin s h
  refine (hlooks l hl h (hfrom name hname)).1.mono fun n hn => ?_
  exact List.mem_singleton.mp hn ▸ hname

/-- Without a cut by depth all steps are look-ups, and all of them give the right shapes.  The
    answers are known afterwards as well, since what is remembered is never overwritten. -/
theorem answers_performAll (hplain : ∀ n ∈ names, Plain definitions n) {steps : List Step}
    (hwithin : ∀ step ∈ steps, step.Within levels names) {s : Session}
    (h : Faithful definitions busy s)
    (hdepth : .depth ∉ (performAll (lookup definitions) steps s).2.cuts) :
    .cut ∉ steps ∧
      (performAll (lookup definitions) steps s).1 =
        steps.map (Step.shapeIn (seen definitions busy)) ∧
      ∀ l name, .look l name ∈ steps → busy.head? ≠ some name →
        (performAll (lookup definitions) steps s).2.Knows definitions name ∧
          Means definitions name (meaning definitions name) := by
  induction steps generalizing s with
  | nil => exact ⟨List.not_mem_nil, rfl, fun _ _ h => absurd h List.not_mem_nil⟩
  | cons step steps ih =>
    have htail : ∀ step ∈ steps, step.Within levels names :=
      fun step hs => hwithin step (List.mem_cons_of_mem _ hs)
    have hw := hwithin step List.mem_cons_self
    cases step with
    -- a step that is a cut makes one by depth
    | cut =>
      have hcut := extends_performAll hlooks hfrom htail (h.withCuts (cutShort .depth s).2.cuts)
      exact absurd (hcut.cuts .depth (mem_cuts_cutShort.mpr (.inr rfl))) hdepth
    -- the first look-up is right, and stays right while the others are made
    | look l name =>
      obtain ⟨hfirst, hanswers⟩ := hlooks l hw.1 h (hfrom name hw.2)
      have hrest := extends_performAll hlooks hfrom htail hfirst.faithful
      obtain ⟨hnocut, hshapes, hknown⟩ := ih htail hfirst.faithful hdepth
      have hname := (hanswers (hplain name hw.2) fun hc => hdepth (hrest.cuts _ hc)).extends hrest
      refine ⟨fun hmem => ?_, ?_, fun l' name' hmem hhead => ?_⟩
      · rcases List.mem_cons.mp hmem with heq | hmem
        · cases heq
        · exact hnocut hmem
      · exact congrArg₂ List.cons hname.seen hshapes
      · rcases List.mem_cons.mp hmem with heq | hmem
        · cases heq
          exact hname.known hhead
        · exact hknown l' name' hmem hhead

/-- **What a script leaves and gives.** -/
theorem Scripted.run_spec {α : Type} {m : Lookup → Resolving α} {value : (String → Shape) → α}
    (hm : Scripted levels names m value) {s : Session} (h : Faithful definitions busy s) :
    Extends definitions busy names s (m (lookup definitions) s).2 ∧
      ((∀ n ∈ names, Plain definitions n) → .depth ∉ (m (lookup definitions) s).2.cuts →
        (m (lookup definitions) s).1 = value (seen definitions busy) ∧
        ∀ n ∈ names, busy.head? ≠ some n →
          (m (lookup definitions) s).2.Knows definitions n ∧
            Means definitions n (meaning definitions n)) := by
  obtain ⟨steps, assemble, hrun, hwithin, hvalue⟩ := hm
  rw [hrun]
  refine ⟨extends_performAll hlooks hfrom hwithin h, fun hplain hdepth => ?_⟩
  obtain ⟨hnocut, hshapes, hknown⟩ := answers_performAll hlooks hfrom hplain hwithin h hdepth
  obtain ⟨hall, hassemble⟩ := hvalue hnocut
  refine ⟨?_, fun n hn => ?_⟩
  · rw [hshapes]
    exact hassemble _
  · obtain ⟨l, hl⟩ := hall n hn
    exact hknown l n hl

end

/-! ## Look-ups

The heart of the matter: resolving a declaration, and what remains of it in memory afterwards. -/

section

variable {levels : Nat} {name : String} {d : Definition} {busy : List String} {s : Session}
  (h : Faithful definitions busy s) (hfrom : From definitions busy name)
  (hd : declaration? definitions name = some d) (hmemory : Dict.get? s.memory name = none)
include h hfrom hd hmemory

/-- What the body of an entered name leaves and gives.  The name itself is in progress here, so it
    is seen as a plain object in its own declaration, which is how its meaning is defined. -/
theorem body_spec (hlooks : ∀ l ≤ levels, Looks definitions l) :
    Extends definitions (name :: busy) d.names (s.inside name)
        (definitionAt (lookup definitions) definitions levels d (s.inside name)).2 ∧
      (Plain definitions name →
        .depth ∉ (definitionAt (lookup definitions) definitions levels d (s.inside name)).2.cuts →
        Means definitions name
            (definitionAt (lookup definitions) definitions levels d (s.inside name)).1 ∧
        ∀ n ∈ d.names, n ≠ name →
          (definitionAt (lookup definitions) definitions levels d (s.inside name)).2.Knows
            definitions n) := by
  have hinside : Faithful definitions (name :: busy) (s.inside name) :=
    h.inside hfrom (by rw [hd]; exact Option.some_ne_none d) hmemory
  obtain ⟨hextends, hgives⟩ := (scripted_definitionAt definitions levels d).run_spec hlooks
    (from_names hd busy) hinside
  refine ⟨hextends, fun hplain hdepth => ?_⟩
  have hhead : ∀ {n}, n ≠ name → (name :: busy).head? ≠ some n := fun hne heq =>
    hne (Option.some.inj heq).symm
  obtain ⟨hshape, hknown⟩ := hgives (hplain.of_names hd) hdepth
  refine ⟨?_, fun n hn hne => (hknown n hn (hhead hne)).1⟩
  rw [hshape]
  refine .declared hd _ (seen_of_head rfl) fun n hn hne => ?_
  rw [seen_of_ne (hhead hne)]
  exact (hknown n hn (hhead hne)).2

end

/-- All cuts within a plain declaration are at its own name or by depth. -/
theorem cutsBesides_eq_nil {name : String} {d : Definition} {busy : List String} {s s' : Session}
    (hd : declaration? definitions name = some d) (hplain : Plain definitions name)
    (hextends : Extends definitions (name :: busy) d.names (s.inside name) s')
    (hdepth : .depth ∉ s'.cuts) : s'.cutsBesides name = [] := by
  unfold Session.cutsBesides
  rw [List.filter_eq_nil_iff]
  intro c hc hother
  rcases hextends.own (hplain.of_names hd) c hc with hold | rfl | ⟨top, htop, rfl⟩
  · exact absurd hold List.not_mem_nil
  · exact hdepth hc
  · obtain rfl : name = top := Option.some.inj htop
    exact bne_iff_ne.mp hother rfl

/-- Where no cut came from elsewhere, none was made by depth. -/
theorem not_mem_depth_of_cutsBesides {name : String} {s : Session} (h : s.cutsBesides name = []) :
    .depth ∉ s.cuts := by
  intro hmem
  have : Cut.depth ∈ s.cutsBesides name := List.mem_filter.mpr ⟨hmem, rfl⟩
  rw [h] at this
  exact List.not_mem_nil this

/-- A name that was entered is remembered when no cut came from elsewhere; all else is as its body
    left it. -/
theorem get?_enter (name : String) (body : Resolving Shape) (s : Session) (n : String) :
    Dict.get? (enter name body s).2.memory n =
      if n = name ∧ (body (s.inside name)).2.cutsBesides name = [] then
        some (body (s.inside name)).1
      else Dict.get? (body (s.inside name)).2.memory n := by
  rw [enter_eq]
  dsimp only
  by_cases hnil : (body (s.inside name)).2.cutsBesides name = []
  · rw [hnil, if_pos List.isEmpty_nil, Dict.get?_put]
    by_cases hn : n = name
    · rw [if_pos (beq_iff_eq.mpr hn), if_pos ⟨hn, rfl⟩]
    · rw [if_neg fun heq => hn (beq_iff_eq.mp heq), if_neg fun hand => hn hand.1]
  · rw [if_neg fun heq => hnil (List.isEmpty_iff.mp heq), if_neg fun hand => hnil hand.2]

section

variable {name : String} {d : Definition} {busy : List String} {s : Session} {body : Resolving Shape}
  (hbody : Extends definitions (name :: busy) d.names (s.inside name) (body (s.inside name)).2)
include hbody

/-- What the body remembered stays. -/
theorem get?_enter_of_body {n : String} {shape : Shape}
    (hn : Dict.get? (body (s.inside name)).2.memory n = some shape) :
    Dict.get? (enter name body s).2.memory n = some shape := by
  rw [get?_enter, if_neg, hn]
  rintro ⟨rfl, -⟩
  rw [hbody.faithful.apart n List.mem_cons_self] at hn
  cases hn

/-- What the body knows is known afterwards. -/
theorem knows_enter_of_body {n : String} (hn : (body (s.inside name)).2.Knows definitions n) :
    (enter name body s).2.Knows definitions n := by
  refine hn.imp_right fun hsome => ?_
  obtain ⟨shape, hshape⟩ := Option.isSome_iff_exists.mp hsome
  rw [get?_enter_of_body hbody hshape]
  rfl

/-- A name that was entered is left again. -/
theorem busy_enter : (enter name body s).2.busy = busy := by
  rw [enter_eq]
  dsimp only
  rw [hbody.faithful.busy_eq, List.erase_cons_head]

variable (hd : declaration? definitions name = some d)
include hd

/-- **Entering a name keeps memory right.**  The name is remembered only if no cut came from
    elsewhere. If it is plain, its body was then resolved without a cut by depth, and so it is what
    the name means. -/
theorem faithful_enter (h : Faithful definitions busy s) (hbusy : name ∉ busy)
    (hmeans : Plain definitions name → .depth ∉ (body (s.inside name)).2.cuts →
      Means definitions name (body (s.inside name)).1 ∧
        ∀ n ∈ d.names, n ≠ name → (body (s.inside name)).2.Knows definitions n) :
    Faithful definitions busy (enter name body s).2 where
  busy_eq := busy_enter hbody
  leads := h.leads
  resolving := h.resolving
  apart := by
    intro n hn
    rw [get?_enter, if_neg]
    · exact hbody.faithful.apart n (List.mem_cons_of_mem _ hn)
    · rintro ⟨rfl, -⟩
      exact hbusy hn
  declared := by
    intro n hn
    rw [get?_enter] at hn
    split at hn
    · rename_i hname
      rw [hname.1, hd]
      exact Option.some_ne_none d
    · exact hbody.faithful.declared n hn
  means := by
    intro n shape hplain hn
    rw [get?_enter] at hn
    split at hn
    · rename_i hname
      obtain ⟨rfl, hnil⟩ := hname
      cases hn
      exact (hmeans hplain (not_mem_depth_of_cutsBesides hnil)).1
    · exact hbody.faithful.means n shape hplain hn
  closed := by
    intro n m hplain hn hrefers
    rw [get?_enter] at hn
    split at hn
    · rename_i hname
      obtain ⟨rfl, hnil⟩ := hname
      obtain ⟨d', hd', hm⟩ := hrefers
      obtain rfl := Option.some.inj (hd.symm.trans hd')
      by_cases hself : m = n
      · refine .inr ?_
        rw [hself, get?_enter, if_pos ⟨rfl, hnil⟩]
        rfl
      · have hknown := (hmeans hplain (not_mem_depth_of_cutsBesides hnil)).2 m hm hself
        exact knows_enter_of_body hbody hknown
    · exact knows_enter_of_body hbody (hbody.faithful.closed n m hplain hn hrefers)

/-- Entering a name extends the session by what the name leads to.  The one cut that is dropped is
    that of the name itself, and that is why a recursive declaration is remembered at all. -/
theorem extends_enter (h : Faithful definitions busy (enter name body s).2) :
    Extends definitions busy [name] s (enter name body s).2 where
  faithful := h
  grows := fun n shape hn => get?_enter_of_body hbody (hbody.grows n shape hn)
  added := by
    intro n hn
    rw [get?_enter] at hn
    split at hn
    · rename_i hname
      exact .inr ⟨name, List.mem_singleton_self name, hname.1 ▸ .refl⟩
    · refine (hbody.added n hn).imp_right fun ⟨m, hm, hleads⟩ => ?_
      exact ⟨name, List.mem_singleton_self name, .head ⟨d, hd, hm⟩ hleads⟩
  cuts := fun c hc => mem_cuts_enter.mpr (.inl hc)
  own := by
    intro hplain c hc
    rcases mem_cuts_enter.mp hc with hold | ⟨hnew, hother⟩
    · exact .inl hold
    have hname : Plain definitions name := hplain name (List.mem_singleton_self name)
    rcases hbody.own (hname.of_names hd) c hnew with hold | hdepth | ⟨top, htop, rfl⟩
    · exact absurd hold List.not_mem_nil
    · exact .inr (.inl hdepth)
    · obtain rfl : name = top := Option.some.inj htop
      exact absurd rfl hother

/-- Entering a plain name answers it, unless something was cut by depth. -/
theorem answers_enter (hbusy : name ∉ busy) (hplain : Plain definitions name)
    (hmeans : .depth ∉ (body (s.inside name)).2.cuts → Means definitions name (body (s.inside name)).1)
    (hdepth : .depth ∉ (enter name body s).2.cuts) :
    Answers definitions busy (enter name body s).2 name (enter name body s).1 := by
  have hnone : .depth ∉ (body (s.inside name)).2.cuts := fun hmem =>
    hdepth (mem_cuts_enter.mpr (.inr ⟨hmem, nofun⟩))
  refine .ofMeans (fun hhead => hbusy (List.mem_of_head? hhead)) (.inr ?_) (hmeans hnone)
  rw [get?_enter, if_pos ⟨rfl, cutsBesides_eq_nil hd hplain hbody hnone⟩]
  rfl

end

/-- **Every look-up keeps what is remembered right**, and is right itself unless it was cut.  The
    induction is on the levels, and the cases are the six ways of a look-up. -/
theorem looks_lookup (definitions : Dict Definition) (levels : Nat) : Looks definitions levels := by
  induction levels using Nat.strongRecOn with
  | ind levels ih =>
    intro name busy s h hfrom
    have hhead : declaration? definitions name = none → busy.head? ≠ some name := fun hnone hmem =>
      h.resolving name (List.mem_of_head? hmem) hnone
    have hcase := looksUp definitions levels name s
    generalize lookup definitions levels name s = found at hcase ⊢
    cases hcase with
    | builtIn hb =>
      have hnone : declaration? definitions name = none := by
        unfold declaration?
        rw [hb]
        rfl
      exact ⟨.refl h, fun _ _ => .ofMeans (hhead hnone) (.inl hnone) (.builtIn hb)⟩
    -- what is remembered is right, and no name is remembered while it is being resolved
    | remembered hb hmemory =>
      refine ⟨.refl h, fun hplain _ => .ofMeans (fun htop => ?_) (.inr ?_)
        (h.means name _ hplain hmemory)⟩
      · rw [h.apart name (List.mem_of_head? htop)] at hmemory
        cases hmemory
      · rw [hmemory]
        rfl
    | undeclared hb hmemory hd =>
      exact ⟨.refl h, fun _ _ => .ofMeans (hhead hd) (.inl hd) (.undeclared hb hd)⟩
    -- a plain name that is met again is the innermost one, for which the cut is the right answer
    | busy hd hmemory hbusy =>
      have hbusy : name ∈ busy := h.busy_eq ▸ hbusy
      refine ⟨.ofCutShort h fun hplain => .inr ⟨name, ?_, rfl⟩, fun hplain _ => ?_⟩
      · exact h.head_of_mem hfrom (hplain name (List.mem_singleton_self name)) hbusy
      · have htop := h.head_of_mem hfrom hplain hbusy
        exact ⟨(seen_of_head htop).symm, fun hne => absurd htop hne⟩
    -- a cut by depth, of which nothing is claimed
    | deepest hd hmemory hbusy =>
      exact ⟨.ofCutShort h fun _ => .inl rfl, fun _ hdepth =>
        absurd (mem_cuts_cutShort.mpr (.inr rfl)) hdepth⟩
    -- one level further down, where the induction hypothesis speaks of the body
    | @enter levels d hd hmemory hbusy =>
      have hbusy : name ∉ busy := h.busy_eq ▸ hbusy
      have hlooks : ∀ l ≤ levels, Looks definitions l := fun l hl => ih l (Nat.lt_succ_of_le hl)
      obtain ⟨hbody, hmeans⟩ := body_spec h hfrom hd hmemory hlooks
      exact ⟨extends_enter hbody hd (faithful_enter hbody hd h hbusy hmeans),
        fun hplain => answers_enter hbody hd hbusy hplain fun hnone => (hmeans hplain hnone).1⟩

end RouteAtlas.Shape
