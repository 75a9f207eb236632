/-
  Which router a chain is on, and which one it is meant for.

  ==== Problem ====

  A chain on a variable is on the router of that name.  A chain on a construction has no name to go
  by: its router is the variable that the chain initializes, or the default export of the file.  For
  that the extractor looks outwards from the call, and not through every wrapper that a chain may
  stand in, though the same variable is taken for a router whatever the wrapper is.

  ==== Program ====

  1. **Owners** - the router the extractor finds (`routerOf`), and the one that a chain is meant for
     when all wrappers are looked through (`meantFor`).

  2. **Hidden calls** - the places where the two look outwards differently (`owner_of_hidden`,
     `owner_of_not_hidden`).  Nothing is found there, so a chain is never on a wrong router.

  3. **Inner calls** - an inner call initializes nothing, so it is on a router only if its chain starts
     with a name (`identifier_of_inner`).

  4. **Missed chains** - a chain on a construction in a hidden place is on no router
     (`router_of_missed`), and every other chain on the one that it is meant for
     (`router_of_not_missed`).
-/
import RouteAtlas.Proofs.Convention.ChainLink

namespace RouteAtlas.Convention.Fluent

open Syntax (Node Site)

/-! ## Owners

Which router a chain is on: the one that its first expression names, or the one that a construction
at its beginning makes, known by the variable or the export around the end of the chain. -/

/-- The variable that is declared right around a place. -/
def variableAt? (above : List Node) : Option String :=
  match above with
  | decl :: _ => if decl.kind == "variable_declarator" then (decl.field? "name").map (·.text) else none
  | [] => none

/-- Is a place exported as it is? -/
def isExportedAt (above : List Node) : Bool :=
  (above.head?.map (·.kind == "export_statement")).getD false

/-- The router of a construction: the variable declared around one place, or the default export if
    another place is exported. -/
def ownerAt? (declaring exporting : List Node) : Option String :=
  variableAt? declaring <|> if isExportedAt exporting then some "default" else none

/-- The wrappers that are looked through for the variable that a call initializes. -/
def declaredWrappers : List String :=
  ["parenthesized_expression", "as_expression", "satisfies_expression"]

/-- What is around a place beyond those wrappers. -/
def beyondDeclared (above : List Node) : List Node :=
  above.dropWhile fun n => declaredWrappers.contains n.kind

/-- Does the chain of a call start with the construction of a router? -/
def isConstructed (call : Node) : Bool :=
  (((Chain.ofNode call).root.bind Node.unwrap).map isConstruction).getD false

/-- Does any link of the chain of a call matter? -/
def matters (call : Node) : Bool := (Chain.ofNode call).links.any Link.isRouting

/-- The router that a chain is found to be on, if any of its links matters. -/
def routerOf (ctx : Context) (routes : FileRoutes) (call : Site) : Option String :=
  if matters call.node then (ownerOf ctx routes call (Chain.ofNode call.node).root).1 else none

/-- The router that a chain is meant for, if any of its links matters.  Wrappers around a chain that
    starts with a construction do not change what the chain initializes or exports. -/
def meantFor (ctx : Context) (routes : FileRoutes) (call : Site) : Option String :=
  if matters call.node then
    if isConstructed call.node then ownerAt? (beyond call.above) (beyond call.above)
    else (ownerOf ctx routes call (Chain.ofNode call.node).root).1
  else none

/-- The router of a constructed chain is looked for around its last call. -/
theorem ownerOf_of_isConstructed (ctx : Context) (routes : FileRoutes) {call : Site}
    (h : isConstructed call.node = true) :
    (ownerOf ctx routes call (Chain.ofNode call.node).root).1 =
      ownerAt? (beyondDeclared call.above) call.above := by
  unfold isConstructed at h
  unfold ownerOf
  cases hroot : (Chain.ofNode call.node).root.bind Node.unwrap with
  | none =>
    rw [hroot] at h
    exact absurd h Bool.false_ne_true
  | some root =>
    rw [hroot] at h
    have hconstruction : isConstruction root = true := h
    dsimp only
    rw [hconstruction]
    rfl

/-! ## Hidden calls

A construction is noticed through some wrappers and not through others.  Where one of the others
stands around it, no router is found. -/

section

variable {above : List Node}

/-- With no wrapper around it, a place is next to what is beyond the wrappers. -/
theorem beyond_of_bare (h : wrappersAround above = []) : beyond above = above := by
  have hsplit : wrappersAround above ++ beyond above = above := List.takeWhile_append_dropWhile
  rwa [h, List.nil_append] at hsplit

/-- What is next to a place with wrappers around it is a wrapper. -/
theorem head_of_wrapped (h : wrappersAround above ≠ []) :
    ∃ w rest, above = w :: rest ∧ w.kind ∈ chainWrappers := by
  cases above with
  | nil => exact absurd rfl h
  | cons w rest =>
    refine ⟨w, rest, rfl, List.contains_iff_mem.mp ?_⟩
    by_contra hwrapper
    exact h (List.takeWhile_cons_of_neg hwrapper)

/-- What has a wrapper around it is not exported as it is. -/
theorem not_isExportedAt_of_wrapped (h : wrappersAround above ≠ []) : isExportedAt above = false := by
  obtain ⟨w, rest, rfl, hw⟩ := head_of_wrapped h
  refine beq_eq_false_iff_ne.mpr fun hkind => ?_
  rw [hkind] at hw
  exact absurd hw (by decide)

/-- What is looked through for a variable is looked through by a chain. -/
theorem mem_chainWrappers_of_mem_declaredWrappers {kind : String} (h : kind ∈ declaredWrappers) :
    kind ∈ chainWrappers := by
  unfold declaredWrappers at h
  simp only [List.mem_cons, List.not_mem_nil, or_false] at h
  rcases h with rfl | rfl | rfl <;> decide

/-- Nothing is found through a wrapper that is not looked through for a variable, and else what is
    beyond all wrappers. -/
theorem variableAt?_beyondDeclared (above : List Node) :
    ((∀ w ∈ wrappersAround above, w.kind ∈ declaredWrappers) →
      beyondDeclared above = beyond above) ∧
    ((∃ w ∈ wrappersAround above, w.kind ∉ declaredWrappers) →
      variableAt? (beyondDeclared above) = none) := by
  induction above with
  | nil => exact ⟨fun _ => rfl, fun ⟨_, hw, _⟩ => absurd hw List.not_mem_nil⟩
  | cons n above ih =>
    by_cases hwrapper : chainWrappers.contains n.kind = true
    · have haround : wrappersAround (n :: above) = n :: wrappersAround above :=
        List.takeWhile_cons_of_pos hwrapper
      rw [haround, List.forall_mem_cons, List.exists_mem_cons_iff, beyond_wrapper hwrapper]
      by_cases hseen : declaredWrappers.contains n.kind = true
      · have hmem : n.kind ∈ declaredWrappers := List.contains_iff_mem.mp hseen
        have hdrop : beyondDeclared (n :: above) = beyondDeclared above :=
          List.dropWhile_cons_of_pos hseen
        rw [hdrop]
        exact ⟨fun h => ih.1 h.2, fun h => ih.2 (h.resolve_left (not_not_intro hmem))⟩
      · have hmem : n.kind ∉ declaredWrappers := fun hmem => hseen (List.contains_iff_mem.mpr hmem)
        have hdrop : beyondDeclared (n :: above) = n :: above := List.dropWhile_cons_of_neg hseen
        rw [hdrop]
        refine ⟨fun h => absurd h.1 hmem, fun _ => if_neg fun hkind => ?_⟩
        rw [beq_iff_eq.mp hkind] at hwrapper
        exact absurd hwrapper (by decide)
    · have hseen : ¬ declaredWrappers.contains n.kind = true := fun hseen =>
        hwrapper (List.contains_iff_mem.mpr
          (mem_chainWrappers_of_mem_declaredWrappers (List.contains_iff_mem.mp hseen)))
      have haround : wrappersAround (n :: above) = [] := List.takeWhile_cons_of_neg hwrapper
      have hdrop : beyondDeclared (n :: above) = n :: above := List.dropWhile_cons_of_neg hseen
      rw [haround, beyond_of_not_wrapper hwrapper, hdrop]
      exact ⟨fun _ => rfl, fun ⟨_, hw, _⟩ => absurd hw List.not_mem_nil⟩

/-- What is found for a variable is the variable. -/
theorem variableAt?_beyondDeclared_eq_none (h : variableAt? (beyond above) = none) :
    variableAt? (beyondDeclared above) = none := by
  obtain ⟨hall, hsome⟩ := variableAt?_beyondDeclared above
  by_cases hseen : ∀ w ∈ wrappersAround above, w.kind ∈ declaredWrappers
  · rw [hall hseen, h]
  · refine hsome ?_
    simpa using hseen

/-- A place where a construction goes unnoticed: the initializer of a variable inside a wrapper that
    is not looked through for the variable, or an export inside any wrapper. -/
def IsHidden (above : List Node) : Prop :=
  (variableAt? (beyond above) ≠ none ∧ ∃ w ∈ wrappersAround above, w.kind ∉ declaredWrappers) ∨
    (isExportedAt (beyond above) = true ∧ wrappersAround above ≠ [])

/-- What is exported is not the initializer of a variable. -/
theorem variableAt?_of_isExportedAt (h : isExportedAt above = true) : variableAt? above = none := by
  cases above with
  | nil => exact absurd h Bool.false_ne_true
  | cons n above =>
    have hkind : n.kind = "export_statement" := beq_iff_eq.mp h
    refine if_neg ?_
    rw [hkind]
    decide

/-- In a hidden place no router is found, though there is one. -/
theorem owner_of_hidden (h : IsHidden above) :
    ownerAt? (beyondDeclared above) above = none ∧
      ownerAt? (beyond above) (beyond above) ≠ none := by
  rcases h with ⟨hvariable, w, hw, hseen⟩ | ⟨hexported, hwrapped⟩
  · have hnone := (variableAt?_beyondDeclared above).2 ⟨w, hw, hseen⟩
    have hplain := not_isExportedAt_of_wrapped (List.ne_nil_of_mem hw)
    obtain ⟨name, hname⟩ := Option.ne_none_iff_exists'.mp hvariable
    unfold ownerAt?
    rw [hnone, hplain, hname]
    exact ⟨rfl, Option.some_ne_none name⟩
  · have hnone := variableAt?_of_isExportedAt hexported
    have hplain := not_isExportedAt_of_wrapped hwrapped
    unfold ownerAt?
    rw [variableAt?_beyondDeclared_eq_none hnone, hnone, hplain, hexported]
    exact ⟨rfl, Option.some_ne_none "default"⟩

/-- In any other place the router is found if there is one. -/
theorem owner_of_not_hidden (h : ¬ IsHidden above) :
    ownerAt? (beyondDeclared above) above = ownerAt? (beyond above) (beyond above) := by
  obtain ⟨hvariable, hexported⟩ := not_or.mp h
  have hdeclared : variableAt? (beyondDeclared above) = variableAt? (beyond above) := by
    cases hname : variableAt? (beyond above) with
    | none => exact variableAt?_beyondDeclared_eq_none hname
    | some name =>
      rw [(variableAt?_beyondDeclared above).1 ?_, hname]
      intro w hw
      by_contra hseen
      exact hvariable ⟨hname ▸ Option.some_ne_none name, w, hw, hseen⟩
  have hexport : isExportedAt above = isExportedAt (beyond above) := by
    by_cases hbare : wrappersAround above = []
    · rw [beyond_of_bare hbare]
    · rw [not_isExportedAt_of_wrapped hbare]
      exact (Bool.eq_false_iff.mpr fun hbeyond => hexported ⟨hbeyond, hbare⟩).symm
  rw [ownerAt?, ownerAt?, hdeclared, hexport]

/-! ## Inner calls

An inner call is read on its own only if its chain begins with a name: beyond an inner call there is
neither a declaration nor an export that could be its router. -/

/-- Beyond the wrappers around an inner call there is no declaration and no export. -/
theorem ownerAt?_of_inReceiver (h : inReceiver above = true) :
    ownerAt? (beyond above) (beyond above) = none := by
  unfold inReceiver at h
  cases hbeyond : beyond above with
  | nil => rfl
  | cons n around =>
    rw [hbeyond] at h
    have hmember : n.kind = "member_expression" := beq_iff_eq.mp (Bool.and_eq_true_iff.mp h).1
    have hvariable : variableAt? (n :: around) = none := by
      refine if_neg ?_
      rw [hmember]
      decide
    have hexported : isExportedAt (n :: around) = false := by
      refine beq_eq_false_iff_ne.mpr ?_
      rw [hmember]
      decide
    rw [ownerAt?, hvariable, hexported]
    rfl

end

section

variable {ctx : Context} {routes : FileRoutes} {call : Site}

/-- An inner call finds a router only if its chain starts with a name.  The other way to a router, a
    construction on the variable or export around it, is closed to a call that is the receiver of
    another one. -/
theorem identifier_of_inner (hinner : isInner call = true) (hrouter : routerOf ctx routes call ≠ none) :
    ∃ root, (Chain.ofNode call.node).root.bind Node.unwrap = some root ∧ root.kind = "identifier" := by
  have howner : (ownerOf ctx routes call (Chain.ofNode call.node).root).1 ≠ none := by
    unfold routerOf at hrouter
    split at hrouter
    · exact hrouter
    · exact absurd rfl hrouter
  -- a construction would be on the variable or export around it, of which there is none
  have hconstructed : ¬ isConstructed call.node = true := by
    intro hconstructed
    have hnothing := ownerAt?_of_inReceiver hinner
    rw [ownerOf_of_isConstructed ctx routes hconstructed] at howner
    by_cases hhidden : IsHidden call.above
    · exact howner (owner_of_hidden hhidden).1
    · exact howner (owner_of_not_hidden hhidden ▸ hnothing)
  unfold isConstructed at hconstructed
  unfold ownerOf at howner
  cases hroot : (Chain.ofNode call.node).root.bind Node.unwrap with
  | none =>
    rw [hroot] at howner
    exact absurd rfl howner
  | some root =>
    rw [hroot] at howner hconstructed
    dsimp only at howner
    refine ⟨root, rfl, ?_⟩
    rw [if_neg (show ¬ isConstruction root = true from hconstructed)] at howner
    split at howner
    · exact absurd rfl howner
    · rename_i hkind
      simpa using hkind

/-! ## Missed chains

Chains that are meant for a router and are on none. -/

/-- A chain that matters, starts with a construction and ends in a hidden place. -/
def IsMissed (call : Site) : Prop :=
  matters call.node = true ∧ isConstructed call.node = true ∧ IsHidden call.above

theorem not_isInner_of_missed (h : IsMissed call) : isInner call = false :=
  Bool.eq_false_iff.mpr fun hinner => (owner_of_hidden h.2.2).2 (ownerAt?_of_inReceiver hinner)

/-- A missed chain is meant for a router, and on none. -/
theorem router_of_missed (ctx : Context) (routes : FileRoutes) (h : IsMissed call) :
    routerOf ctx routes call = none ∧ meantFor ctx routes call ≠ none := by
  obtain ⟨hlinks, hconstructed, hhidden⟩ := h
  obtain ⟨hnone, hmeant⟩ := owner_of_hidden hhidden
  rw [routerOf, meantFor, if_pos hlinks, if_pos hlinks, if_pos hconstructed,
    ownerOf_of_isConstructed ctx routes hconstructed]
  exact ⟨hnone, hmeant⟩

/-- **Every other chain** is on the router that it is meant for. -/
theorem router_of_not_missed (ctx : Context) (routes : FileRoutes) (h : ¬ IsMissed call) :
    routerOf ctx routes call = meantFor ctx routes call := by
  rw [routerOf, meantFor]
  by_cases hlinks : matters call.node = true
  · rw [if_pos hlinks, if_pos hlinks]
    by_cases hconstructed : isConstructed call.node = true
    · have hhidden : ¬ IsHidden call.above := fun hhidden => h ⟨hlinks, hconstructed, hhidden⟩
      rw [if_pos hconstructed, ownerOf_of_isConstructed ctx routes hconstructed,
        owner_of_not_hidden hhidden]
    · rw [if_neg hconstructed]
  · rw [if_neg hlinks, if_neg hlinks]

/-- What a missed chain starts with is not a name. -/
theorem not_identifier_of_missed (h : IsMissed call) {root : Node}
    (hroot : (Chain.ofNode call.node).root.bind Node.unwrap = some root) :
    root.kind ≠ "identifier" := by
  intro hkind
  have hconstruction : isConstruction root = true := by
    have hconstructed := h.2.1
    unfold isConstructed at hconstructed
    rw [hroot] at hconstructed
    exact hconstructed
  have hunwrap : root.unwrap = some root := by
    rw [Node.unwrap_eq, hkind]
    exact if_neg (by decide)
  unfold isConstruction at hconstruction
  rw [hunwrap] at hconstruction
  have hnew := beq_iff_eq.mp (Bool.and_eq_true_iff.mp hconstruction).1
  rw [hkind] at hnew
  exact absurd hnew (by decide)

end

end RouteAtlas.Convention.Fluent
