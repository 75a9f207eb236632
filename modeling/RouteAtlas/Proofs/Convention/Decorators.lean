/-
  What a handler has from its decorators.

  ==== Problem ====

  A handler takes its verb, its remote call and its guard from decorators that stand among other
  members of the class.  It must never take them from a neighbour, however decorators, comments and
  members alternate.

  ==== Program ====

  1. **One decorator more** - `HandlerNotes.From`: what is noted after some decorators is the verb of
     the last that has one, whether any calls remotely, and whether any is a guard.

  2. **A handler** - has these from the decorators of its member (`yields_saidBy`), and depends on its
     siblings through them alone (`handlerOf_congr`).

  3. **Together** - `decorators_partitioned`.
-/
import RouteAtlas.Proofs.Syntax.Attribution
import RouteAtlas.Proofs.Shape.Resolved
import RouteAtlas.Convention.Controller

namespace RouteAtlas.Convention.Controller

open Syntax (Node Site)
open Shape (Yields Definition Resolving)

/-! ## One decorator

What a decorator says of its member: a verb, a remote call, a guard.  The notes on a member sum this
up, with the last verb counting. -/

/-- The verb of a decorator. -/
def verb? (decorator : Node) : Option Method :=
  decorator.decoratorCall.1.bind fun name => Dict.get? methodDecorators name

/-- Does the decorator make its member a remote call? -/
def callsRemotely (decorator : Node) : Bool :=
  decorator.decoratorCall.1.any rpcDecorators.contains

/-- Is the decorator a guard? -/
def guards (decorator : Node) : Bool := asksForAuth decorator.decoratorCall.1 decorator.decoratorCall.2

/-- No decorator both has a verb and calls remotely. -/
theorem verb?_of_rpcDecorators {name : String} (h : rpcDecorators.contains name) :
    Dict.get? methodDecorators name = none := by
  have hall : ∀ name ∈ rpcDecorators, Dict.get? methodDecorators name = none := by decide
  exact hall name (List.contains_iff_mem.mp h)

/-- The notes say what the decorators `ds` say: the verb of the last that has one, whether any calls
    remotely, and whether any is a guard. -/
structure HandlerNotes.From (ds : List Node) (notes : HandlerNotes) : Prop where
  verb : notes.method = (ds.filterMap verb?).getLast?
  remote : notes.rpc.isSome = ds.any callsRemotely
  guard : notes.auth = ds.any guards

/-- One decorator more: its verb replaces the one before, its guard and its remote call are added. -/
theorem HandlerNotes.From.concat {ds : List Node} {notes notes' : HandlerNotes} (h : notes.From ds)
    {d : Node} (hverb : notes'.method = (verb? d).or notes.method)
    (hremote : notes'.rpc.isSome = (notes.rpc.isSome || callsRemotely d))
    (hguard : notes'.auth = (notes.auth || guards d)) : notes'.From (ds ++ [d]) where
  verb := by
    rw [hverb, h.verb, List.filterMap_append, List.getLast?_append]
    cases hd : verb? d <;> simp [hd]
  remote := by rw [hremote, h.remote, List.any_append]; simp
  guard := by rw [hguard, h.guard, List.any_append]; simp

variable {definitions : Dict Definition} {ds : List Node}

/-- **One decorator more** adds what it says.

    The tables of verbs and of remote calls have no name in common, so a decorator says at most one
    of the two, and a guard or neither besides. -/
theorem yields_add (handler controller : String) {notes : HandlerNotes} (h : notes.From ds) (d : Node) :
    Yields (fun _ => True) (HandlerNotes.From (ds ++ [d]))
      (HandlerNotes.add definitions handler controller notes d) := by
  unfold HandlerNotes.add
  split
  · -- without a name it says nothing
    rename_i args hcall
    exact .pure (h.concat (by simp [verb?, hcall]) (by simp [callsRemotely, hcall])
      (by simp [guards, hcall, asksForAuth]))
  rename_i name args hcall
  have hguard : (notes.auth || asksForAuth (some name) args) = (notes.auth || guards d) := by
    rw [guards, hcall]
  have hverb : verb? d = Dict.get? methodDecorators name := by rw [verb?, hcall]; rfl
  have hremote : callsRemotely d = rpcDecorators.contains name := by rw [callsRemotely, hcall]; rfl
  dsimp only
  cases hmethod : Dict.get? methodDecorators name with
  | some method =>
    have hno : rpcDecorators.contains name = false := by
      cases hc : rpcDecorators.contains name with
      | false => rfl
      | true => rw [verb?_of_rpcDecorators hc] at hmethod; cases hmethod
    exact .pure (h.concat (by simp [hverb, hmethod]) (by rw [hremote, hno, Bool.or_false]) hguard)
  | none =>
    have hsame : notes.method = (verb? d).or notes.method := by simp [hverb, hmethod]
    dsimp only
    cases hc : rpcDecorators.contains name with
    | true => exact .pure (h.concat hsame (by rw [hremote, hc, Bool.or_true]; rfl) hguard)
    | false =>
      -- whatever else it says, it says nothing of the verb and the remote call
      have hrest : notes.rpc.isSome = (notes.rpc.isSome || callsRemotely d) := by
        rw [hremote, hc, Bool.or_false]
      simp only [Bool.false_eq_true, if_false]
      split
      · exact .pure (h.concat hsame hrest hguard)
      split
      · exact .pure (h.concat hsame hrest hguard)
      split
      · exact Yields.bind (Q := fun _ => True) (fun _ _ => ⟨trivial, trivial⟩)
          fun _ _ => .pure (h.concat hsame hrest hguard)
      · exact .pure (h.concat hsame hrest hguard)

/-- The notes on all decorators say what these say. -/
theorem yields_notes (handler controller : String) (rest : List Node) {notes : HandlerNotes}
    (h : notes.From ds) :
    Yields (fun _ => True) (HandlerNotes.From (ds ++ rest))
      (rest.foldlM (HandlerNotes.add definitions handler controller) notes) := by
  induction rest generalizing ds notes with
  | nil => exact .pure ((List.append_nil ds).symm ▸ h)
  | cons d rest ih =>
    rw [List.foldlM_cons, List.append_cons]
    exact (yields_add handler controller h d).bind fun notes hnotes => ih hnotes

/-! ## Handlers -/

/-- An endpoint has its verb from the decorators `own`, and is guarded by these or by those `around`. -/
structure SaidBy (own around : List Node) (e : Endpoint) : Prop where
  verb : (own.filterMap verb?).getLast? = some e.method ∨
    own.filterMap verb? = [] ∧ own.any callsRemotely = true
  guard : e.auth = (own.any guards || around.any guards)

/-- **A handler has its verb and its guard from the decorators of its member.** The last verb wins,
    as the notes do; a handler without one is a remote call. -/
theorem yields_saidBy (file controller base : String) (member : Site) :
    Yields (fun _ => True) (fun handled => ∀ e, handled = some e → SaidBy member.decorators [] e)
      (handlerOf definitions file controller base member) := by
  have hany : ∀ {α : Type} (m : Resolving α), Yields (fun _ => True) (fun _ => True) m :=
    fun m _ _ => ⟨trivial, trivial⟩
  unfold handlerOf
  split
  · exact .none
  have hnone : ({} : HandlerNotes).From [] := ⟨rfl, rfl, rfl⟩
  refine (yields_notes _ controller member.decorators hnone).bind fun notes hnotes => ?_
  rw [List.nil_append] at hnotes
  dsimp only
  split
  · exact .none
  · rename_i method _ hmethod
    refine (hany _).bind fun p _ => .pure fun e he => ?_
    cases he
    exact ⟨.inl (by simp [← hnotes.verb, hmethod]), by simp [hnotes.guard]⟩
  · rename_i rpc hmethod hrpc
    have hverb : member.decorators.filterMap verb? = [] :=
      List.getLast?_eq_none_iff.mp (hnotes.verb.symm.trans hmethod)
    have hremote : member.decorators.any callsRemotely = true := by rw [← hnotes.remote, hrpc]; rfl
    have hsaid : ∀ e : Endpoint, e.auth = notes.auth → SaidBy member.decorators [] e := fun e he =>
      ⟨.inr ⟨hverb, hremote⟩, by simp [he, hnotes.guard]⟩
    refine (hany _).bind fun p _ => ?_
    split
    · exact .pure fun e he => hsaid e (Option.some.inj he ▸ rfl)
    · exact (hany _).bind fun body _ => .pure fun e he => hsaid e (Option.some.inj he ▸ rfl)

/-- A handler depends on its siblings through its decorators alone. -/
theorem handlerOf_congr (file controller base : String) {a b : Site} (hnode : a.node = b.node)
    (hdecorators : a.decorators = b.decorators) :
    handlerOf definitions file controller base a = handlerOf definitions file controller base b := by
  unfold handlerOf
  rw [hnode, hdecorators]

/-- A decorator and a comment handle nothing. -/
theorem callableParams?_of_isDecoration {member : Node} (h : member.isDecoration = true) :
    callableParams? member = none := by
  simp only [Node.isDecoration, Bool.or_eq_true, beq_iff_eq] at h
  unfold callableParams?
  rcases h with h | h <;> rw [h] <;> rfl

/-- A decorator and a comment are no handlers. -/
theorem handlerOf_of_isDecoration (file controller base : String) {member : Site}
    (h : member.node.isDecoration = true) :
    handlerOf definitions file controller base member = pure none := by
  unfold handlerOf
  rw [callableParams?_of_isDecoration h]

/-! ## Class bodies

The children of a class body are decorators, comments and members.  A decorator belongs to the first
member behind it, with nothing but decorators and comments in between. -/

section Body

variable {body member : Site} (hbody : body.node.kind ≠ "export_statement") {j : Nat}
  (hmember : body.children[j]? = some member)
include hbody hmember

/-- A child of a body has verb and guard from the decorators attributed to it. -/
theorem yields_saidBy_attributed (file controller base : String) :
    Yields (fun _ => True)
      (fun handled => ∀ e, handled = some e → SaidBy (body.attributed j member.node) [] e)
      (handlerOf definitions file controller base member) := by
  cases hm : member.node.isDecoration with
  | true =>
    rw [handlerOf_of_isDecoration file controller base hm]
    exact .none
  | false =>
    rw [← Site.decorators_eq_attributed hbody hmember hm]
    exact yields_saidBy file controller base member

/-- A member is handled as if its decorators were its only siblings. -/
theorem handlerOf_alone (file controller base : String) :
    handlerOf definitions file controller base member =
      handlerOf definitions file controller base (body.alone j member.node) := by
  cases hm : member.node.isDecoration with
  | true =>
    have halone : (body.alone j member.node).node.isDecoration = true := hm
    rw [handlerOf_of_isDecoration file controller base hm,
      handlerOf_of_isDecoration file controller base halone]
  | false =>
    refine handlerOf_congr file controller base rfl ?_
    rw [Site.decorators_eq_attributed hbody hmember hm, Site.decorators_alone hbody]

end Body

/-- A class is guarded if one of its decorators is a guard. -/
theorem auth_foldl (notes : ClassNotes) (ds : List Node) :
    (ds.foldl ClassNotes.add notes).auth = (notes.auth || ds.any guards) := by
  induction ds generalizing notes with
  | nil => simp
  | cons d ds ih =>
    have hadd : (notes.add d).auth = (notes.auth || guards d) := by
      unfold ClassNotes.add
      dsimp only
      split <;> rfl
    rw [List.foldl_cons, ih, hadd, List.any_cons, Bool.or_assoc]

/-- **The endpoints of a class** are those of children of its body, guarded by the class as well.

    The endpoints of the members are completed with the guard of the class, and this is all that is
    changed about them. -/
theorem yields_saidBy_endpointsOf {body : Site} (hbody : body.node.kind ≠ "export_statement")
    (file : String) {cls : Site} (hcls : cls.field? "body" = some body) :
    Yields (fun _ => True)
      (fun endpoints => ∀ e ∈ endpoints, ∃ j member, body.children[j]? = some member ∧
        SaidBy (body.attributed j member.node) cls.decorators e)
      (endpointsOf definitions file cls) := by
  have hmembers : ∀ member ∈ body.namedChildren, ∀ name base, Yields (fun _ => True)
      (fun handled => ∀ e, handled = some e → ∃ j member, body.children[j]? = some member ∧
        SaidBy (body.attributed j member.node) [] e)
      (handlerOf definitions file name base member) := by
    intro member hmember name base session hsession
    obtain ⟨j, hj⟩ := List.mem_iff_getElem?.mp (Site.mem_children_of_mem_namedChildren hmember)
    refine ⟨fun e he => ⟨j, member, hj, ?_⟩, trivial⟩
    exact (yields_saidBy_attributed hbody hj file name base session hsession).1 e he
  unfold endpointsOf
  rw [hcls]
  refine (Yields.mapM _ fun member hmember => hmembers member hmember _ _).bind
    fun handled hhandled => .pure fun e he => ?_
  obtain ⟨e', he', hkept⟩ := List.mem_filterMap.mp he
  obtain ⟨handled', hmem, rfl⟩ := List.mem_filterMap.mp he'
  obtain ⟨j, member, hj, hsaid⟩ := hhandled _ hmem e' rfl
  split at hkept
  · cases hkept
  · cases hkept
    refine ⟨j, member, hj, hsaid.verb, ?_⟩
    simp [hsaid.guard, auth_foldl]

/-- Every decorator among the children of a class body decorates one child at most, and handlers have
    verb and guard from decorators of their own. -/
structure Partitioned (body : Site) : Prop where
  /-- A child has the decorators it owns, then those among its own children. -/
  decorators : ∀ j member, body.children[j]? = some member → member.node.isDecoration = false →
    member.decorators = body.attributed j member.node
  in_order : ∀ j, ((Site.ownedBy body.node.children j).map (·.2)).Pairwise (· < ·)
  /-- No decorator has two owners. -/
  disjoint : ∀ i j k d e, (d, i) ∈ Site.ownedBy body.node.children j →
    (e, i) ∈ Site.ownedBy body.node.children k → j = k
  /-- Its owner is the first child behind it that is neither a decorator nor a comment. -/
  owner : ∀ i j d, body.node.children[i]? = some d → d.kind = "decorator" →
    ((d, i) ∈ Site.ownedBy body.node.children j ↔ Site.FirstBehind body.node.children i j)
  /-- What all children find among their siblings, then what stands behind the last of them, are all
      decorators. -/
  together : (body.children.filter (!·.node.isDecoration)).flatMap (Site.siblingDecorators ·.before)
      ++ Site.siblingDecorators body.node.children.reverse =
    body.node.children.filter (·.kind == "decorator")
  /-- A handler is read as if all other siblings were missing. -/
  alone : ∀ j member, body.children[j]? = some member →
    ∀ definitions file controller base, handlerOf definitions file controller base member =
      handlerOf definitions file controller base (body.alone j member.node)
  handlers : ∀ j member, body.children[j]? = some member →
    ∀ definitions file controller base session e,
      ((handlerOf definitions file controller base member).run session).1 = some e →
      SaidBy (body.attributed j member.node) [] e
  /-- The endpoints of a class are handlers that may also be guarded by the class. -/
  endpoints : ∀ cls : Site, cls.field? "body" = some body → ∀ definitions file session,
    ∀ e ∈ ((endpointsOf definitions file cls).run session).1,
      ∃ j member, body.children[j]? = some member ∧
        SaidBy (body.attributed j member.node) cls.decorators e

/-- **Decorators of class members are partitioned**: each belongs to the first sibling behind it that
    is neither a decorator nor a comment and to no other, a member has its own in source order before
    those among its own children, and no handler takes the verb or the guard of another. -/
theorem decorators_partitioned (body : Site) (hbody : body.node.kind ≠ "export_statement") :
    Partitioned body where
  decorators := fun _ _ => Site.decorators_eq_attributed hbody
  in_order := Site.ownedBy_in_order body.node.children
  disjoint := fun _ _ _ _ _ => Site.ownedBy_disjoint
  owner := fun _ _ _ => Site.mem_ownedBy_iff
  together := Site.flatMap_siblingDecorators body
  alone := fun _ _ hmember _ file controller base =>
    handlerOf_alone hbody hmember file controller base
  handlers := fun _ _ hmember _ file controller base session =>
    (yields_saidBy_attributed hbody hmember file controller base session trivial).1
  endpoints := fun _ hcls _ file session =>
    (yields_saidBy_endpointsOf hbody file hcls session trivial).1

namespace AccountClass

open Syntax.Node (branch leaf)

/-- A decorator without arguments. -/
def decorator (name : String) : Node :=
  branch "decorator" "" ("@" ++ name) [leaf "identifier" "" name]

/-- A method without parameters. -/
def method (name : String) : Node :=
  branch "method_definition" "" (name ++ "() \x7b\x7d")
    [leaf "property_identifier" "name" name, leaf "formal_parameters" "parameters" "()"]

/-- `@Get /* all */ @Roles list() ; @Post add() @Put`, as the body of a class. -/
def body : Site :=
  Site.root (branch "class_body" "body" "" [decorator "Get", leaf "comment" "" "/* all */",
    decorator "Roles", method "list", leaf ";" "" ";", decorator "Post", method "add",
    decorator "Put"])

end AccountClass

/-- One method is read by `GET` and guarded, the other one written by `POST` and open; nothing owns
    the decorator behind them. -/
theorem decorators_partitioned_account :
    AccountClass.body.node.kind ≠ "export_statement" ∧
    (List.range 8).map (fun j => (Site.ownedBy AccountClass.body.node.children j).map (·.2)) =
      [[], [], [], [0, 2], [], [], [5], []] ∧
    AccountClass.body.children.map (fun member =>
        (((handlerOf [] "account.ts" "Account" "" member).run {}).1.map fun e => (e.method, e.auth))) =
      [none, none, none, some (.get, true), none, none, some (.post, false), none] ∧
    Partitioned AccountClass.body := by
  have hbody : AccountClass.body.node.kind ≠ "export_statement" := by decide
  exact ⟨hbody, by decide +kernel, by decide +kernel, decorators_partitioned _ hbody⟩

end RouteAtlas.Convention.Controller
