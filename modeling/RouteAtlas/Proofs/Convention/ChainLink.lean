/-
  The calls of a tree, taken apart into chains.

  ==== Problem ====

  A chain is read from its outermost call inwards, through every wrapper on the way.  Which calls are
  outermost has to be told from the other side: a walk comes to each call of the tree, also to those in
  the middle of a chain, and looks outwards from there.  Both directions have to agree on every nesting
  of calls, members and wrappers, or a link of a chain is read twice or not at all.

  ==== Program ====

  1. **Chains of sites** - `chainSites`: the calls of the chain that ends in a call, in source order.
     They are what the links of the chain are read from (`links_ofNode`).

  2. **Looking outwards** - `isInner`: around a call, beyond wrappers, is a member, and around that,
     beyond wrappers, a call.

  3. **Regular trees** - what a grammar says of calls, members and wrappers: which child a chain can go
     through.

  4. **Agreement** - in a regular tree, the chains of the calls that are not inner ones are made of all
     links of the tree, each of them once (`perm_chains`).

  ==== The crux ====

  The invariant of the walk says what a part of the tree has to do with the chains from outside:
  `pending` are the links in it that belong to a chain that ends further out.  The links of the part are
  those, and the chains that end in it; a call that is a link moves from the second to the first when
  it turns out to be an inner one.
-/
import Mathlib.Data.List.Perm.Basic
import RouteAtlas.Convention.Fluent
import RouteAtlas.Proofs.Syntax.Walk

namespace RouteAtlas.Convention.Fluent

open Syntax (Node Site)

/-! ## Chains of sites

A chain is read from its last call inwards.  Here it is a list of sites, so that one can say which
call of the tree a link is. -/

/-- The callee of a call when it is a member of something, in its place. -/
def member? (call : Site) : Option Site :=
  (call.inner? "function").filter (·.node.kind == "member_expression")

/-- What a method is called on, in its place. -/
def receiver? (call : Site) : Option Site := (member? call).bind (·.inner? "object")

/-- Is the node a call of a method, and so a link of a chain? -/
def isLink (n : Node) : Bool :=
  n.kind == "call_expression" && (n.callee?.map (·.kind == "member_expression")).getD false

theorem kind_of_isLink {n : Node} (h : isLink n = true) : n.kind = "call_expression" :=
  beq_iff_eq.mp (Bool.and_eq_true_iff.mp h).1

/-- The callee of a link is a member of something. -/
theorem member?_eq_some {call member : Site} (h : member? call = some member) :
    call.inner? "function" = some member ∧ member.node.kind = "member_expression" := by
  obtain ⟨hinner, hkind⟩ := Option.filter_eq_some_iff.mp h
  exact ⟨hinner, beq_iff_eq.mp hkind⟩

/-- What a method is called on is smaller than the call. -/
theorem size_lt_of_receiver? {call receiver : Site} (h : receiver? call = some receiver) :
    receiver.node.size < call.node.size := by
  obtain ⟨member, hmember, hobject⟩ := Option.bind_eq_some_iff.mp h
  have hcallee := Site.size_lt_of_inner? (member?_eq_some hmember).1
  have hinner := Site.size_lt_of_inner? hobject
  omega

set_option linter.unusedVariables false in
/-- The calls of the chain that an expression without wrappers is, in source order. -/
def chainSites (s : Site) : List Site :=
  if isLink s.node then
    (match h : receiver? s with
      | some receiver => chainSites receiver
      | none => []) ++ [s]
  else []
termination_by s.node.size
decreasing_by exact size_lt_of_receiver? h

/-- The calls before a call in its chain. -/
def earlier (call : Site) : List Site := ((receiver? call).map chainSites).getD []

/-- A link is the last call of its chain. -/
theorem chainSites_of_link {s : Site} (h : isLink s.node = true) :
    chainSites s = earlier s ++ [s] := by
  rw [chainSites, if_pos h, earlier]
  split
  · rename_i receiver hreceiver
    rw [hreceiver]
    rfl
  · rename_i hnone
    rw [hnone]
    rfl

theorem chainSites_of_not_link {s : Site} (h : ¬ isLink s.node = true) : chainSites s = [] := by
  rw [chainSites, if_neg h]

/-- The callee of a call in its place is the callee of the node. -/
theorem callee?_site (call : Site) :
    (call.inner? "function").map (·.node) = call.node.callee? := call.inner?_node "function"

/-- A link is a call whose callee is a member. -/
theorem isLink_eq (call : Site) :
    isLink call.node = (call.node.kind == "call_expression" && (member? call).isSome) := by
  unfold isLink member?
  rw [← callee?_site]
  cases call.inner? "function" with
  | none => rfl
  | some callee => cases hkind : callee.node.kind == "member_expression" <;> simp [hkind]

/-- What a link's method is called on, as a node. -/
theorem receiver?_node {call : Site} (hlink : isLink call.node = true) :
    (receiver? call).map (·.node) = call.node.callee?.bind Node.object? := by
  rw [isLink_eq, Bool.and_eq_true] at hlink
  obtain ⟨member, hmember⟩ := Option.isSome_iff_exists.mp hlink.2
  obtain ⟨hinner, -⟩ := member?_eq_some hmember
  rw [receiver?, hmember, ← callee?_site, hinner]
  exact member.inner?_node "object"

/-- What is read from a call of a chain. -/
def linkOf (call : Node) : Link := ⟨call.callee?.bind Node.property?, call.arguments⟩

/-- A chain goes on from a link to what its method is called on, and ends at anything else.  The
    program matches on the callee and on its object in turn; here the two are one question. -/
theorem below_eq (n : Node) (later : List Link) :
    Chain.below n later =
      if isLink n then
        match n.callee?.bind Node.object? with
        | some object => Chain.below object (linkOf n :: later)
        | none => ⟨none, linkOf n :: later⟩
      else ⟨some n, later⟩ := by
  rw [Chain.below, isLink, linkOf]
  cases n.kind == "call_expression" with
  | false => rfl
  | true =>
    simp only [if_true, Bool.true_and]
    split
    · rename_i hcallee
      rw [hcallee]
      rfl
    · rename_i callee hcallee
      rw [hcallee]
      simp only [Option.map_some, Option.getD_some, Option.bind_some]
      split
      · split
        · rename_i hobject
          rw [hobject]
        · rename_i object hobject
          rw [hobject]
      · rfl

/-- The links below an expression are those of its chain of sites. -/
theorem links_below (s : Site) (later : List Link) :
    (Chain.below s.node later).links = (chainSites s).map (fun c => linkOf c.node) ++ later := by
  induction hsize : s.node.size using Nat.strongRecOn generalizing s later with
  | _ n ih =>
    rw [below_eq]
    by_cases hlink : isLink s.node = true
    · rw [if_pos hlink, chainSites_of_link hlink, earlier, ← receiver?_node hlink]
      cases hreceiver : receiver? s with
      | none => rfl
      | some receiver =>
        have hless := size_lt_of_receiver? hreceiver
        show (Chain.below receiver.node _).links = ((chainSites receiver) ++ [s]).map _ ++ later
        rw [ih _ (hsize ▸ hless) receiver _ rfl, List.map_append, List.append_assoc]
        rfl
    · rw [if_neg hlink, chainSites_of_not_link hlink]
      rfl

/-- The chain of a call is read from the call inwards. -/
theorem ofNode_call {call : Node} (hkind : call.kind = "call_expression") :
    Chain.ofNode call = Chain.below call [] := by
  have hunwrap : call.unwrap = some call := by
    rw [Node.unwrap_eq, hkind]
    exact if_neg (by decide)
  rw [Chain.ofNode, hunwrap]

/-- The links of the chain that a call is. -/
theorem links_ofNode {call : Site} (hkind : call.node.kind = "call_expression") :
    (Chain.ofNode call.node).links = (chainSites call).map fun c => linkOf c.node := by
  rw [ofNode_call hkind, links_below, List.append_nil]

/-- What a chain starts from does not depend on what follows it. -/
theorem root_below (n : Node) (later later' : List Link) :
    (Chain.below n later).root = (Chain.below n later').root := by
  induction hsize : n.size using Nat.strongRecOn generalizing n later later' with
  | _ size ih =>
    rw [below_eq, below_eq n later']
    split
    · cases hreceiver : n.callee?.bind Node.object? with
      | none => rfl
      | some object =>
        obtain ⟨callee, hcallee, hobject⟩ := Option.bind_eq_some_iff.mp hreceiver
        have hless : object.size < size := by
          have := Node.size_lt_of_inner? hcallee
          have := Node.size_lt_of_inner? hobject
          omega
        exact ih object.size hless object _ _ rfl
    · rfl

/-- All calls of a chain start from the same expression.  The calls before a link are those of its
    receiver, which is smaller, and going down from the receiver ends at the same root whatever was
    gathered on the way. -/
theorem root_of_mem_chainSites {c s : Site} (hc : c ∈ chainSites s) :
    (Chain.ofNode c.node).root = (Chain.below s.node []).root := by
  induction hsize : s.node.size using Nat.strongRecOn generalizing s with
  | _ size ih =>
    by_cases hlink : isLink s.node = true
    · have hmem := hc
      rw [chainSites_of_link hlink, earlier] at hmem
      rcases List.mem_append.mp hmem with hmem | hmem
      · have hreceiver := receiver?_node hlink
        cases hfound : receiver? s with
        | none =>
          rw [hfound] at hmem
          exact absurd hmem List.not_mem_nil
        | some receiver =>
          rw [hfound] at hmem hreceiver
          rw [below_eq s.node, if_pos hlink, ← hreceiver]
          show _ = (Chain.below receiver.node _).root
          rw [root_below receiver.node _ []]
          exact ih receiver.node.size (hsize ▸ size_lt_of_receiver? hfound) hmem rfl
      · rw [List.mem_singleton.mp hmem, ofNode_call (kind_of_isLink hlink)]
    · rw [chainSites_of_not_link hlink] at hc
      exact absurd hc List.not_mem_nil

/-! ## Looking outwards

From an expression the program looks outwards for a call that goes on with the chain: a member of
the expression, called in turn.  Wrappers may stand between any two of these. -/

/-- The wrappers that a chain goes through. -/
def chainWrappers : List String :=
  ["parenthesized_expression", "as_expression", "satisfies_expression", "non_null_expression",
    "await_expression"]

/-- What is around a place beyond the wrappers, innermost first. -/
def beyond (above : List Node) : List Node :=
  above.dropWhile fun n => chainWrappers.contains n.kind

/-- Is the place that of a callee? -/
def inCallee (above : List Node) : Bool :=
  match beyond above with
  | n :: _ => n.kind == "call_expression"
  | [] => false

/-- Is the place that of the object of a callee? -/
def inReceiver (above : List Node) : Bool :=
  match beyond above with
  | n :: around => n.kind == "member_expression" && inCallee around
  | [] => false

/-- A call in the middle of a chain: a method of its result is called in turn. -/
def isInner (call : Site) : Bool := inReceiver call.above

section

variable {n : Node} {above : List Node}

theorem beyond_wrapper (h : chainWrappers.contains n.kind = true) :
    beyond (n :: above) = beyond above := List.dropWhile_cons_of_pos h

theorem beyond_of_not_wrapper (h : ¬ chainWrappers.contains n.kind = true) :
    beyond (n :: above) = n :: above := List.dropWhile_cons_of_neg h

/-- Inside a wrapper a place is that of a callee if the wrapper's is. -/
theorem inCallee_wrapper (h : chainWrappers.contains n.kind = true) :
    inCallee (n :: above) = inCallee above := by
  rw [inCallee, beyond_wrapper h, inCallee]

theorem inCallee_of_not_wrapper (h : ¬ chainWrappers.contains n.kind = true) :
    inCallee (n :: above) = (n.kind == "call_expression") := by
  rw [inCallee, beyond_of_not_wrapper h]

/-- Inside a wrapper a place is that of a receiver if the wrapper's is. -/
theorem inReceiver_wrapper (h : chainWrappers.contains n.kind = true) :
    inReceiver (n :: above) = inReceiver above := by
  rw [inReceiver, beyond_wrapper h, inReceiver]

theorem inReceiver_of_not_wrapper (h : ¬ chainWrappers.contains n.kind = true) :
    inReceiver (n :: above) = (n.kind == "member_expression" && inCallee above) := by
  rw [inReceiver, beyond_of_not_wrapper h]

/-- What is next beyond the wrappers is a member or a call, not both. -/
theorem not_inCallee_of_inReceiver (h : inReceiver above = true) : inCallee above = false := by
  unfold inReceiver at h
  unfold inCallee
  cases hbeyond : beyond above with
  | nil => rfl
  | cons n around =>
    rw [hbeyond] at h
    have hmember := beq_iff_eq.mp (Bool.and_eq_true_iff.mp h).1
    show (n.kind == "call_expression") = false
    rw [hmember]
    decide

end

/-! ## Regular trees

What is assumed of the trees: a chain goes through one child of a node at most.  This is what a
grammar says of calls, members and wrappers. -/

/-- The kinds of expression that a chain can go through: calls, members and wrappers. -/
def carries (n : Node) : Bool :=
  n.kind == "call_expression" || n.kind == "member_expression" || Node.isWrapperKind n.kind

/-- One child at most is in the role, it is meaningful, and no other child carries a chain. -/
def carriesIn (n : Node) (role : String) : Bool :=
  (n.children.filter (·.role == role)).length ≤ 1 &&
    n.children.all fun c => if c.role == role then c.isMeaningful else !(c.isMeaningful && carries c)

/-- What a grammar says of the children of calls, members and wrappers.  A chain goes on in the callee
    of a call, in the object of a member and in the first child of a wrapper; a type assertion begins
    with the type. -/
def isRegular (n : Node) : Bool :=
  if n.kind == "call_expression" then carriesIn n "function"
  else if n.kind == "member_expression" then carriesIn n "object"
  else if chainWrappers.contains n.kind then (n.namedChildren.drop 1).all fun c => !carries c
  else if n.kind == "type_assertion" then (n.namedChildren.take 1).all fun c => !carries c
  else true

/-- All nodes of the tree are regular. -/
def Grammatical (root : Node) : Prop := ∀ n ∈ root.walk, isRegular n = true

theorem not_wrapper_of_not_carries {n : Node} (h : carries n = false) :
    Node.isWrapperKind n.kind = false := (Bool.or_eq_false_iff.mp h).2

theorem not_isLink_of_not_carries {n : Node} (h : carries n = false) : ¬ isLink n = true := by
  intro hlink
  have hcall := (Bool.or_eq_false_iff.mp (Bool.or_eq_false_iff.mp h).1).1
  exact beq_eq_false_iff_ne.mp hcall (kind_of_isLink hlink)

/-- The wrappers are those that a chain goes through, and type assertions. -/
theorem isWrapperKind_eq (kind : String) :
    Node.isWrapperKind kind = (chainWrappers.contains kind || kind == "type_assertion") := by
  show (chainWrappers ++ ["type_assertion"]).contains kind = _
  rw [List.contains_append, List.contains_cons, List.contains_nil, Bool.or_false]

/-- A list of one element at most is its head, if there is one. -/
theorem eq_head?_toList {α : Type} {l : List α} (h : l.length ≤ 1) : l = l.head?.toList := by
  cases l with
  | nil => rfl
  | cons a l =>
    cases l with
    | nil => rfl
    | cons b l => exact absurd h (by simp)

/-- The children that carry a chain are the one in the role, if it does.  A node has at most one
    child in the role, and a child in any other role carries nothing. -/
theorem carriers_of_carriesIn {s : Site} {role : String} (h : carriesIn s.node role = true) :
    (s.namedChildren.filter fun c => carries c.node) =
      (s.field? role).toList.filter fun c => carries c.node := by
  obtain ⟨hone, hall⟩ := Bool.and_eq_true_iff.mp h
  have hroles : s.namedChildren.filter (fun c => carries c.node) =
      (s.children.filter fun c => c.node.role == role).filter fun c => carries c.node := by
    rw [Site.namedChildren, List.filter_filter, List.filter_filter]
    refine List.filter_congr fun c hc => ?_
    have hnode : c.node ∈ s.node.children := by
      rw [← Site.children_map_node]
      exact List.mem_map_of_mem hc
    have hchild := List.all_eq_true.mp hall c.node hnode
    cases hrole : c.node.role == role with
    | true =>
      rw [hrole, if_pos rfl] at hchild
      rw [hchild]
    | false =>
      rw [hrole, if_neg Bool.false_ne_true] at hchild
      rw [Bool.and_false, Bool.and_comm]
      exact Bool.not_eq_true' _ ▸ hchild
  have hlength : (s.children.filter fun c => c.node.role == role).length ≤ 1 := by
    rw [← List.length_map (·.node), Site.filter_map_node s.children (·.role == role),
      Site.children_map_node]
    exact of_decide_eq_true hone
  rw [hroles, Site.field?, ← List.head?_filter, ← eq_head?_toList hlength]

/-- The children of a wrapper that carry a chain are the first one, if it does. -/
theorem carriers_of_first {s : Site}
    (h : ((s.node.namedChildren.drop 1).all fun c => !carries c) = true) :
    (s.namedChildren.filter fun c => carries c.node) =
      s.firstNamed?.toList.filter fun c => carries c.node := by
  rw [← Site.namedChildren_map_node, ← List.map_drop] at h
  rw [Site.firstNamed?_eq_head?]
  cases hchildren : s.namedChildren with
  | nil => rfl
  | cons c rest =>
    rw [hchildren] at h
    have hrest : rest.filter (fun c => carries c.node) = [] := by
      refine List.filter_eq_nil_iff.mpr fun d hd => ?_
      have hd := List.all_eq_true.mp h d.node (List.mem_map_of_mem hd)
      exact Bool.not_eq_true _ ▸ Bool.not_eq_true' _ ▸ hd
    show (c :: rest).filter _ = [c].filter _
    rw [List.filter_cons, List.filter_cons, hrest, List.filter_nil]

/-! ## Agreement

The links of a tree are counted twice: call by call on the walk, and chain by chain from the ends.
`pending` are those that have been counted below a place and whose chain ends further out. -/

/-- The links below a place that belong to a chain that ends further out. -/
def pending (s : Site) : List Site :=
  match s.unwrap with
  | some n =>
    if inReceiver s.above then chainSites n
    else if inCallee s.above && n.node.kind == "member_expression" then
      ((n.inner? "object").map chainSites).getD []
    else []
  | none => []

/-- Inside wrappers without a chain nothing is pending. -/
theorem pending_of_unwrap {s n : Site} (hunwrap : s.unwrap = some n)
    (h : carries n.node = false) : pending s = [] := by
  have hmember : (n.node.kind == "member_expression") = false :=
    (Bool.or_eq_false_iff.mp (Bool.or_eq_false_iff.mp h).1).2
  rw [pending, hunwrap]
  dsimp only
  rw [chainSites_of_not_link (not_isLink_of_not_carries h), hmember, Bool.and_false]
  split <;> rfl

/-- What carries no chain leaves nothing pending. -/
theorem pending_of_not_carries {s : Site} (h : carries s.node = false) : pending s = [] :=
  pending_of_unwrap (Site.unwrap_of_not_wrapper (not_wrapper_of_not_carries h)) h

/-- Nothing is pending at a place where no chain goes on. -/
theorem pending_of_plain {s : Site} (hreceiver : inReceiver s.above = false)
    (hcallee : inCallee s.above = false) : pending s = [] := by
  rw [pending]
  split
  · rw [if_neg (by rw [hreceiver]; exact Bool.false_ne_true), hcallee, Bool.false_and]
    rfl
  · rfl

/-- What gives nothing may be left out. -/
theorem flatMap_filter_of_nil {α β : Type} {f : α → List β} {p : α → Bool} {l : List α}
    (h : ∀ a ∈ l, p a = false → f a = []) : (l.filter p).flatMap f = l.flatMap f := by
  induction l with
  | nil => rfl
  | cons a l ih =>
    have hrest := ih fun b hb => h b (List.mem_cons_of_mem a hb)
    rw [List.flatMap_cons, List.filter_cons]
    cases ha : p a with
    | true => rw [if_pos rfl, List.flatMap_cons, hrest]
    | false => rw [if_neg Bool.false_ne_true, h a List.mem_cons_self ha, List.nil_append, hrest]

/-- Only children that carry a chain have pending links. -/
theorem flatMap_pending_eq {children : List Site} {s : Option Site}
    (h : (children.filter fun c => carries c.node) = s.toList.filter fun c => carries c.node) :
    children.flatMap pending = (s.map pending).getD [] := by
  rw [← flatMap_filter_of_nil fun c _ => pending_of_not_carries, h,
    flatMap_filter_of_nil fun c _ => pending_of_not_carries]
  cases s with
  | none => rfl
  | some c => exact List.append_nil _

/-- What the callee of a call leaves pending is the chain up to the call.  Behind the callee, when
    it is a member, stands the receiver, and its chain is what comes before the call. -/
theorem flatMap_pending_call {s : Site} (hkind : s.node.kind = "call_expression")
    (hregular : carriesIn s.node "function" = true) :
    s.namedChildren.flatMap pending = earlier s := by
  rw [flatMap_pending_eq (carriers_of_carriesIn hregular), earlier, receiver?, member?, Site.inner?]
  cases hfield : s.field? "function" with
  | none => rfl
  | some c =>
    have hwrapper : ¬ chainWrappers.contains s.node.kind = true := by
      rw [hkind]
      decide
    have habove := Site.above_of_mem_children (Site.mem_children_of_field? hfield)
    show pending c = _
    rw [pending, habove, inReceiver_of_not_wrapper hwrapper, inCallee_of_not_wrapper hwrapper, hkind]
    show _ = (((c.unwrap.filter fun n => n.node.kind == "member_expression").bind
      fun n => n.inner? "object").map chainSites).getD []
    cases c.unwrap with
    | none => rfl
    | some n =>
      by_cases hmember : n.node.kind = "member_expression"
      · simp [Option.filter, hmember]
      · simp [Option.filter, hmember]

/-- What the object of a member leaves pending is what the member does.  A member is no link and no
    wrapper, so both sides ask whether it stands as a callee. -/
theorem flatMap_pending_member {s : Site} (hkind : s.node.kind = "member_expression")
    (hregular : carriesIn s.node "object" = true) :
    s.namedChildren.flatMap pending = pending s := by
  have hwrapper : ¬ chainWrappers.contains s.node.kind = true := by
    rw [hkind]
    decide
  have hlink : ¬ isLink s.node = true := by
    intro hlink
    have hcall := kind_of_isLink hlink
    rw [hkind] at hcall
    exact absurd hcall (by decide)
  have hunwrap : s.unwrap = some s := by
    refine Site.unwrap_of_not_wrapper ?_
    rw [hkind]
    decide
  rw [flatMap_pending_eq (carriers_of_carriesIn hregular)]
  -- the links of the object are pending in both if the member is a callee, else in neither
  have hself : pending s =
      if inCallee s.above then ((s.inner? "object").map chainSites).getD [] else [] := by
    rw [pending, hunwrap]
    dsimp only
    rw [chainSites_of_not_link hlink, hkind]
    cases hreceiver : inReceiver s.above with
    | true => rw [not_inCallee_of_inReceiver hreceiver]; rfl
    | false => cases inCallee s.above <;> rfl
  rw [hself, Site.inner?]
  cases hfield : s.field? "object" with
  | none => cases inCallee s.above <;> rfl
  | some c =>
    have habove := Site.above_of_mem_children (Site.mem_children_of_field? hfield)
    show pending c = _
    rw [pending, habove, inReceiver_of_not_wrapper hwrapper, inCallee_of_not_wrapper hwrapper, hkind]
    show _ = if inCallee s.above then (c.unwrap.map chainSites).getD [] else []
    cases c.unwrap with
    | none => cases inCallee s.above <;> rfl
    | some n => cases inCallee s.above <;> rfl

/-- What the expression inside a wrapper leaves pending is what the wrapper does. -/
theorem flatMap_pending_wrapper {s : Site} (hwrapper : chainWrappers.contains s.node.kind = true)
    (hregular : ((s.node.namedChildren.drop 1).all fun c => !carries c) = true) :
    s.namedChildren.flatMap pending = pending s := by
  have hkind : Node.isWrapperKind s.node.kind = true := by
    rw [isWrapperKind_eq, hwrapper]
    rfl
  rw [flatMap_pending_eq (carriers_of_first hregular), pending, Site.unwrap_eq, if_pos hkind]
  cases hfirst : s.firstNamed? with
  | none => rfl
  | some c =>
    have habove := Site.above_of_mem_children (Site.mem_children_of_firstNamed? hfirst)
    show pending c = _
    rw [pending, habove, inReceiver_wrapper hwrapper, inCallee_wrapper hwrapper]
    rfl

/-- Behind any other node no chain goes on. -/
theorem flatMap_pending_plain {s : Site} (hcall : ¬ s.node.kind = "call_expression")
    (hmember : ¬ s.node.kind = "member_expression")
    (hwrapper : ¬ chainWrappers.contains s.node.kind = true) :
    s.namedChildren.flatMap pending = [] := by
  refine List.flatMap_eq_nil_iff.mpr fun c hc => ?_
  have habove := Site.above_of_mem_children (Site.mem_children_of_mem_namedChildren hc)
  refine pending_of_plain ?_ ?_
  · rw [habove, inReceiver_of_not_wrapper hwrapper, beq_eq_false_iff_ne.mpr hmember]
    rfl
  · rw [habove, inCallee_of_not_wrapper hwrapper, beq_eq_false_iff_ne.mpr hcall]

/-- A type assertion begins with the type, so nothing goes through it.  Unwrapping it ends at that
    first child, which is not seen through itself and carries no chain. -/
theorem pending_assertion {s : Site} (hkind : s.node.kind = "type_assertion")
    (hregular : ((s.node.namedChildren.take 1).all fun c => !carries c) = true) : pending s = [] := by
  have hwrapper : Node.isWrapperKind s.node.kind = true := by
    rw [hkind]
    decide
  have hunwrap : s.unwrap = s.namedChildren.head?.bind Site.unwrap := by
    rw [Site.unwrap_eq, if_pos hwrapper, Site.firstNamed?_eq_head?]
  rw [← Site.namedChildren_map_node, ← List.map_take] at hregular
  cases hchildren : s.namedChildren with
  | nil =>
    rw [hchildren] at hunwrap
    rw [pending, hunwrap]
    rfl
  | cons c rest =>
    rw [hchildren] at hunwrap hregular
    have hfirst : carries c.node = false := by
      have hc := List.all_eq_true.mp hregular c.node (by simp)
      exact Bool.not_eq_true' _ ▸ hc
    refine pending_of_unwrap (hunwrap.trans ?_) hfirst
    exact Site.unwrap_of_not_wrapper (not_wrapper_of_not_carries hfirst)

/-- **What the children leave pending** is what the node does; a call leaves itself out.

    The cases are the kinds that a regular node tells apart, each with its own lemma above; a node
    of any other kind carries no chain, and neither side has a link. -/
theorem flatMap_pending {s : Site} (hregular : isRegular s.node = true) :
    s.namedChildren.flatMap pending =
      if s.node.kind = "call_expression" then earlier s else pending s := by
  unfold isRegular at hregular
  by_cases hcall : s.node.kind = "call_expression"
  · rw [if_pos (beq_iff_eq.mpr hcall)] at hregular
    rw [if_pos hcall, flatMap_pending_call hcall hregular]
  rw [if_neg (mt beq_iff_eq.mp hcall)] at hregular
  rw [if_neg hcall]
  by_cases hmember : s.node.kind = "member_expression"
  · rw [if_pos (beq_iff_eq.mpr hmember)] at hregular
    exact flatMap_pending_member hmember hregular
  rw [if_neg (mt beq_iff_eq.mp hmember)] at hregular
  by_cases hwrapper : chainWrappers.contains s.node.kind = true
  · rw [if_pos hwrapper] at hregular
    exact flatMap_pending_wrapper hwrapper hregular
  rw [if_neg hwrapper] at hregular
  rw [flatMap_pending_plain hcall hmember hwrapper]
  by_cases hassertion : s.node.kind = "type_assertion"
  · rw [if_pos (beq_iff_eq.mpr hassertion)] at hregular
    exact (pending_assertion hassertion hregular).symm
  · refine (pending_of_not_carries ?_).symm
    rw [carries, isWrapperKind_eq, beq_eq_false_iff_ne.mpr hcall, beq_eq_false_iff_ne.mpr hmember,
      beq_eq_false_iff_ne.mpr hassertion, eq_false_of_ne_true hwrapper]
    rfl

/-- A call is the end of its chain, or pending with what is before it.  Either the call is inner,
    and its chain stays pending with it, or it is the end of the chain, which is then complete. -/
theorem perm_own {s : Site} (hregular : isRegular s.node = true) :
    ((if isLink s.node then [s] else []) ++ s.namedChildren.flatMap pending).Perm
      (pending s ++ if isLink s.node && !isInner s then chainSites s else []) := by
  rw [flatMap_pending hregular]
  -- only a call is a link, and what it leaves pending is its chain or nothing
  by_cases hkind : s.node.kind = "call_expression"
  · have hpending : pending s = if isInner s then chainSites s else [] := by
      have hunwrap : s.unwrap = some s := by
        refine Site.unwrap_of_not_wrapper ?_
        rw [hkind]
        decide
      have hmember : (s.node.kind == "member_expression") = false := by
        rw [hkind]
        decide
      rw [pending, hunwrap, isInner]
      dsimp only
      rw [hmember, Bool.and_false]
      rfl
    rw [if_pos hkind, hpending]
    by_cases hlink : isLink s.node = true
    · have hchain : ([s] ++ earlier s).Perm (chainSites s) := by
        rw [chainSites_of_link hlink]
        exact List.perm_append_comm
      rw [if_pos hlink, hlink, Bool.true_and]
      cases isInner s with
      | true => exact (List.append_nil (chainSites s)).symm ▸ hchain
      | false => exact hchain
    · have hmember : member? s = none := by
        rw [isLink_eq, hkind] at hlink
        simpa using hlink
      rw [earlier, receiver?, hmember, chainSites_of_not_link hlink, if_neg hlink]
      simp
  · have hlink : ¬ isLink s.node = true := fun hlink => hkind (kind_of_isLink hlink)
    rw [if_neg hkind, if_neg hlink, eq_false_of_ne_true hlink]
    exact (List.append_nil (pending s)).symm ▸ List.Perm.refl (pending s)

/-- The sites of a walk, node by node. -/
theorem filter_walk (s : Site) (p : Site → Bool) :
    s.walk.filter p =
      (if p s then [s] else []) ++ s.namedChildren.flatMap fun c => c.walk.filter p := by
  rw [Site.walk_eq, List.filter_cons, List.filter_flatMap]
  split <;> rfl

/-- The links below a place are those pending, and those of the chains that end there.  The
    induction goes from a place to its children: what they leave pending is settled by `perm_own` at
    the place itself. -/
theorem perm_walk (s : Site) (hregular : ∀ t ∈ s.walk, isRegular t.node = true) :
    (s.walk.filter fun t => isLink t.node).Perm
      (pending s ++ (s.walk.filter fun t => isLink t.node && !isInner t).flatMap chainSites) := by
  induction s using Site.childInduction with
  | step s ih =>
    have hself := perm_own (hregular s s.self_mem_walk)
    have hchildren : (s.namedChildren.flatMap fun c => c.walk.filter fun t => isLink t.node).Perm
        (s.namedChildren.flatMap pending ++ s.namedChildren.flatMap fun c =>
          (c.walk.filter fun t => isLink t.node && !isInner t).flatMap chainSites) := by
      refine (List.Perm.flatMap_left _ fun c hc => ?_).trans (List.flatMap_append_perm ..).symm
      exact ih c hc fun t ht => hregular t (Site.walk_subset_of_mem_namedChildren hc t ht)
    have hown : (if isLink s.node && !isInner s then [s] else []).flatMap chainSites =
        if isLink s.node && !isInner s then chainSites s else [] := by
      split
      · exact List.append_nil _
      · rfl
    rw [filter_walk, filter_walk, List.flatMap_append, List.flatMap_assoc, hown]
    refine (hchildren.append_left _).trans ?_
    rw [← List.append_assoc, ← List.append_assoc]
    exact hself.append_right _

/-- **The links of a tree are those of its outermost chains**, each of them once. -/
theorem perm_chains {root : Node} (hgrammar : Grammatical root) :
    (((Site.root root).walk.filter fun t => isLink t.node && !isInner t).flatMap chainSites).Perm
      ((Site.root root).walk.filter fun t => isLink t.node) := by
  have hregular : ∀ t ∈ (Site.root root).walk, isRegular t.node = true :=
    fun t ht => hgrammar t.node (List.mem_map_of_mem ht)
  have hplain : pending (Site.root root) = [] := pending_of_plain rfl rfl
  have hwalk := perm_walk (Site.root root) hregular
  rw [hplain] at hwalk
  exact hwalk.symm

/-! ## Ends

The program takes a call for the end of its chain if no call goes on with it right outside.  Fewer
wrappers are looked through outwards than inwards, which is where the two differ. -/

/-- The wrappers around a place. -/
def wrappersAround (above : List Node) : List Node :=
  above.takeWhile fun n => chainWrappers.contains n.kind

/-- What is looked through outwards is looked through inwards, too. -/
theorem mem_chainWrappers_of_mem_endWrappers {kind : String} (h : kind ∈ endWrappers) :
    kind ∈ chainWrappers := by
  rcases List.mem_cons.mp h with rfl | h
  · decide
  · obtain rfl := List.mem_singleton.mp h
    decide

section

variable {n : Node} {above : List Node}

/-- Inside such a wrapper a chain ends if it does outside. -/
theorem endsIn_wrapper (h : endWrappers.contains n.kind = true) :
    endsIn (n :: above) = endsIn above := by
  have hdrop : (n :: above).dropWhile (fun n => endWrappers.contains n.kind) =
      above.dropWhile fun n => endWrappers.contains n.kind := List.dropWhile_cons_of_pos h
  rw [endsIn, hdrop, endsIn]

theorem endsIn_of_not_wrapper (h : ¬ endWrappers.contains n.kind = true) :
    endsIn (n :: above) = !(n.kind == "member_expression" &&
      (above.head?.map (·.kind == "call_expression")).getD false) := by
  have hdrop : (n :: above).dropWhile (fun n => endWrappers.contains n.kind) = n :: above :=
    List.dropWhile_cons_of_neg h
  rw [endsIn, hdrop]
  cases above with
  | nil => cases n.kind == "member_expression" <;> rfl
  | cons around above => rfl

/-- With no wrapper around it, a place is that of a callee if the next node is a call. -/
theorem inCallee_and_bare_iff :
    inCallee above = true ∧ wrappersAround above = [] ↔
      (above.head?.map (·.kind == "call_expression")).getD false = true := by
  cases above with
  | nil => simp [inCallee, beyond]
  | cons around above =>
    by_cases hwrapper : chainWrappers.contains around.kind = true
    · have haround : wrappersAround (around :: above) = around :: wrappersAround above :=
        List.takeWhile_cons_of_pos hwrapper
      have hcall : (around.kind == "call_expression") = false := by
        refine beq_eq_false_iff_ne.mpr fun hcall => ?_
        rw [hcall] at hwrapper
        exact absurd hwrapper (by decide)
      rw [haround]
      simp [hcall]
    · have haround : wrappersAround (around :: above) = [] := List.takeWhile_cons_of_neg hwrapper
      rw [inCallee_of_not_wrapper hwrapper, haround]
      simp

end

/-- **What is not read on its own** is an inner call with nothing but parentheses and non-null marks
    around it, in a member with nothing around it. -/
theorem endsIn_eq_false_iff (above : List Node) :
    endsIn above = false ↔ inReceiver above = true ∧
      (∀ w ∈ wrappersAround above, w.kind ∈ endWrappers) ∧
      wrappersAround (beyond above).tail = [] := by
  induction above with
  | nil => simp [endsIn, inReceiver, beyond]
  | cons n above ih =>
    by_cases hwrapper : chainWrappers.contains n.kind = true
    · have haround : wrappersAround (n :: above) = n :: wrappersAround above :=
        List.takeWhile_cons_of_pos hwrapper
      rw [inReceiver_wrapper hwrapper, haround, beyond_wrapper hwrapper, List.forall_mem_cons]
      by_cases hend : endWrappers.contains n.kind = true
      · have hmem : n.kind ∈ endWrappers := List.contains_iff_mem.mp hend
        rw [endsIn_wrapper hend, ih]
        simp only [hmem, true_and]
      · -- looked through by the chain, but not on the way outwards
        have hnot : n.kind ∉ endWrappers := fun hmem => hend (List.contains_iff_mem.mpr hmem)
        have hmember : (n.kind == "member_expression") = false := by
          refine beq_eq_false_iff_ne.mpr fun hmember => ?_
          rw [hmember] at hwrapper
          exact absurd hwrapper (by decide)
        rw [endsIn_of_not_wrapper hend, hmember]
        simp [hnot]
    · have hend : ¬ endWrappers.contains n.kind = true := fun hend =>
        hwrapper (List.contains_iff_mem.mpr
          (mem_chainWrappers_of_mem_endWrappers (List.contains_iff_mem.mp hend)))
      have haround : wrappersAround (n :: above) = [] := List.takeWhile_cons_of_neg hwrapper
      rw [endsIn_of_not_wrapper hend, inReceiver_of_not_wrapper hwrapper, haround,
        beyond_of_not_wrapper hwrapper, Bool.not_eq_false', Bool.and_eq_true, Bool.and_eq_true,
        ← inCallee_and_bare_iff, and_assoc]
      simp

/-- A call that is not read on its own is an inner one. -/
theorem isInner_of_not_isChainEnd {call : Site} (h : isChainEnd call = false) :
    isInner call = true :=
  ((endsIn_eq_false_iff call.above).mp h).1

/-- An inner call with a wrapper between it and the next link that is not looked through on the way
    outwards: another one than parentheses or a non-null mark around the call, or any around the
    member that is called. -/
def IsStray (call : Site) : Prop :=
  isInner call = true ∧ ((∃ w ∈ wrappersAround call.above, w.kind ∉ endWrappers) ∨
    wrappersAround (beyond call.above).tail ≠ [])

/-- **The inner calls that are read on their own** are the stray ones. -/
theorem isStray_iff {call : Site} :
    IsStray call ↔ isInner call = true ∧ isChainEnd call = true := by
  rw [isChainEnd, ← Bool.not_eq_false (endsIn call.above), endsIn_eq_false_iff, IsStray]
  refine and_congr_right fun hinner => ?_
  have hreceiver : inReceiver call.above = true := hinner
  simp only [hreceiver, true_and, not_and_or, not_forall, exists_prop]

end RouteAtlas.Convention.Fluent
