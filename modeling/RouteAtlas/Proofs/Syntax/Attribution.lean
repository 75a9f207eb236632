/-
  Which sibling a decorator belongs to.

  ==== Problem ====

  A class member collects its decorators backwards: it goes through the siblings before it, nearest
  first, skips comments, and stops at anything else.  For a decorator the rule should read forwards:
  it belongs to the first sibling behind it that is neither a decorator nor a comment, and to none if
  there is none.  Only read forwards it is plain that no decorator belongs to two members.

  ==== Program ====

  1. **Forwards** - the owner of a decorator (`owner?`, `FirstBehind`) and the decorators a sibling
     owns, with their positions (`ownedBy`).

  2. **Backwards** - what the loop finds changes with one more sibling in one of three ways
     (`siblingDecorators_cons`).

  3. **Together** - the two agree at every member (`siblingDecorators_eq_ownedBy`), and the findings
     of all members, one after the other, are all the decorators but those behind the last member
     (`flatMap_siblingDecorators`).

  ==== The crux ====

  Both directions are read along the siblings before a member from the left, as decorators that wait
  for an owner (`waiting`): a decorator joins them, a comment leaves them waiting, and anything else
  takes them all.
-/
import Mathlib.Data.List.Induction
import Mathlib.Data.List.TakeWhile
import Mathlib.Order.Basic
import RouteAtlas.Syntax.Decorator
import RouteAtlas.Proofs.Syntax.Walk

namespace RouteAtlas.Syntax

namespace Site

/-! ## Forwards

The meaning of a decorator: it belongs to the first sibling behind it that is neither a decorator
nor a comment. -/

/-- The position of the first sibling behind `i` that is neither a decorator nor a comment. -/
def owner? (cs : List Node) (i : Nat) : Option Nat :=
  ((cs.drop (i + 1)).findIdx? fun c => !c.isDecoration).map (· + (i + 1))

/-- The decorators that the sibling at `j` owns, in source order and with their positions. -/
def ownedBy (cs : List Node) (j : Nat) : List (Node × Nat) :=
  cs.zipIdx.filter fun d => d.1.kind == "decorator" && owner? cs d.2 == some j

/-- At `j` stands the first sibling behind `i` that is neither a decorator nor a comment. -/
structure FirstBehind (cs : List Node) (i j : Nat) : Prop where
  behind : i < j
  member : ∃ m, cs[j]? = some m ∧ m.isDecoration = false
  between : ∀ k c, i < k → k < j → cs[k]? = some c → c.isDecoration = true

/-- The owner is the first sibling behind that is no decoration.  The search is among the siblings
    behind, so that positions are shifted by the one of the decoration. -/
theorem owner?_eq_some_iff {cs : List Node} {i j : Nat} :
    owner? cs i = some j ↔ FirstBehind cs i j := by
  unfold owner?
  rw [Option.map_eq_some_iff]
  constructor
  · rintro ⟨n, hn, rfl⟩
    obtain ⟨hlen, hmember, hbetween⟩ := List.findIdx?_eq_some_iff_getElem.mp hn
    refine ⟨by omega, ⟨(cs.drop (i + 1))[n], ?_, by simpa using hmember⟩, fun k c hik hk hc => ?_⟩
    · rw [Nat.add_comm n, ← List.getElem?_drop]
      exact List.getElem?_eq_getElem hlen
    · have hpos : i + 1 + (k - (i + 1)) = k := by omega
      have hdecoration := hbetween (k - (i + 1)) (by omega)
      simp only [List.getElem_drop, hpos] at hdecoration
      obtain ⟨_, rfl⟩ := List.getElem?_eq_some_iff.mp hc
      simpa using hdecoration
  · rintro ⟨hij, ⟨m, hm, hmember⟩, hbetween⟩
    obtain ⟨hj, rfl⟩ := List.getElem?_eq_some_iff.mp hm
    have hpos : i + 1 + (j - (i + 1)) = j := by omega
    refine ⟨j - (i + 1), List.findIdx?_eq_some_iff_getElem.mpr ⟨?_, ?_, fun k hk => ?_⟩, by omega⟩
    · rw [List.length_drop]
      omega
    · simpa [List.getElem_drop, hpos] using hmember
    · have hlen : i + 1 + k < cs.length := by omega
      have hdecoration := hbetween (i + 1 + k) _ (by omega) (by omega) (List.getElem?_eq_getElem hlen)
      simpa [List.getElem_drop] using hdecoration

/-- A decorator is owned by the first sibling behind it that is no decoration, and by no other. -/
theorem mem_ownedBy_iff {cs : List Node} {i j : Nat} {d : Node} (hd : cs[i]? = some d)
    (hkind : d.kind = "decorator") : (d, i) ∈ ownedBy cs j ↔ FirstBehind cs i j := by
  unfold ownedBy
  rw [List.mem_filter, List.mk_mem_zipIdx_iff_getElem?, ← owner?_eq_some_iff]
  simp [hd, hkind]

/-- A decorator has one owner. -/
theorem ownedBy_disjoint {cs : List Node} {i j k : Nat} {d e : Node} (hj : (d, i) ∈ ownedBy cs j)
    (hk : (e, i) ∈ ownedBy cs k) : j = k := by
  have hj := (List.mem_filter.mp hj).2
  have hk := (List.mem_filter.mp hk).2
  simp only [Bool.and_eq_true, beq_iff_eq] at hj hk
  exact Option.some.inj (hj.2.symm.trans hk.2)

/-- The decorators of a sibling come in the order of the source. -/
theorem ownedBy_in_order (cs : List Node) (j : Nat) :
    ((ownedBy cs j).map (·.2)).Pairwise (· < ·) := by
  have hsub : ((ownedBy cs j).map (·.2)).Sublist (cs.zipIdx.map (·.2)) :=
    List.filter_sublist.map _
  refine List.Pairwise.sublist hsub ?_
  rw [List.zipIdx_map_snd, List.range'_eq_map_range]
  simpa using List.pairwise_lt_range

/-! ## Waiting for an owner

The two directions meet here: going through the siblings from the left, decorators wait until the
next sibling that is no decoration takes all of them. -/

/-- The decorators behind which stands nothing but decorations, with their positions. -/
def waiting (p : List Node) : List (Node × Nat) :=
  p.zipIdx.filter fun d => d.1.kind == "decorator" && (p.drop (d.2 + 1)).all Node.isDecoration

/-- What is no decoration is no decorator. -/
theorem kind_ne_decorator {c : Node} (h : c.isDecoration = false) : c.kind ≠ "decorator" := by
  intro hkind
  simp [Node.isDecoration, hkind] at h

/-- With one more sibling a decorator waits more, the same ones wait, or none. -/
theorem waiting_concat (p : List Node) (c : Node) :
    waiting (p ++ [c]) =
      if c.isDecoration then waiting p ++ [(c, p.length)].filter (·.1.kind == "decorator") else [] := by
  -- those before go on waiting if a decoration follows
  have hbefore : ∀ d ∈ p.zipIdx,
      (d.1.kind == "decorator" && ((p ++ [c]).drop (d.2 + 1)).all Node.isDecoration) =
        (c.isDecoration && (d.1.kind == "decorator" && (p.drop (d.2 + 1)).all Node.isDecoration)) := by
    intro d hd
    have hlen : d.2 + 1 ≤ p.length := List.snd_lt_of_mem_zipIdx hd
    rw [List.drop_append_of_le_length hlen, List.all_append]
    simp only [List.all_cons, List.all_nil, Bool.and_true]
    ac_rfl
  unfold waiting
  rw [List.zipIdx_append, List.filter_append, List.filter_congr hbefore]
  cases hc : c.isDecoration with
  | true => simp [List.filter_cons]
  | false => simp [kind_ne_decorator hc]

/-- The sibling right behind a prefix owns what has nothing but decorations after it there. -/
theorem firstBehind_append_iff {p rest : List Node} {m : Node} (hm : m.isDecoration = false)
    {i : Nat} :
    FirstBehind (p ++ m :: rest) i p.length ↔
      i < p.length ∧ ∀ c ∈ p.drop (i + 1), c.isDecoration = true := by
  constructor
  · rintro ⟨hlen, -, hbetween⟩
    refine ⟨hlen, fun c hc => ?_⟩
    obtain ⟨k, hk⟩ := List.mem_iff_getElem?.mp hc
    rw [List.getElem?_drop] at hk
    have hless := (List.getElem?_eq_some_iff.mp hk).1
    exact hbetween _ c (by omega) hless (by rw [List.getElem?_append_left hless, hk])
  · rintro ⟨hlen, hall⟩
    refine ⟨hlen, ⟨m, by simp, hm⟩, fun k c hik hk hc => hall c ?_⟩
    rw [List.getElem?_append_left hk] at hc
    refine List.mem_iff_getElem?.mpr ⟨k - (i + 1), ?_⟩
    rw [List.getElem?_drop, show i + 1 + (k - (i + 1)) = k by omega, hc]

/-- What a sibling that is no decoration owns has waited for it. -/
theorem ownedBy_eq_waiting (p rest : List Node) {m : Node} (hm : m.isDecoration = false) :
    ownedBy (p ++ m :: rest) p.length = waiting p := by
  have howner : ∀ i, owner? (p ++ m :: rest) i = some p.length ↔
      i < p.length ∧ ∀ c ∈ p.drop (i + 1), c.isDecoration = true := fun i =>
    owner?_eq_some_iff.trans (firstBehind_append_iff hm)
  have hrest : ((m :: rest).zipIdx p.length).filter (fun d =>
      d.1.kind == "decorator" && owner? (p ++ m :: rest) d.2 == some p.length) = [] := by
    rw [List.filter_eq_nil_iff]
    intro d hd howned
    have hlen := List.le_snd_of_mem_zipIdx hd
    simp only [Bool.and_eq_true, beq_iff_eq, howner] at howned
    omega
  unfold ownedBy waiting
  rw [List.zipIdx_append, List.filter_append, Nat.zero_add, hrest, List.append_nil]
  refine List.filter_congr fun d hd => ?_
  have hlen : d.2 < p.length := List.snd_lt_of_mem_zipIdx hd
  rw [Bool.eq_iff_iff]
  simp [howner, hlen]

/-! ## Backwards

The program goes back from a member over the siblings before it, collecting decorators until
something else comes. -/

/-- With one more sibling the loop finds one decorator more, the same, or nothing. -/
theorem siblingDecorators_cons (c : Node) (before : List Node) :
    siblingDecorators (c :: before) =
      if c.isDecoration then siblingDecorators before ++ [c].filter (·.kind == "decorator") else [] := by
  unfold siblingDecorators
  cases hc : c.isDecoration with
  | true =>
    rw [List.takeWhile_cons_of_pos hc, ← List.singleton_append, List.filter_append,
      List.reverse_append]
    cases hkind : c.kind == "decorator" <;> simp [hkind]
  | false => simp [hc]

/-- The loop finds the decorators that wait. -/
theorem waiting_map_fst (p : List Node) : (waiting p).map (·.1) = siblingDecorators p.reverse := by
  induction p using List.reverseRecOn with
  | nil => rfl
  | append_singleton p c ih =>
    rw [List.reverse_concat, siblingDecorators_cons, waiting_concat, ← ih]
    cases c.isDecoration with
    | true => simp [List.filter_cons, apply_ite]
    | false => rfl

/-- **Backwards as forwards**: before a sibling that is no decoration the loop finds what it owns. -/
theorem siblingDecorators_eq_ownedBy (p rest : List Node) {m : Node} (hm : m.isDecoration = false) :
    siblingDecorators p.reverse = (ownedBy (p ++ m :: rest) p.length).map (·.1) := by
  rw [ownedBy_eq_waiting p rest hm, waiting_map_fst]

/-! ## Together

Decorators may also stand inside an export or a member; those come behind the ones before it. -/

/-- What all members find, and what is left at the end, are all decorators among the siblings. -/
theorem flatMap_siblingDecorators_placeFrom (above before cs : List Node) :
    ((placeFrom above before cs).filter (!·.node.isDecoration)).flatMap (siblingDecorators ·.before)
        ++ siblingDecorators (cs.reverse ++ before) =
      siblingDecorators before ++ cs.filter (·.kind == "decorator") := by
  induction cs generalizing before with
  | nil => simp [placeFrom]
  | cons c cs ih =>
    have hrest := ih (c :: before)
    rw [siblingDecorators_cons] at hrest
    have hsplit : (c :: cs).filter (·.kind == "decorator") =
        [c].filter (·.kind == "decorator") ++ cs.filter (·.kind == "decorator") :=
      List.filter_append [c] cs
    rw [placeFrom, List.reverse_cons, List.append_assoc, List.singleton_append, hsplit]
    cases hc : c.isDecoration with
    | true => simpa [hc] using hrest
    -- a member: what has waited before it is its part, and nothing waits behind it
    | false => simpa [hc, kind_ne_decorator hc] using hrest

/-- **Nothing is lost**: the findings of all members, one after the other, then the decorators behind
    the last member, are all decorators among the children. -/
theorem flatMap_siblingDecorators (s : Site) :
    (s.children.filter (!·.node.isDecoration)).flatMap (siblingDecorators ·.before)
        ++ siblingDecorators s.node.children.reverse =
      s.node.children.filter (·.kind == "decorator") := by
  have h := flatMap_siblingDecorators_placeFrom (s.node :: s.above) [] s.node.children
  rwa [List.append_nil] at h

/-- A child in its place has the children before it behind its back. -/
theorem getElem?_placeFrom (above before cs : List Node) (j : Nat) :
    (placeFrom above before cs)[j]? =
      cs[j]?.map fun c => ⟨c, (cs.take j).reverse ++ before, above⟩ := by
  induction cs generalizing before j with
  | nil => simp [placeFrom]
  | cons c cs ih =>
    cases j with
    | zero => simp [placeFrom]
    | succ j => simp [placeFrom, ih]

/-- A child stands behind the children of smaller position, and in its parent. -/
theorem getElem?_children {s member : Site} {j : Nat} (h : s.children[j]? = some member) :
    s.node.children[j]? = some member.node ∧ member.before = (s.node.children.take j).reverse ∧
      member.above = s.node :: s.above := by
  unfold children at h
  rw [getElem?_placeFrom] at h
  obtain ⟨c, hc, rfl⟩ := Option.map_eq_some_iff.mp h
  exact ⟨hc, List.append_nil _, rfl⟩

/-- The decorators of a site that is not the declaration of an export. -/
theorem decorators_eq {s : Site} (hs : ∀ p, s.parent? = some p → p.kind ≠ "export_statement") :
    s.decorators = siblingDecorators s.before ++ s.node.childrenOfKind ["decorator"] := by
  unfold decorators
  cases hp : s.parent? with
  | none => rfl
  | some p => simp [hs p hp]

/-- Where all siblings are decorators, all are found. -/
theorem siblingDecorators_of_decorators {ds : List Node} (h : ∀ d ∈ ds, d.kind = "decorator") :
    siblingDecorators ds.reverse = ds := by
  have hdecoration : ∀ d ∈ ds.reverse, d.isDecoration = true := fun d hd => by
    simp [Node.isDecoration, h d (List.mem_reverse.mp hd)]
  have hkind : ∀ d ∈ ds.reverse, (d.kind == "decorator") = true := fun d hd => by
    simp [h d (List.mem_reverse.mp hd)]
  rw [siblingDecorators, List.takeWhile_eq_self_iff.mpr hdecoration, List.filter_eq_self.mpr hkind,
    List.reverse_reverse]

/-- The decorators of the child at `j`: those it owns among its siblings, then those among its own
    children. -/
def attributed (s : Site) (j : Nat) (member : Node) : List Node :=
  (ownedBy s.node.children j).map (·.1) ++ member.childrenOfKind ["decorator"]

/-- The child at `j` without any siblings but the decorators it owns. -/
def alone (s : Site) (j : Nat) (member : Node) : Site :=
  ⟨member, ((ownedBy s.node.children j).map (·.1)).reverse, s.node :: s.above⟩

variable {s member : Site} {j : Nat}

/-- **A child that is no decoration has the decorators it owns**, then those among its children. -/
theorem decorators_eq_attributed (hs : s.node.kind ≠ "export_statement")
    (h : s.children[j]? = some member) (hm : member.node.isDecoration = false) :
    member.decorators = s.attributed j member.node := by
  obtain ⟨hnode, hbefore, habove⟩ := getElem?_children h
  obtain ⟨hlen, hget⟩ := List.getElem?_eq_some_iff.mp hnode
  have hsplit : s.node.children.take j ++ member.node :: s.node.children.drop (j + 1) =
      s.node.children := by
    rw [← hget, ← List.drop_eq_getElem_cons hlen, List.take_append_drop]
  have howned := siblingDecorators_eq_ownedBy (s.node.children.take j) (s.node.children.drop (j + 1)) hm
  rw [hsplit, List.length_take_of_le hlen.le, ← hbefore] at howned
  have hparent : ∀ p, member.parent? = some p → p.kind ≠ "export_statement" := by
    rintro p hp
    rw [parent?, habove] at hp
    exact Option.some.inj hp ▸ hs
  rw [decorators_eq hparent, howned, attributed]

/-- A child by itself has the decorators that are attributed to it. -/
theorem decorators_alone (hs : s.node.kind ≠ "export_statement") (j : Nat) (member : Node) :
    (s.alone j member).decorators = s.attributed j member := by
  have hkind : ∀ d ∈ (ownedBy s.node.children j).map (·.1), d.kind = "decorator" := by
    intro d hd
    obtain ⟨e, he, rfl⟩ := List.mem_map.mp hd
    have howned := (List.mem_filter.mp he).2
    simp only [Bool.and_eq_true, beq_iff_eq] at howned
    exact howned.1
  have hparent : ∀ p, (s.alone j member).parent? = some p → p.kind ≠ "export_statement" :=
    fun p hp => Option.some.inj hp ▸ hs
  rw [decorators_eq hparent, alone, siblingDecorators_of_decorators hkind, attributed]

end Site

end RouteAtlas.Syntax
