/-
  The prefixes of mounted routers.

  ==== Problem ====

  A router may be mounted in many routers, and in one of them many times; its routes are reached
  under the prefix of every way that leads to it from a router that is mounted nowhere.  No way must
  get lost, although the search leaves out what it has entered under the same path before.

  ==== Spec ====

  `Composed` says which prefixes there are, mount by mount and without a search.  Where mounts do not
  go round in a circle (`Acyclic`), these are exactly the ones that are found, each of them once
  (`prefixes_iff_composed`).  Mounts of or in routers that are not known have no effect.

  ==== The crux ====

  In a circle it matters which way a visit came, since a router is not entered twice on one way.
  Without circles it does not: what is mounted in a router is never on the way to it
  (`Way.child_fresh`).  So a visit that is left out would have entered what the visit made instead of
  it has entered, and every composed prefix is found (`way_seen`).

  That there is a root above every router is where the routers being finitely many comes in
  (`exists_way`): going up from a mounted router never comes back to a router, so it ends.
-/
import Mathlib.Data.Fintype.EquivFin
import Mathlib.Data.Fintype.Sets
import RouteAtlas.Proofs.Route.Search

namespace RouteAtlas.Route.MountGraph

variable {α : Type}

/-! ## Which prefixes there are

Nothing of the search is in this: the prefixes are composed mount by mount, over any number of
mounts.  Without circles there are finitely many, and otherwise there may be infinitely many. -/

/-- One known router is mounted in another one. -/
def Mounts (g : MountGraph α) (parent child : α) : Prop :=
  parent ∈ Dict.keys g.routers ∧ child ∈ Dict.keys g.routers ∧
    ∃ m ∈ g.mounts, m.parent = parent ∧ m.child = child

/-- No router is, over some mounts, mounted in itself. -/
def Acyclic (g : MountGraph α) : Prop := ∀ r, ¬Relation.TransGen g.Mounts r r

/-- The prefixes of a router: its base path if it is mounted nowhere; and behind each prefix of a
    router that it is mounted in, the path of the mount and its base path. -/
inductive Composed (g : MountGraph α) : α → String → Prop
  | root {r base} (known : (r, base) ∈ g.routers) (free : ∀ parent, ¬g.Mounts parent r) :
      Composed g r (join "" base)
  | mount {m base path} (link : m ∈ g.mounts) (above : Composed g m.parent path)
      (known : (m.child, base) ∈ g.routers) : Composed g m.child (join (join path m.path) base)

/-- Ranks that rise with every mount exclude circles. -/
theorem acyclic_of_rank {g : MountGraph α} (rank : α → Nat)
    (h : ∀ m ∈ g.mounts, rank m.parent < rank m.child) : g.Acyclic := by
  have hrises : ∀ {r s : α}, Relation.TransGen g.Mounts r s → rank r < rank s := by
    intro r s hrs
    induction hrs with
    | single hmounts =>
      obtain ⟨-, -, m, hm, rfl, rfl⟩ := hmounts
      exact h m hm
    | tail _ hmounts ih =>
      obtain ⟨-, -, m, hm, rfl, rfl⟩ := hmounts
      exact ih.trans (h m hm)
  exact fun r hr => Nat.lt_irrefl _ (hrises hr)

variable [DecidableEq α]

/-- What the search goes along is a mount between known routers. -/
theorem mounts_of_mem_linksOf {g : MountGraph α} {r : α} {m : Mount α} (h : m ∈ g.linksOf r) :
    g.Mounts r m.child := by
  obtain ⟨hlink, rfl⟩ := mem_linksOf.mp h
  obtain ⟨hmount, hparent, hchild⟩ := mem_links.mp hlink
  exact ⟨hparent, hchild, m, hmount, rfl, rfl⟩

/-- Every mount between known routers is gone along. -/
theorem exists_link {g : MountGraph α} {parent child : α} (h : g.Mounts parent child) :
    ∃ m ∈ g.linksOf parent, m.child = child := by
  obtain ⟨hparent, hchild, m, hm, rfl, rfl⟩ := h
  exact ⟨m, mem_linksOf.mpr ⟨mem_links.mpr ⟨hm, hparent, hchild⟩, rfl⟩, rfl⟩

/-- A known router stands in the table with its base path. -/
theorem mem_routers_of_mem_keys {g : MountGraph α} {r : α} (h : r ∈ Dict.keys g.routers) :
    (r, g.baseOf r) ∈ g.routers := by
  obtain ⟨base, hbase⟩ := Dict.exists_get?_of_mem_keys h
  have hbaseOf : g.baseOf r = base := congrArg (Option.getD · "") hbase
  rw [hbaseOf]
  exact Dict.mem_of_get? hbase

/-- The table has one base path for a router. -/
theorem baseOf_of_mem {g : MountGraph α} (hrouters : (Dict.keys g.routers).Nodup) {r : α}
    {base : String} (h : (r, base) ∈ g.routers) : g.baseOf r = base :=
  congrArg (Option.getD · "") (Dict.get?_of_mem hrouters h)

/-- A router that is mounted nowhere is a root. -/
theorem mem_roots_of_free {g : MountGraph α} {r : α} (hknown : r ∈ Dict.keys g.routers)
    (hfree : ∀ parent, ¬g.Mounts parent r) : r ∈ g.roots := by
  have hmem : r ∈ (g.routers.map (·.1)).filter fun r => !g.links.any (·.child == r) := by
    refine List.mem_filter.mpr ⟨hknown, ?_⟩
    rw [Bool.not_eq_true', List.any_eq_false]
    intro m hm hchild
    obtain ⟨hmount, hparent, hmchild⟩ := mem_links.mp hm
    obtain rfl : m.child = r := eq_of_beq hchild
    exact hfree m.parent ⟨hparent, hmchild, m, hmount, rfl, rfl⟩
  rw [roots]
  split
  · exact hknown
  · exact hmem

/-- Every router on a way leads to its end. -/
theorem Way.leads {g : MountGraph α} {v : Visit α} (h : g.Way v) :
    ∀ r ∈ v.onWay, r = v.router ∨ Relation.TransGen g.Mounts r v.router := by
  induction h with
  | root start => exact fun r hr => .inl (List.mem_singleton.mp hr)
  | mount way link fresh ih =>
    intro r hr
    have hmounts := mounts_of_mem_linksOf link
    rcases List.mem_cons.mp hr with rfl | hr
    · exact .inl rfl
    · rcases ih r hr with rfl | hleads
      · exact .inr (.single hmounts)
      · exact .inr (hleads.tail hmounts)

/-! ## Without circles

The routers are finitely many, so going up from one of them ends: at a router that is mounted
nowhere.  Induction goes the other way, from there down (`acyclic_induction`). -/

section

variable {g : MountGraph α} (hacyclic : g.Acyclic)
include hacyclic

/-- What holds of a router as soon as it holds of those it is mounted in, holds of all of them. -/
theorem acyclic_induction {P : α → Prop}
    (step : ∀ r ∈ Dict.keys g.routers, (∀ parent, g.Mounts parent r → P parent) → P r) :
    ∀ r ∈ Dict.keys g.routers, P r := by
  let Above (a b : { r // r ∈ Dict.keys g.routers }) : Prop := Relation.TransGen g.Mounts a.1 b.1
  have : IsTrans _ Above := ⟨fun _ _ _ hab hbc => hab.trans hbc⟩
  have : Std.Irrefl Above := ⟨fun a => hacyclic a.1⟩
  have hwf : WellFounded Above := Finite.wellFounded_of_trans_of_irrefl Above
  intro r hr
  induction hrouter : (⟨r, hr⟩ : { r // r ∈ Dict.keys g.routers }) using hwf.induction generalizing r with
  | h a ih =>
    subst hrouter
    exact step r hr fun parent hmounts => ih ⟨parent, hmounts.1⟩ (.single hmounts) parent hmounts.1 rfl

/-- The roots are the routers that are mounted nowhere.  If every router were mounted, all of them
    would count as roots; but without circles that cannot be, unless there are none. -/
theorem mem_roots_iff {r : α} :
    r ∈ g.roots ↔ r ∈ Dict.keys g.routers ∧ ∀ parent, ¬g.Mounts parent r := by
  refine ⟨fun h => ⟨mem_keys_of_mem_roots h, ?_⟩, fun h => mem_roots_of_free h.1 h.2⟩
  have hfilter : r ∈ (g.routers.map (·.1)).filter fun r => !g.links.any (·.child == r) := by
    have hknown := mem_keys_of_mem_roots h
    rw [roots] at h
    split at h
    · rename_i hnone
      -- all routers are roots only if none is mounted nowhere
      refine absurd hknown (acyclic_induction hacyclic (P := (· ∉ Dict.keys g.routers)) ?_ r hknown)
      intro s hs hparents
      have hmounted : ¬(!g.links.any (·.child == s)) = true := List.filter_eq_nil_iff.mp hnone s hs
      rw [Bool.not_eq_true', Bool.not_eq_false] at hmounted
      obtain ⟨m, hm, hchild⟩ := List.any_eq_true.mp hmounted
      obtain ⟨hmount, hparent, -⟩ := mem_links.mp hm
      exact absurd hparent (hparents _ ⟨hparent, hs, m, hmount, rfl, eq_of_beq hchild⟩)
    · exact h
  intro parent hmounts
  obtain ⟨m, hm, hchild⟩ := exists_link hmounts
  have hnone := (List.mem_filter.mp hfilter).2
  rw [Bool.not_eq_true', List.any_eq_false] at hnone
  exact hnone m (mem_linksOf.mp hm).1 (beq_iff_eq.mpr hchild)

/-- What is mounted in the router at the end of a way is not on the way. -/
theorem Way.child_fresh {v : Visit α} (h : g.Way v) {m : Mount α} (hm : m ∈ g.linksOf v.router) :
    m.child ∉ v.onWay := by
  intro honWay
  have hmounts := mounts_of_mem_linksOf hm
  rcases h.leads m.child honWay with heq | hleads
  · rw [heq] at hmounts
    exact hacyclic _ (.single hmounts)
  · exact hacyclic _ (hleads.tail hmounts)

/-- A way leads to every router. -/
theorem exists_way : ∀ r ∈ Dict.keys g.routers, ∃ v, g.Way v ∧ v.router = r := by
  refine acyclic_induction hacyclic fun r hr ih => ?_
  by_cases hfree : ∀ parent, ¬g.Mounts parent r
  · exact ⟨_, .root (mem_roots_of_free hr hfree), rfl⟩
  · obtain ⟨parent, hmounts⟩ := not_forall_not.mp hfree
    obtain ⟨v, hway, rfl⟩ := ih parent hmounts
    obtain ⟨m, hm, rfl⟩ := exists_link hmounts
    exact ⟨_, .mount hway hm (hway.child_fresh hacyclic hm), rfl⟩

/-- Whatever a way enters was entered, under the same path. -/
theorem way_seen {v : Visit α} (h : g.Way v) : (v.router, v.path) ∈ g.searched.seen := by
  induction h with
  | root start => exact g.progress_searched.roots_seen _ start
  | @mount v m way link fresh ih =>
    -- the visit that was made may be another one, but it entered what this one leads to
    obtain ⟨w, hway, heq, hexpanded⟩ := g.exists_expanded ih
    obtain ⟨hrouter, hpath⟩ := Prod.mk.inj heq
    have hlink : m ∈ g.linksOf w.router := hrouter ▸ link
    have hreached : g.reachedBy w = g.reachedBy v := by
      rw [reachedBy, hrouter, hpath]
      rfl
    have hentered := hexpanded.entered m hlink (hway.child_fresh hacyclic hlink)
    rwa [hreached] at hentered

/-- **The paths that are found are those of the ways.** -/
theorem mem_pathsOf_searched {r : α} {p : String} :
    p ∈ g.searched.pathsOf r ↔ ∃ v, g.Way v ∧ v.router = r ∧ g.reachedBy v = p := by
  refine ⟨g.progress_searched.found_traced r p, ?_⟩
  rintro ⟨v, hway, rfl, rfl⟩
  obtain ⟨w, -, heq, hexpanded⟩ := g.exists_expanded (way_seen hacyclic hway)
  obtain ⟨hrouter, hpath⟩ := Prod.mk.inj heq
  have hfound := hexpanded.found
  rwa [reachedBy, hrouter, hpath] at hfound

/-! ## Ways and composed prefixes

A way is one of the ways to compose a prefix, so the two sides go over into each other step by step. -/

/-- The path that a way reaches its router by is a composed prefix. -/
theorem composed_of_way {v : Visit α} (h : g.Way v) : g.Composed v.router (g.reachedBy v) := by
  induction h with
  | root start =>
    obtain ⟨hknown, hfree⟩ := (mem_roots_iff hacyclic).mp start
    exact .root (mem_routers_of_mem_keys hknown) hfree
  | mount way link fresh ih =>
    obtain ⟨hlink, hparent⟩ := mem_linksOf.mp link
    obtain ⟨hmount, -, hchild⟩ := mem_links.mp hlink
    exact .mount hmount (hparent ▸ ih) (mem_routers_of_mem_keys hchild)

/-- Every composed prefix is the path of some way: without circles, composing meets no router twice. -/
theorem way_of_composed (hrouters : (Dict.keys g.routers).Nodup) {r : α} {p : String}
    (h : g.Composed r p) : ∃ v, g.Way v ∧ v.router = r ∧ g.reachedBy v = p := by
  induction h with
  | @root r base known free =>
    have hroot := mem_roots_of_free (List.mem_map_of_mem known) free
    refine ⟨⟨r, "", [r]⟩, .root hroot, rfl, ?_⟩
    rw [reachedBy, baseOf_of_mem hrouters known]
  | @mount m base path link above known ih =>
    obtain ⟨v, hway, hrouter, hreached⟩ := ih
    have hparent : m.parent ∈ Dict.keys g.routers := hrouter ▸ hway.known
    have hlink : m ∈ g.linksOf v.router :=
      mem_linksOf.mpr ⟨mem_links.mpr ⟨link, hparent, List.mem_map_of_mem known⟩, hrouter.symm⟩
    refine ⟨_, .mount hway hlink (hway.child_fresh hacyclic hlink), rfl, ?_⟩
    show join (join (g.reachedBy v) m.path) (g.baseOf m.child) = _
    rw [hreached, baseOf_of_mem hrouters known]

end

/-! ## Mounts without effect

A mount may name a router that nobody has declared.  The search never looks at such mounts, so
leaving them out changes nothing. -/

/-- The same routers with other mounts. -/
def mountedBy (g : MountGraph α) (mounts : List (Mount α)) : MountGraph α := { g with mounts := mounts }

/-- A search looks at the mounts between known routers only. -/
theorem spread_mountedBy {g : MountGraph α} {mounts : List (Mount α)}
    (h : (g.mountedBy mounts).links = g.links) (queue : List (Visit α)) (s : Search α) :
    (g.mountedBy mounts).spread queue s = g.spread queue s := by
  induction queue, s using spread.induct g with
  | case1 s => rw [spread, spread]
  | case2 v queue s reached entered ih =>
    have hlinks : (g.mountedBy mounts).linksOf v.router = g.linksOf v.router := by
      rw [linksOf, h, linksOf]
    have hentered : (g.mountedBy mounts).enteredFrom v s = g.enteredFrom v s := by
      rw [enteredFrom, hlinks]
      rfl
    have hafter : (g.mountedBy mounts).after v s = g.after v s := by
      rw [after, hlinks]
      rfl
    rw [spread_cons, spread_cons, hentered, hafter]
    exact ih

/-- So the outcome depends on the mounts between known routers only. -/
theorem resolve_mountedBy {g : MountGraph α} {mounts : List (Mount α)}
    (h : (g.mountedBy mounts).links = g.links) : (g.mountedBy mounts).resolve = g.resolve := by
  have hroots : (g.mountedBy mounts).roots = g.roots := by
    rw [roots, h]
    rfl
  have hsearched : (g.mountedBy mounts).searched = g.searched := by
    rw [searched, firstVisits, start, hroots]
    exact spread_mountedBy h _ _
  rw [resolve_eq, hsearched, resolve_eq]
  rfl

/-- Leaving the others out twice leaves out no more. -/
theorem links_mountedBy_links (g : MountGraph α) : (g.mountedBy g.links).links = g.links := by
  show (g.mounts.filter _).filter _ = g.mounts.filter _
  rw [List.filter_filter]
  exact List.filter_congr fun m _ => Bool.and_self _

/-! ## The prefixes

Without circles every router is reached from a root, so the prefixes are those of all paths of
mounts from a root to the router. -/

/-- **The prefixes that are found are the composed ones**, each once, where mounts do not go round in
    a circle; every router has its own, and mounts of unknown routers change nothing. -/
theorem prefixes_iff_composed (g : MountGraph α) (hrouters : (Dict.keys g.routers).Nodup)
    (hacyclic : g.Acyclic) :
    (Dict.keys g.resolve).Perm (Dict.keys g.routers) ∧
    (∀ r ∈ Dict.keys g.routers, ∃ prefixes, Dict.get? g.resolve r = some prefixes ∧
      prefixes.Nodup ∧ ∀ p, p ∈ prefixes ↔ g.Composed r p) ∧
    (g.mountedBy g.links).resolve = g.resolve := by
  refine ⟨g.keys_resolve_perm hrouters, fun r hr => ?_, resolve_mountedBy g.links_mountedBy_links⟩
  have hmem : ∀ p, p ∈ g.searched.pathsOf r ↔ g.Composed r p := by
    intro p
    rw [mem_pathsOf_searched hacyclic]
    refine ⟨?_, way_of_composed hacyclic hrouters⟩
    rintro ⟨v, hway, rfl, rfl⟩
    exact composed_of_way hacyclic hway
  obtain ⟨v, hway, hrouter⟩ := exists_way hacyclic r hr
  have hne : g.searched.pathsOf r ≠ [] :=
    List.ne_nil_of_mem ((mem_pathsOf_searched hacyclic).mpr ⟨v, hway, hrouter, rfl⟩)
  exact ⟨_, get?_resolve_of_found hne, g.progress_searched.found_nodup r, hmem⟩

/-- A router that is mounted in two others, in one of them twice, and in one that is not there. -/
def sharedRouter : MountGraph String where
  routers := [("app", ""), ("one", "first/"), ("two", ""), ("shared", "/s")]
  mounts := [⟨"app", "one", "/1"⟩, ⟨"app", "two", "2"⟩, ⟨"one", "shared", "/x"⟩,
    ⟨"two", "shared", "/x"⟩, ⟨"two", "shared", "/"⟩, ⟨"gone", "shared", "/z"⟩]

/-- Ranks show that the mounts do not go round; the shared router then has a prefix for every way to
    it. -/
theorem prefixes_sharedRouter : (Dict.keys sharedRouter.routers).Nodup ∧ sharedRouter.Acyclic ∧
    ∃ prefixes, Dict.get? sharedRouter.resolve "shared" = some prefixes ∧ prefixes.Nodup ∧
      "/1/first/x/s" ∈ prefixes ∧ "/2/x/s" ∈ prefixes ∧ "/2/s" ∈ prefixes := by
  have hrouters : (Dict.keys sharedRouter.routers).Nodup := by decide
  have hacyclic : sharedRouter.Acyclic :=
    acyclic_of_rank (fun r => if r = "app" then 0 else if r = "shared" then 2 else 1) (by decide)
  obtain ⟨-, hprefixes, -⟩ := prefixes_iff_composed sharedRouter hrouters hacyclic
  obtain ⟨prefixes, hget, hnodup, hmem⟩ := hprefixes "shared" (by decide)
  have hfree : ∀ parent, ¬sharedRouter.Mounts parent "app" := by
    rintro parent ⟨-, -, m, hm, -, hchild⟩
    exact absurd hchild ((by decide : ∀ m ∈ sharedRouter.mounts, m.child ≠ "app") m hm)
  have hstep : ∀ m base {path p}, m ∈ sharedRouter.mounts → sharedRouter.Composed m.parent path →
      (m.child, base) ∈ sharedRouter.routers → join (join path m.path) base = p →
      sharedRouter.Composed m.child p := by
    rintro m base path _ hm habove hbase rfl
    exact .mount hm habove hbase
  have happ : sharedRouter.Composed "app" (join "" "") := .root (by decide) hfree
  have hone : sharedRouter.Composed "one" "/1/first" :=
    hstep ⟨"app", "one", "/1"⟩ "first/" (by decide) happ (by decide) (by decide)
  have htwo : sharedRouter.Composed "two" "/2" :=
    hstep ⟨"app", "two", "2"⟩ "" (by decide) happ (by decide) (by decide)
  refine ⟨hrouters, hacyclic, prefixes, hget, hnodup, (hmem _).mpr ?_, (hmem _).mpr ?_, (hmem _).mpr ?_⟩
  · exact hstep ⟨"one", "shared", "/x"⟩ "/s" (by decide) hone (by decide) (by decide)
  · exact hstep ⟨"two", "shared", "/x"⟩ "/s" (by decide) htwo (by decide) (by decide)
  · exact hstep ⟨"two", "shared", "/"⟩ "/s" (by decide) htwo (by decide) (by decide)

end RouteAtlas.Route.MountGraph
