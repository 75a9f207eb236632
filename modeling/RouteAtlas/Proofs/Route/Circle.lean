/-
  Which prefixes a search through mounts finds when mounts go round in circles.

  ==== Problem ====

  Nothing keeps a program from mounting a router in itself, or two routers in each other.  Then there
  are mount paths without end, and so are the prefixes composed along them.  The search must end all
  the same, leave no router without a prefix, and find nothing that no mount path accounts for.

  ==== Program ====

  1. **It ends** - one turn of the search makes the first visit of the queue (`turn`); after no more
     turns than the first visits weigh, the queue is empty (`exists_turns`).

  2. **Specification** - `ComposedOver` composes a prefix along a mount path and lists the routers on
     it.  The prefixes that are found are those of mount paths that meet no router twice
     (`composedOver_of_way`); a search may leave some of them out, since it does not enter a router
     twice under one path.

  3. **Nothing is missed** - every router that mounts lead to from a start router is entered
     (`seen_of_reached`), and every other one keeps its own base path.

  ==== The crux ====

  `Closing.step`: what is mounted in a router that was entered is entered as well, or the router still
  stands on the queue.  A visit leaves out the routers on its way, and these need no visit: they are
  on the way because they were entered (`Closing.onWay_seen`).  So neither the routers on the way nor
  the paths entered before can make the search pass by a router.
-/
import RouteAtlas.Proofs.Route.Prefix

namespace RouteAtlas.Route.MountGraph

variable {α : Type}

/-! ## Where a search starts and where it can lead

All of this is said of the mounts alone, without a search.  If every router is mounted somewhere,
mounts go round in circles; then a search has nowhere better to start from than anywhere. -/

/-- The routers a search starts from: those mounted nowhere, or all of them when there are none. -/
def Starts (g : MountGraph α) (r : α) : Prop :=
  r ∈ Dict.keys g.routers ∧
    ((∀ parent, ¬g.Mounts parent r) ∨ ∀ s ∈ Dict.keys g.routers, ∃ parent, g.Mounts parent s)

/-- Mounts lead from some start router to this one. -/
def Reached (g : MountGraph α) (r : α) : Prop :=
  ∃ start, g.Starts start ∧ Relation.ReflTransGen g.Mounts start r

/-- The prefix of a router behind a mount path from a start router, and the routers on the path, the
    last one first. -/
inductive ComposedOver (g : MountGraph α) : List α → α → String → Prop
  | start {r base} (starts : g.Starts r) (known : (r, base) ∈ g.routers) :
      ComposedOver g [r] r (join "" base)
  | mount {m base path onPath} (link : m ∈ g.mounts) (above : ComposedOver g onPath m.parent path)
      (known : (m.child, base) ∈ g.routers) :
      ComposedOver g (m.child :: onPath) m.child (join (join path m.path) base)

variable [DecidableEq α]

/-- **The roots of a search are the start routers.**  The program drops the routers that some mount
    names as child, and takes all routers if that leaves none. -/
theorem mem_roots_iff_starts {g : MountGraph α} {r : α} : r ∈ g.roots ↔ g.Starts r := by
  -- a router that no mount names as child passes the filter, and no other one does
  have hfilter : ∀ s, s ∈ ((g.routers.map (·.1)).filter fun r => !g.links.any (·.child == r)) ↔
      s ∈ Dict.keys g.routers ∧ ∀ parent, ¬g.Mounts parent s := by
    intro s
    rw [List.mem_filter, Bool.not_eq_true', List.any_eq_false]
    refine and_congr_right fun _ => ⟨fun hnone parent hmounts => ?_, fun hfree m hm hchild => ?_⟩
    · obtain ⟨m, hm, hchild⟩ := exists_link hmounts
      exact hnone m (mem_linksOf.mp hm).1 (beq_iff_eq.mpr hchild)
    · obtain ⟨hmount, hparent, hmchild⟩ := mem_links.mp hm
      exact hfree m.parent ⟨hparent, eq_of_beq hchild ▸ hmchild, m, hmount, rfl, eq_of_beq hchild⟩
  unfold Starts
  rw [roots]
  split
  · rename_i hnone
    have hmounted : ∀ s ∈ Dict.keys g.routers, ∃ parent, g.Mounts parent s := by
      intro s hs
      apply not_forall_not.mp
      intro hfree
      have hmem := (hfilter s).mpr ⟨hs, hfree⟩
      rw [hnone] at hmem
      exact absurd hmem List.not_mem_nil
    exact ⟨fun hr => ⟨hr, .inr hmounted⟩, And.left⟩
  · rename_i hsome
    rw [hfilter r]
    refine and_congr_right fun _ => ⟨.inl, fun h => h.elim id fun hall => ?_⟩
    obtain ⟨s, hs⟩ := List.exists_mem_of_ne_nil _ hsome
    obtain ⟨hknown, hfree⟩ := (hfilter s).mp hs
    obtain ⟨parent, hmounts⟩ := hall s hknown
    exact absurd hmounts (hfree parent)

/-! ## The search ends

Each turn makes one visit and may put others on the queue, one for each router mounted in the one at
hand and off the way.  What a visit weighs bounds how often this can go on: ways meet no router
twice, so they are no longer than there are routers. -/

/-- One turn of the search: the first visit of the queue is made.  Without visits nothing is left to
    do. -/
def turn (g : MountGraph α) : List (Visit α) × Search α → List (Visit α) × Search α
  | ([], s) => ([], s)
  | (v :: queue, s) => (queue ++ g.enteredFrom v s, g.after v s)

/-- **After so many turns the queue is empty**, and what is known then is what the search gives. -/
theorem exists_turns (g : MountGraph α) (queue : List (Visit α)) (s : Search α) :
    ∃ n, n ≤ g.totalWeight queue ∧ g.turn^[n] (queue, s) = ([], g.spread queue s) := by
  induction queue, s using spread.induct g with
  | case1 s =>
    refine ⟨0, Nat.zero_le _, ?_⟩
    rw [spread]
    rfl
  | case2 v queue s reached entered ih =>
    obtain ⟨n, hn, hturns⟩ := ih
    refine ⟨n + 1, ?_, ?_⟩
    · have hlighter : g.totalWeight (queue ++ entered.1) < g.totalWeight (v :: queue) :=
        g.totalWeight_step v queue reached s.seen
      omega
    · rw [Function.iterate_succ_apply, spread_cons]
      exact hturns

/-! ## What the ways are

The ways of a search are mount paths that meet no router twice, each with the prefix that is
composed along it. -/

/-- **A way composes the prefix of its router** along routers that are all different. -/
theorem composedOver_of_way {g : MountGraph α} {v : Visit α} (h : g.Way v) :
    v.onWay.Nodup ∧ g.ComposedOver v.onWay v.router (g.reachedBy v) := by
  induction h with
  | root start =>
    have hstarts := mem_roots_iff_starts.mp start
    exact ⟨List.nodup_singleton _, .start hstarts (mem_routers_of_mem_keys hstarts.1)⟩
  | mount way link fresh ih =>
    obtain ⟨hnodup, habove⟩ := ih
    obtain ⟨hlink, hparent⟩ := mem_linksOf.mp link
    obtain ⟨hmount, -, hchild⟩ := mem_links.mp hlink
    exact ⟨List.nodup_cons.mpr ⟨fresh, hnodup⟩,
      .mount hmount (hparent ▸ habove) (mem_routers_of_mem_keys hchild)⟩

/-- Ways lead along mounts. -/
theorem Way.reached {g : MountGraph α} {v : Visit α} (h : g.Way v) : g.Reached v.router := by
  induction h with
  | root start => exact ⟨_, mem_roots_iff_starts.mp start, .refl⟩
  | mount way link fresh ih =>
    obtain ⟨start, hstarts, hleads⟩ := ih
    exact ⟨start, hstarts, hleads.tail (mounts_of_mem_linksOf link)⟩

/-! ## Nothing is passed by

Here circles matter.  In the case without circles every prefix is found; now only every router is,
and the argument cannot go through prefixes: what a visit leaves out because it is on the way has
been entered under another one. -/

/-- What was entered, was entered with all that is mounted in it, except what the queue stands for. -/
structure Closing (g : MountGraph α) (queue : List (Visit α)) (s : Search α) : Prop where
  onWay_seen : ∀ v ∈ queue, ∀ r ∈ v.onWay, r ∈ Dict.keys s.seen
  mounted_seen : ∀ m ∈ g.links, m.parent ∈ Dict.keys s.seen →
    m.child ∈ Dict.keys s.seen ∨ ∃ v ∈ queue, v.router = m.parent

section

variable {g : MountGraph α} {v : Visit α} {queue : List (Visit α)} {s : Search α}

/-- The routers seen after a visit are those seen before and those it enters. -/
theorem mem_keys_seen_after {r : α} : r ∈ Dict.keys (g.after v s).seen ↔
    r ∈ Dict.keys s.seen ∨ ∃ w ∈ g.enteredFrom v s, w.router = r := by
  have hentered := g.entered_enterAll v (g.linksOf v.router) s.seen
  show r ∈ Dict.keys (Search.enterAll (g.reachedBy v) v.onWay (g.linksOf v.router) s.seen).2 ↔ _
  rw [hentered.seen_eq, Dict.keys, List.map_append, List.mem_append, List.map_map]
  exact or_congr_right List.mem_map

/-- **One visit** keeps the search closing.

    A mount of the router that was visited is now seen.  All else was seen before or is in the queue
    still. -/
theorem Closing.step (h : g.Closing (v :: queue) s) :
    g.Closing (queue ++ g.enteredFrom v s) (g.after v s) := by
  have hentered := g.entered_enterAll v (g.linksOf v.router) s.seen
  have honWay : ∀ r ∈ v.onWay, r ∈ Dict.keys (g.after v s).seen := by
    intro r hr
    exact mem_keys_seen_after.mpr (.inl (h.onWay_seen v (List.mem_cons_self ..) r hr))
  constructor
  case onWay_seen =>
    intro w hw r hr
    rcases List.mem_append.mp hw with hw | hw
    · exact mem_keys_seen_after.mpr (.inl (h.onWay_seen w (List.mem_cons_of_mem _ hw) r hr))
    · obtain ⟨m, -, -, rfl⟩ := hentered.from_link w hw
      rcases List.mem_cons.mp hr with rfl | hr
      · exact mem_keys_seen_after.mpr (.inr ⟨_, hw, rfl⟩)
      · exact honWay r hr
  case mounted_seen =>
    intro m hm hparent
    rcases mem_keys_seen_after.mp hparent with hparent | ⟨w, hw, hrouter⟩
    · rcases h.mounted_seen m hm hparent with hchild | ⟨w, hw, hrouter⟩
      · exact .inl (mem_keys_seen_after.mpr (.inl hchild))
      · rcases List.mem_cons.mp hw with rfl | hw
        · -- the visit at hand: its mounts are entered, unless their routers are on the way
          left
          by_cases hway : m.child ∈ w.onWay
          · exact honWay m.child hway
          · have hcovered := hentered.covered m (mem_linksOf.mpr ⟨hm, hrouter.symm⟩) hway
            exact List.mem_map_of_mem hcovered
        · exact .inr ⟨w, List.mem_append_left _ hw, hrouter⟩
    · exact .inr ⟨w, List.mem_append_right _ hw, hrouter⟩

/-- **A whole search** is closed under mounts at its end. -/
theorem Closing.run (h : g.Closing queue s) : g.Closing [] (g.spread queue s) :=
  spread_induction (fun _ _ _ h => h.step) h

end

/-- At the beginning the roots are entered and stand on the queue, so there is nothing to close yet. -/
theorem closing_start (g : MountGraph α) : g.Closing g.firstVisits g.start := by
  constructor
  case onWay_seen =>
    intro v hv r hr
    obtain ⟨root, hroot, rfl⟩ := List.mem_map.mp hv
    obtain rfl : r = root := List.mem_singleton.mp hr
    have hseen : (r, "") ∈ g.start.seen := List.mem_map_of_mem hroot
    exact List.mem_map_of_mem hseen
  case mounted_seen =>
    intro m hm hparent
    obtain ⟨e, he, hname⟩ := List.mem_map.mp hparent
    obtain ⟨root, hroot, rfl⟩ := List.mem_map.mp he
    exact .inr ⟨_, List.mem_map_of_mem hroot, hname⟩

/-- **Whatever mounts lead to is entered.**  The induction is on the mounts that lead there; at the
    end of the search the queue is empty, so a router mounted in one that was entered was entered,
    too. -/
theorem seen_of_reached {g : MountGraph α} {r : α} (h : g.Reached r) :
    r ∈ Dict.keys g.searched.seen := by
  obtain ⟨start, hstarts, hleads⟩ := h
  induction hleads with
  | refl =>
    have hseen := g.progress_searched.roots_seen start (mem_roots_iff_starts.mpr hstarts)
    exact List.mem_map_of_mem hseen
  | tail _ hmounts ih =>
    obtain ⟨m, hm, rfl⟩ := exists_link hmounts
    obtain ⟨hlink, rfl⟩ := mem_linksOf.mp hm
    rcases g.closing_start.run.mounted_seen m hlink ih with hchild | ⟨v, hv, -⟩
    · exact hchild
    · exact absurd hv List.not_mem_nil

theorem pathsOf_ne_nil_of_reached {g : MountGraph α} {r : α} (h : g.Reached r) :
    g.searched.pathsOf r ≠ [] := by
  obtain ⟨e, he, rfl⟩ := List.mem_map.mp (seen_of_reached h)
  obtain ⟨v, -, hv, hexpanded⟩ := g.exists_expanded he
  have hrouter : v.router = e.1 := congrArg Prod.fst hv
  exact List.ne_nil_of_mem (hrouter ▸ hexpanded.found)

/-- A router that nothing leads to is never found. -/
theorem get?_found_of_not_reached {g : MountGraph α} {r : α} (h : ¬g.Reached r) :
    Dict.get? g.searched.found r = none := by
  refine Dict.get?_eq_none_iff.mpr fun hr => ?_
  obtain ⟨p, hp⟩ := List.exists_mem_of_ne_nil _ (g.progress_searched.found_some r hr)
  obtain ⟨v, hway, rfl, -⟩ := g.progress_searched.found_traced r p hp
  exact h hway.reached

/-! ## The prefixes

Each prefix belongs to a visit, and a visit to a path of mounts on which no router comes twice. -/

/-- **The prefixes of any routers**, mounted in whatever way: the search ends, and every router gets
    prefixes, at least one and each once.  Those of a router that mounts lead to are composed along
    mount paths from a start router that meet no router twice; a router that nothing leads to has
    its own base path. -/
theorem prefixes_composedOver (g : MountGraph α) (hrouters : (Dict.keys g.routers).Nodup) :
    (∃ n, n ≤ g.totalWeight g.firstVisits ∧
      g.turn^[n] (g.firstVisits, g.start) = ([], g.searched)) ∧
    (Dict.keys g.resolve).Perm (Dict.keys g.routers) ∧
    ∀ r base, (r, base) ∈ g.routers → ∃ prefixes, Dict.get? g.resolve r = some prefixes ∧
      prefixes ≠ [] ∧ prefixes.Nodup ∧
      (g.Reached r → ∀ p ∈ prefixes, ∃ onPath, onPath.Nodup ∧ g.ComposedOver onPath r p) ∧
      (¬g.Reached r → prefixes = [normalize base]) := by
  refine ⟨g.exists_turns _ _, g.keys_resolve_perm hrouters, fun r base hr => ?_⟩
  by_cases hreached : g.Reached r
  · have hne := pathsOf_ne_nil_of_reached hreached
    refine ⟨_, get?_resolve_of_found hne, hne, g.progress_searched.found_nodup r, ?_,
      fun h => absurd hreached h⟩
    intro _ p hp
    obtain ⟨v, hway, rfl, rfl⟩ := g.progress_searched.found_traced r p hp
    exact ⟨v.onWay, composedOver_of_way hway⟩
  · have hget : Dict.get? g.resolve r = some [normalize base] := by
      rw [get?_resolve, get?_found_of_not_reached hreached, Dict.get?_of_mem hrouters hr]
      rfl
    exact ⟨_, hget, List.cons_ne_nil _ _, List.nodup_singleton _, fun h => absurd h hreached,
      fun _ => rfl⟩

/-- Two routers mounted in each other below a third, and one that is mounted only in itself. -/
def roundabout : MountGraph String where
  routers := [("app", "/v1"), ("one", "/one"), ("two", "two/"), ("island", "island/")]
  mounts := [⟨"app", "one", "/a"⟩, ⟨"one", "two", "/b"⟩, ⟨"two", "one", "/c"⟩,
    ⟨"island", "island", "/d"⟩]

/-- The two routers that are mounted in each other get prefixes without going round, and the island,
    which is mounted in itself only, keeps its base path. -/
theorem prefixes_roundabout : (Dict.keys roundabout.routers).Nodup ∧
    (∃ prefixes, Dict.get? roundabout.resolve "one" = some prefixes ∧ prefixes ≠ [] ∧
      prefixes.Nodup ∧
      ∀ p ∈ prefixes, ∃ onPath, onPath.Nodup ∧ roundabout.ComposedOver onPath "one" p) ∧
    Dict.get? roundabout.resolve "island" = some ["/island"] := by
  have hrouters : (Dict.keys roundabout.routers).Nodup := by decide
  obtain ⟨-, -, hprefixes⟩ := prefixes_composedOver roundabout hrouters
  have happ : ∀ parent, ¬roundabout.Mounts parent "app" := by
    rintro parent ⟨-, -, m, hm, -, hchild⟩
    exact absurd hchild ((by decide : ∀ m ∈ roundabout.mounts, m.child ≠ "app") m hm)
  have hstarts : roundabout.Starts "app" := ⟨by decide, .inl happ⟩
  have hone : roundabout.Reached "one" :=
    ⟨"app", hstarts, .single ⟨by decide, by decide, ⟨"app", "one", "/a"⟩, by decide, rfl, rfl⟩⟩
  -- nothing but the island leads to the island, and no search starts there
  have hself : ∀ m ∈ roundabout.mounts, m.child = "island" → m.parent = "island" := by decide
  have hback : ∀ s, Relation.ReflTransGen roundabout.Mounts s "island" → s = "island" := by
    intro s hleads
    induction hleads using Relation.ReflTransGen.head_induction_on with
    | refl => rfl
    | head hmounts _ ih =>
      obtain ⟨-, -, m, hm, rfl, hchild⟩ := hmounts
      exact hself m hm (hchild.trans ih)
  have hisland : ¬roundabout.Reached "island" := by
    rintro ⟨start, ⟨-, hfree | hmounted⟩, hleads⟩
    · rw [hback start hleads] at hfree
      exact hfree "island" ⟨by decide, by decide, ⟨"island", "island", "/d"⟩, by decide, rfl, rfl⟩
    · obtain ⟨parent, hmounts⟩ := hmounted "app" hstarts.1
      exact happ parent hmounts
  obtain ⟨prefixes, hget, hne, hnodup, hcomposed, -⟩ := hprefixes "one" "/one" (by decide)
  obtain ⟨_, hget', -, -, -, hbase⟩ := hprefixes "island" "island/" (by decide)
  refine ⟨hrouters, ⟨prefixes, hget, hne, hnodup, hcomposed hone⟩, ?_⟩
  rw [hget', hbase hisland]
  rfl

end RouteAtlas.Route.MountGraph
