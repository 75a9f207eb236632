/-
  What a search through mounts finds.

  ==== Problem ====

  The search keeps a queue of visits.  It does not follow everything: a router that is on the way
  already is not entered again, and neither is one that was entered under the same path before.  The
  paths it finds are the right ones only if what it leaves out would have led to nothing new.

  ==== Program ====

  1. **Ways** - `Way` are the visits that a way from a root leads to, no router twice on it.  The
     search makes no others.

  2. **One visit** - the routers mounted in the one at hand are entered, or were entered under that
     path, or are on the way (`entered_enterAll`).

  3. **A whole search** - what one visit preserves holds at the end, whatever it is
     (`spread_induction`); what is said of this search is `Progress`, and its step is `Progress.step`.

  ==== The crux ====

  `Progress.seen_traced`: whatever was entered is still on the queue, or some visit of it was made
  and has put all that follows into `seen`.  It is some visit, not every one: a second visit under
  the same path is left out, and may have come another way.  At the end the queue is empty, so all
  that was entered has been gone on from (`exists_expanded`).
-/
import RouteAtlas.Proofs.Json.Dictionary
import RouteAtlas.Route.Mount

namespace RouteAtlas.Route

variable {α : Type} [DecidableEq α]

namespace MountGraph

/-! ## Ways

A visit remembers the routers on the way to it, so that the search does not enter them again.  The
ways are all visits that can be made by this rule, whether the search makes them or not. -/

/-- The path that the routes of the visited router are reached under. -/
def reachedBy (g : MountGraph α) (v : Visit α) : String := join v.path (g.baseOf v.router)

/-- The visit over a mount. -/
def through (g : MountGraph α) (v : Visit α) (m : Mount α) : Visit α :=
  ⟨m.child, join (g.reachedBy v) m.path, m.child :: v.onWay⟩

/-- The visits that the ways from a root lead to, no router twice on a way. -/
inductive Way (g : MountGraph α) : Visit α → Prop
  | root {r} (start : r ∈ g.roots) : Way g ⟨r, "", [r]⟩
  | mount {v m} (way : Way g v) (link : m ∈ g.linksOf v.router) (fresh : m.child ∉ v.onWay) :
      Way g (g.through v m)

/-- What the graph knows stands in its table. -/
theorem mem_keys_of_knows {g : MountGraph α} {r : α} (h : g.knows r = true) :
    r ∈ Dict.keys g.routers := by
  obtain ⟨base, hbase⟩ := Option.isSome_iff_exists.mp h
  exact List.mem_map_of_mem (Dict.mem_of_get? hbase)

/-- What stands in the table is known. -/
theorem knows_of_mem_keys {g : MountGraph α} {r : α} (h : r ∈ Dict.keys g.routers) :
    g.knows r = true := by
  refine Option.isSome_iff_ne_none.mpr fun hnone => ?_
  exact Dict.get?_eq_none_iff.mp hnone h

/-- The mounts that have an effect are those between known routers. -/
theorem mem_links {g : MountGraph α} {m : Mount α} : m ∈ g.links ↔
    m ∈ g.mounts ∧ m.parent ∈ Dict.keys g.routers ∧ m.child ∈ Dict.keys g.routers := by
  rw [links, List.mem_filter, Bool.and_eq_true]
  exact and_congr_right fun _ => and_congr
    ⟨mem_keys_of_knows, knows_of_mem_keys⟩ ⟨mem_keys_of_knows, knows_of_mem_keys⟩

/-- The links of a router are those that it is the parent of. -/
theorem mem_linksOf {g : MountGraph α} {r : α} {m : Mount α} :
    m ∈ g.linksOf r ↔ m ∈ g.links ∧ m.parent = r := by
  rw [linksOf, List.mem_filter, beq_iff_eq]

/-- Roots are routers. -/
theorem mem_keys_of_mem_roots {g : MountGraph α} {r : α} (h : r ∈ g.roots) :
    r ∈ Dict.keys g.routers := by
  rw [roots] at h
  split at h
  · exact h
  · exact (List.mem_filter.mp h).1

/-- The visited router is known. -/
theorem Way.known {g : MountGraph α} {v : Visit α} (h : g.Way v) :
    v.router ∈ Dict.keys g.routers := by
  cases h with
  | root start => exact mem_keys_of_mem_roots start
  | mount way link fresh => exact (mem_links.mp (mem_linksOf.mp link).1).2.2

/-! ## One visit

A visit looks at the mounts of its router one after the other, and what it has noted of one it knows
at the next.  The induction is on these mounts, with what was seen before left open. -/

/-- What entering the routers of some mounts does. -/
structure Entered (g : MountGraph α) (v : Visit α) (links : List (Mount α))
    (seen : List (α × String)) (entered : List (Visit α) × List (α × String)) : Prop where
  from_link : ∀ w ∈ entered.1, ∃ m ∈ links, m.child ∉ v.onWay ∧ w = g.through v m
  seen_eq : entered.2 = seen ++ entered.1.map fun w => (w.router, w.path)
  covered : ∀ m ∈ links, m.child ∉ v.onWay → (m.child, join (g.reachedBy v) m.path) ∈ entered.2

/-- **Entering the routers of some mounts** makes visits over these mounts only, notes every visit that
    it makes, and passes by no router that is off the way: one that is not entered now was entered
    under the same path before. -/
theorem entered_enterAll (g : MountGraph α) (v : Visit α) (links : List (Mount α))
    (seen : List (α × String)) :
    g.Entered v links seen (Search.enterAll (g.reachedBy v) v.onWay links seen) := by
  induction links generalizing seen with
  | nil =>
    exact ⟨fun _ hw => absurd hw (List.not_mem_nil), (List.append_nil _).symm,
      fun _ hm => absurd hm (List.not_mem_nil)⟩
  | cons m rest ih =>
    have hlater : ∀ {w : Visit α}, (∃ m ∈ rest, m.child ∉ v.onWay ∧ w = g.through v m) →
        ∃ m' ∈ m :: rest, m'.child ∉ v.onWay ∧ w = g.through v m' := by
      rintro w ⟨m', hm', hfresh, hw⟩
      exact ⟨m', List.mem_cons_of_mem _ hm', hfresh, hw⟩
    rw [Search.enterAll]
    split
    -- a router on the way is left out, and nothing is asked for it
    · rename_i honWay
      have ih := ih seen
      refine ⟨fun w hw => hlater (ih.from_link w hw), ih.seen_eq, fun m' hm' hfresh => ?_⟩
      rcases List.mem_cons.mp hm' with rfl | hm'
      · exact absurd (List.contains_iff_mem.mp honWay) hfresh
      · exact ih.covered m' hm' hfresh
    · rename_i honWay
      dsimp only
      split
      -- a router that was entered under this path is left out, too, and that it was entered is what
      -- is asked for
      · rename_i hseen
        have ih := ih seen
        refine ⟨fun w hw => hlater (ih.from_link w hw), ih.seen_eq, fun m' hm' hfresh => ?_⟩
        rcases List.mem_cons.mp hm' with rfl | hm'
        · rw [ih.seen_eq]
          exact List.mem_append_left _ (List.contains_iff_mem.mp hseen)
        · exact ih.covered m' hm' hfresh
      · have ih := ih (seen ++ [(m.child, join (g.reachedBy v) m.path)])
        have hfresh : m.child ∉ v.onWay := fun hmem => honWay (List.contains_iff_mem.mpr hmem)
        constructor
        case from_link =>
          intro w hw
          rcases List.mem_cons.mp hw with rfl | hw
          · exact ⟨m, List.mem_cons_self .., hfresh, rfl⟩
          · exact hlater (ih.from_link w hw)
        case seen_eq =>
          rw [ih.seen_eq, List.map_cons, List.append_assoc]
          rfl
        case covered =>
          intro m' hm' hfresh'
          rcases List.mem_cons.mp hm' with rfl | hm'
          · rw [ih.seen_eq]
            exact List.mem_append_left _ (List.mem_append_right _ (List.mem_singleton_self _))
          · exact ih.covered m' hm' hfresh'

end MountGraph

/-! ## What is found

The paths of a router are collected in the order in which they are found. -/

namespace Search

/-- The paths that a router's routes are reached under, as far as they are found. -/
def pathsOf (s : Search α) (r : α) : List String := (Dict.get? s.found r).getD []

/-- A path is noted for its router unless it was noted before, and nothing changes for any other
    router. -/
theorem pathsOf_record (s : Search α) (router r : α) (path : String) :
    (s.record router path).pathsOf r
      = if r = router ∧ path ∉ s.pathsOf router then s.pathsOf r ++ [path] else s.pathsOf r := by
  have hget : (s.record router path).pathsOf r = (if r == router then
      some (if (s.pathsOf router).contains path then s.pathsOf router
        else s.pathsOf router ++ [path]) else Dict.get? s.found r).getD [] :=
    congrArg (Option.getD · []) (Dict.get?_put s.found router _ r)
  rw [hget]
  by_cases hr : r = router
  · subst hr
    by_cases hpath : path ∈ s.pathsOf r
    · rw [if_pos (beq_self_eq_true r), if_pos (List.contains_iff_mem.mpr hpath),
        if_neg fun h => h.2 hpath]
      rfl
    · rw [if_pos (beq_self_eq_true r), if_neg fun h => hpath (List.contains_iff_mem.mp h),
        if_pos ⟨rfl, hpath⟩]
      rfl
  · rw [if_neg fun h => hr (eq_of_beq h), if_neg fun h => hr h.1]
    rfl

/-- What is noted is there, and what was there stays. -/
theorem mem_pathsOf_record {s : Search α} {router r : α} {path p : String} :
    p ∈ (s.record router path).pathsOf r ↔ p ∈ s.pathsOf r ∨ (r = router ∧ p = path) := by
  rw [pathsOf_record]
  split
  · rename_i h
    rw [List.mem_append, List.mem_singleton]
    exact or_congr_right ⟨fun hp => ⟨h.1, hp⟩, And.right⟩
  · rename_i h
    refine ⟨.inl, fun hp => hp.elim id ?_⟩
    rintro ⟨rfl, rfl⟩
    exact Classical.not_not.mp fun hnot => h ⟨rfl, hnot⟩

/-- No path is noted twice. -/
theorem nodup_pathsOf_record {s : Search α} {r : α} (h : (s.pathsOf r).Nodup) (router : α)
    (path : String) : ((s.record router path).pathsOf r).Nodup := by
  rw [pathsOf_record]
  split
  · rename_i hnew
    obtain ⟨rfl, hpath⟩ := hnew
    refine List.nodup_append.mpr ⟨h, List.nodup_cons.mpr ⟨List.not_mem_nil, List.nodup_nil⟩, ?_⟩
    rintro p hp _ hmem rfl
    exact hpath (List.mem_singleton.mp hmem ▸ hp)
  · exact h

end Search

/-! ## A whole search

`Progress` is what the search keeps from its first visit to its last.  It looks back, from what was
seen or found to the visits that account for it, and says nothing of what will be found;
completeness is read off it at the end, when nothing is queued any more. -/

namespace MountGraph

/-- A visit was made: its path is found, and what is mounted in its router was entered. -/
structure Expanded (g : MountGraph α) (s : Search α) (v : Visit α) : Prop where
  found : g.reachedBy v ∈ s.pathsOf v.router
  entered : ∀ m ∈ g.linksOf v.router, m.child ∉ v.onWay →
    (m.child, join (g.reachedBy v) m.path) ∈ s.seen

/-- What holds all along the search. -/
structure Progress (g : MountGraph α) (queue : List (Visit α)) (s : Search α) : Prop where
  queued : ∀ v ∈ queue, g.Way v
  roots_seen : ∀ r ∈ g.roots, (r, "") ∈ s.seen
  seen_traced : ∀ e ∈ s.seen, ∃ v, g.Way v ∧ (v.router, v.path) = e ∧
    (v ∈ queue ∨ g.Expanded s v)
  found_traced : ∀ r, ∀ p ∈ s.pathsOf r, ∃ v, g.Way v ∧ v.router = r ∧ g.reachedBy v = p
  found_nodup : ∀ r, (s.pathsOf r).Nodup
  found_some : ∀ r ∈ Dict.keys s.found, s.pathsOf r ≠ []
  keys_nodup : (Dict.keys s.found).Nodup

section

variable {g : MountGraph α} {v : Visit α} {queue : List (Visit α)} {s : Search α}

/-- What the search knows after one more visit. -/
def after (g : MountGraph α) (v : Visit α) (s : Search α) : Search α :=
  { s.record v.router (g.reachedBy v) with
    seen := (Search.enterAll (g.reachedBy v) v.onWay (g.linksOf v.router) s.seen).2 }

/-- The visits that one more visit leads to. -/
def enteredFrom (g : MountGraph α) (v : Visit α) (s : Search α) : List (Visit α) :=
  (Search.enterAll (g.reachedBy v) v.onWay (g.linksOf v.router) s.seen).1

/-- The search makes the first visit of its queue and goes on with those behind it. -/
theorem spread_cons : g.spread (v :: queue) s
    = g.spread (queue ++ g.enteredFrom v s) (g.after v s) := by
  rw [spread]
  rfl

/-- **A run lemma for the search**: what every visit keeps of the queue and of what is known holds when
    the queue is empty.  The induction is on the visits that are made, the order in which the search
    ends (`spread.induct`). -/
theorem spread_induction {P : List (Visit α) → Search α → Prop}
    (step : ∀ v queue s, P (v :: queue) s → P (queue ++ g.enteredFrom v s) (g.after v s))
    (h : P queue s) : P [] (g.spread queue s) := by
  induction queue, s using spread.induct g with
  | case1 s =>
    rw [spread]
    exact h
  | case2 v queue s reached entered ih =>
    rw [spread_cons]
    exact ih (step v queue s h)

/-- What was seen stays seen. -/
theorem seen_after {e : α × String} (h : e ∈ s.seen) : e ∈ (g.after v s).seen := by
  have hentered := g.entered_enterAll v (g.linksOf v.router) s.seen
  show e ∈ (Search.enterAll (g.reachedBy v) v.onWay (g.linksOf v.router) s.seen).2
  rw [hentered.seen_eq]
  exact List.mem_append_left _ h

theorem Expanded.after {w : Visit α} (h : g.Expanded s w) : g.Expanded (g.after v s) w :=
  ⟨Search.mem_pathsOf_record.mpr (.inl h.found),
    fun m hm hfresh => seen_after (h.entered m hm hfresh)⟩

/-- The visit that is made is expanded. -/
theorem expanded_after : g.Expanded (g.after v s) v :=
  ⟨Search.mem_pathsOf_record.mpr (.inr ⟨rfl, rfl⟩),
    (g.entered_enterAll v (g.linksOf v.router) s.seen).covered⟩

/-- **One visit** preserves what holds along the search.  The visits that it enters are ways; what
    was on the queue stays there, but for the visit at hand, which is expanded now. -/
theorem Progress.step (h : g.Progress (v :: queue) s) :
    g.Progress (queue ++ g.enteredFrom v s) (g.after v s) := by
  have hentered := g.entered_enterAll v (g.linksOf v.router) s.seen
  have hway : g.Way v := h.queued v (List.mem_cons_self ..)
  have hnew : ∀ w ∈ g.enteredFrom v s, g.Way w := by
    intro w hw
    obtain ⟨m, hm, hfresh, rfl⟩ := hentered.from_link w hw
    exact .mount hway hm hfresh
  constructor
  case queued =>
    intro w hw
    rcases List.mem_append.mp hw with hw | hw
    · exact h.queued w (List.mem_cons_of_mem _ hw)
    · exact hnew w hw
  case roots_seen => exact fun r hr => seen_after (h.roots_seen r hr)
  case seen_traced =>
    intro e he
    have he : e ∈ (Search.enterAll (g.reachedBy v) v.onWay (g.linksOf v.router) s.seen).2 := he
    rw [hentered.seen_eq] at he
    rcases List.mem_append.mp he with he | he
    · obtain ⟨w, hw, heq, hqueue | hexpanded⟩ := h.seen_traced e he
      · rcases List.mem_cons.mp hqueue with rfl | hqueue
        · exact ⟨w, hw, heq, .inr expanded_after⟩
        · exact ⟨w, hw, heq, .inl (List.mem_append_left _ hqueue)⟩
      · exact ⟨w, hw, heq, .inr hexpanded.after⟩
    · obtain ⟨w, hw, heq⟩ := List.mem_map.mp he
      exact ⟨w, hnew w hw, heq, .inl (List.mem_append_right _ hw)⟩
  case found_traced =>
    intro r p hp
    rcases Search.mem_pathsOf_record.mp hp with hp | ⟨rfl, rfl⟩
    · exact h.found_traced r p hp
    · exact ⟨v, hway, rfl, rfl⟩
  case found_nodup => exact fun r => Search.nodup_pathsOf_record (h.found_nodup r) _ _
  case found_some =>
    intro r hr
    rcases Dict.mem_keys_put.mp hr with rfl | hr
    · exact List.ne_nil_of_mem (Search.mem_pathsOf_record.mpr (.inr ⟨rfl, rfl⟩))
    · obtain ⟨p, hp⟩ := List.exists_mem_of_ne_nil _ (h.found_some r hr)
      exact List.ne_nil_of_mem (Search.mem_pathsOf_record.mpr (.inl hp))
  case keys_nodup => exact Dict.nodup_keys_put h.keys_nodup _ _

/-- **A whole search** preserves it. -/
theorem Progress.run (h : g.Progress queue s) : g.Progress [] (g.spread queue s) :=
  spread_induction (fun _ _ _ h => h.step) h

end

/-- The visits that a search begins with. -/
def firstVisits (g : MountGraph α) : List (Visit α) := g.roots.map fun r => ⟨r, "", [r]⟩

/-- What a search knows at the beginning: the roots are entered. -/
def start (g : MountGraph α) : Search α := ⟨g.roots.map (·, ""), []⟩

/-- All that the search finds. -/
def searched (g : MountGraph α) : Search α := g.spread g.firstVisits g.start

/-- At the beginning the roots are seen and queued, and nothing is found. -/
theorem progress_start (g : MountGraph α) : g.Progress g.firstVisits g.start := by
  constructor
  case queued =>
    intro v hv
    obtain ⟨r, hr, rfl⟩ := List.mem_map.mp hv
    exact .root hr
  case roots_seen => exact fun r hr => List.mem_map_of_mem hr
  case seen_traced =>
    intro e he
    obtain ⟨r, hr, rfl⟩ := List.mem_map.mp he
    exact ⟨_, .root hr, rfl, .inl (List.mem_map_of_mem hr)⟩
  case found_traced => exact fun r p hp => absurd hp (List.not_mem_nil)
  case found_nodup => exact fun r => List.nodup_nil
  case found_some => exact fun r hr => absurd hr (List.not_mem_nil)
  case keys_nodup => exact List.nodup_nil

theorem progress_searched (g : MountGraph α) : g.Progress [] g.searched := g.progress_start.run

/-- At the end, all that was entered has been gone on from. -/
theorem exists_expanded (g : MountGraph α) {e : α × String} (he : e ∈ g.searched.seen) :
    ∃ v, g.Way v ∧ (v.router, v.path) = e ∧ g.Expanded g.searched v := by
  obtain ⟨v, hway, heq, hqueue | hexpanded⟩ := g.progress_searched.seen_traced e he
  · exact absurd hqueue (List.not_mem_nil)
  · exact ⟨v, hway, heq, hexpanded⟩

/-! ## The outcome

The search notes nothing for routers that it does not reach.  They get their own base path, as if
they were mounted nowhere. -/

/-- The paths of a router that nothing leads to. -/
def basePaths (base : String) : List String := [join "" base]

/-- What the search has found, and a path for every router besides. -/
theorem resolve_eq (g : MountGraph α) : g.resolve
    = g.routers.foldl (fun d e => Dict.putNew d e.1 (basePaths e.2)) g.searched.found := rfl

/-- A router keeps what was found for it; one without anything gets its own base path. -/
theorem get?_resolve (g : MountGraph α) (r : α) : Dict.get? g.resolve r
    = (Dict.get? g.searched.found r).or ((Dict.get? g.routers r).map basePaths) :=
  Dict.get?_foldl_putNew basePaths g.routers g.searched.found r

/-- **The outcome has every router once**, and nothing else. -/
theorem keys_resolve_perm (g : MountGraph α) (hrouters : (Dict.keys g.routers).Nodup) :
    (Dict.keys g.resolve).Perm (Dict.keys g.routers) := by
  have hfinished := g.progress_searched
  rw [resolve_eq]
  refine (List.perm_ext_iff_of_nodup ?_ hrouters).mpr fun r => ?_
  · exact Dict.nodup_keys_foldl_putNew basePaths hfinished.keys_nodup
  · refine (Dict.mem_keys_foldl_putNew basePaths).trans ⟨fun h => h.elim (fun hr => ?_) id, .inr⟩
    obtain ⟨p, hp⟩ := List.exists_mem_of_ne_nil _ (hfinished.found_some r hr)
    obtain ⟨v, hway, rfl, -⟩ := hfinished.found_traced r p hp
    exact hway.known

/-- A router that some path is found for keeps the paths that are found. -/
theorem get?_resolve_of_found {g : MountGraph α} {r : α} (h : g.searched.pathsOf r ≠ []) :
    Dict.get? g.resolve r = some (g.searched.pathsOf r) := by
  rw [get?_resolve]
  rw [Search.pathsOf] at h ⊢
  cases hfound : Dict.get? g.searched.found r with
  | none =>
    rw [hfound] at h
    exact absurd rfl h
  | some paths => rfl

/-- A router has at least one path, and each once. -/
theorem paths_of_get?_resolve {g : MountGraph α} {r : α} {paths : List String}
    (h : Dict.get? g.resolve r = some paths) : paths ≠ [] ∧ paths.Nodup := by
  rw [get?_resolve] at h
  cases hfound : Dict.get? g.searched.found r with
  | some found =>
    rw [hfound] at h
    obtain rfl : found = paths := Option.some.inj h
    have hpaths : g.searched.pathsOf r = found := congrArg (Option.getD · []) hfound
    have hkey : r ∈ Dict.keys g.searched.found := Dict.mem_keys_of_get? hfound
    rw [← hpaths]
    exact ⟨g.progress_searched.found_some r hkey, g.progress_searched.found_nodup r⟩
  | none =>
    rw [hfound] at h
    obtain ⟨base, -, rfl⟩ := Option.map_eq_some_iff.mp h
    exact ⟨List.cons_ne_nil _ _, List.pairwise_singleton _ _⟩

end MountGraph

end RouteAtlas.Route
