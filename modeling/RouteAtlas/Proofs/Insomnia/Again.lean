/-
  Merging into what a merge wrote.

  `mergeResources_written`: the fresh export merged into a written one gives the written one.  The
  merge is followed part by part:

  1. **What is known** - the new names take every fresh identifier to the one written for its place;
     the written environment is found under its own identifier, and every request under the key of
     its endpoint (`knownOf_written`).

  2. **Entry by entry** - so every fresh resource becomes the written one (`refresh_written`).

  3. **What is gone** - the requests under other keys are the leftovers, in their order.  Each is
     marked already and in a folder of the export, so it is put where it is (`leftovers_written`).

  4. **What passes** - of all resources only those behind the leftovers pass (`passing_written`).
-/
import RouteAtlas.Proofs.Insomnia.Written

namespace RouteAtlas.Insomnia

open Persisted (Fault lookupKey lookupKey_of_key lookupKey_eq_ok_iff bind_eq_ok_iff ok_bind
  pure_eq_ok_iff mapM_eq_ok_of_forall mapM_eq_ok_iff)
open Resource (isA ofKind fieldOrNull)

/-! ## Requests by key

A merge finds persisted requests by their keys.  Where the keys are all different, a written export
gives back exactly the requests that were written. -/

/-- The keys of two lists of resources are those of either. -/
theorem keyed_append (rs ss : List Resource) : keyed (rs ++ ss) = keyed rs ++ keyed ss :=
  List.filterMap_append ..

/-- A request is listed under the key that it has, and not without one. -/
theorem mem_keyed {rs : List Resource} {key : String} {r : Resource} :
    (key, r) ∈ keyed rs ↔ r ∈ rs ∧ key? r = .ok (some key) := by
  rw [keyed, List.mem_filterMap, ← Persisted.given_eq_some_iff]
  constructor
  · rintro ⟨r', hr', h⟩
    obtain ⟨k, hk, heq⟩ := Option.map_eq_some_iff.mp h
    obtain ⟨rfl, rfl⟩ := Prod.mk.inj heq
    exact ⟨hr', hk⟩
  · rintro ⟨hr, hk⟩
    exact ⟨r, hr, by rw [hk]; rfl⟩

/-- The persisted requests are those with a key; the last one with a key is kept. -/
theorem persisted_eq_ok_iff {rs : List Resource} {previous : Dict Resource} :
    persisted rs = .ok previous ↔ (∀ r ∈ ofKind "request" rs, ∃ key, key? r = .ok key) ∧
      previous = Dict.ofList (keyed (ofKind "request" rs)) := by
  have hkeyed : ((ofKind "request" rs).map fun r =>
      (Persisted.given key? r).map (·, r)).filterMap id = keyed (ofKind "request" rs) :=
    List.filterMap_map ..
  rw [persisted, bind_eq_ok_iff]
  constructor
  · rintro ⟨entries, h, hprevious⟩
    obtain ⟨hall, rfl⟩ := Persisted.mapM_keyed_eq_ok_iff.mp h
    rw [hkeyed] at hprevious
    exact ⟨hall, (pure_eq_ok_iff.mp hprevious).symm⟩
  · rintro ⟨hall, rfl⟩
    refine ⟨_, Persisted.mapM_keyed_eq_ok_iff.mpr ⟨hall, rfl⟩, ?_⟩
    rw [hkeyed]
    rfl

/-- Where every request has a key, none is left out. -/
theorem keyed_values {rs : List Resource} (h : ∀ r ∈ rs, ∃ key, key? r = .ok (some key)) :
    (keyed rs).map (·.2) = rs := by
  induction rs with
  | nil => rfl
  | cons r rs ih =>
    obtain ⟨key, hkey⟩ := h r (List.mem_cons_self ..)
    rw [keyed, List.filterMap_cons, Persisted.given_eq_some_iff.mpr hkey]
    show r :: (keyed rs).map (·.2) = _
    rw [ih fun r' hr' => h r' (List.mem_cons_of_mem _ hr')]

/-- The keys of the fresh requests are those of the endpoints.  A folder among the entries is passed
    over on both sides, and the workspace and its environment come before all entries. -/
theorem keys_fresh (settings : Settings) (endpoints : List Endpoint) :
    (ofKind "request" (resources settings endpoints)).mapM key?
      = .ok (endpoints.map fun e => some (requestKey settings.serviceNames e)) := by
  have hall : ∀ es : List Entry,
      (ofKind "request" (es.map (Entry.fresh settings.serviceNames (workspaceOf settings)))).mapM key?
        = .ok ((es.filterMap Entry.endpoint?).map fun e =>
            some (requestKey settings.serviceNames e)) := by
    intro es
    induction es with
    | nil => rfl
    | cons entry es ih =>
      cases entry with
      | folder path =>
        rw [List.map_cons, ofKind_cons_of_not rfl, ih]
        rfl
      | request path e =>
        rw [List.map_cons, Entry.fresh, ofKind_cons_of_isA (isA_requestOf ..), List.mapM_cons,
          key?_requestOf, ok_bind, ih]
        rfl
  rw [resources_eq, ofKind_cons_of_not rfl, ofKind_cons_of_not rfl, hall, allEntries,
    endpoints_entries]

section

variable {settings : Settings} {endpoints : List Endpoint} {id : List String → Json}
  {environment : Resource} {rest leftovers passing : List Resource}
  (h : Written settings endpoints id environment rest leftovers passing)
include h

/-- The keys of what is written: those of the endpoints, and behind them those that are gone. -/
theorem keys_written : Dict.keys (keyed (ofKind "request" rest ++ leftovers))
    = endpoints.map (requestKey settings.serviceNames) ++ Dict.keys (keyed leftovers) := by
  have hrest := keyed_of_holds h.holds
  rw [allEntries, endpoints_entries] at hrest
  rw [keyed_append, Dict.keys, List.map_append]
  exact congrArg (· ++ _) hrest

/-- No key is written twice: the endpoints' differ by assumption, and what is gone has none of them. -/
theorem nodup_keys_written (hkeys : (endpoints.map (requestKey settings.serviceNames)).Nodup) :
    (Dict.keys (keyed (ofKind "request" rest ++ leftovers))).Nodup := by
  rw [keys_written h]
  refine List.nodup_append.mpr ⟨hkeys, h.distinct, ?_⟩
  rintro key hkey _ hgone rfl
  exact h.gone key hgone hkey

end

/-! ## What is known

The second merge looks up workspace, environment, folders and requests, and finds each where the
first one wrote it. -/

/-- Resources that are read back as values are these resources. -/
theorem ofValues_map_obj (rs : List Resource) : Resource.ofValues (rs.map .obj) = rs := by
  rw [Resource.ofValues, List.filterMap_map]
  exact List.filterMap_some

/-- What the second merge knows. -/
structure KnowsWritten (settings : Settings) (endpoints : List Endpoint) (id : List String → Json)
    (environment : Resource) (rest leftovers : List Resource) (known : Known) : Prop where
  place : ∀ p ∈ [] :: placesOf settings endpoints, placeId known.names settings p = id p
  environment_eq : Dict.get? known.environments (newName known.names (environmentId settings))
    = some environment
  environment_id : Dict.get? environment "_id" = some (newName known.names (environmentId settings))
  requests : known.requests = keyed (ofKind "request" rest ++ leftovers)

section

variable {settings : Settings} {endpoints : List Endpoint} {id : List String → Json}
  {environment : Resource} {rest leftovers passing : List Resource}
  (h : Written settings endpoints id environment rest leftovers passing)
include h

/-- Every request that is written has a key. -/
theorem key?_of_mem_written {r : Resource} (hr : r ∈ ofKind "request" rest ++ leftovers) :
    ∃ key, key? r = .ok (some key) := by
  rcases List.mem_append.mp hr with hr | hr
  · obtain ⟨hmem, hkind⟩ := List.mem_filter.mp hr
    obtain ⟨entry, -, hholds⟩ := Persisted.exists_of_forall₂_right h.holds hmem
    cases entry with
    | folder path =>
      obtain rfl : r = folderAt id path := hholds
      exact absurd hkind (by rw [isA_false (show isA "request_group" _ = true from rfl) (by decide)]; decide)
    | request path e => exact ⟨_, hholds.2.1⟩
  · exact (h.left r hr).key

/-- The persisted requests of a written export are those that were written, in their order. -/
theorem persisted_written (hkeys : (endpoints.map (requestKey settings.serviceNames)).Nodup) :
    persisted (workspaceAt settings (id []) :: environment :: rest ++ leftovers ++ passing)
      = .ok (keyed (ofKind "request" rest ++ leftovers)) := by
  rw [persisted_eq_ok_iff, requests_written h]
  refine ⟨fun r hr => ?_, (Dict.ofList_eq_self (nodup_keys_written h hkeys)).symm⟩
  obtain ⟨key, hkey⟩ := key?_of_mem_written h hr
  exact ⟨_, hkey⟩

/-- The written environment comes first under its identifier.  Environments that pass through have
    other identifiers than everything merged, so none of them is entered over it. -/
theorem environment_written {i : Json} (hi : Dict.get? environment "_id" = some i)
    (hself : (i == i) = true) : ∃ environments,
    (ofKind "environment"
        (workspaceAt settings (id []) :: environment :: rest ++ leftovers ++ passing)).mapM
      (fun e => do return (← lookupKey (fieldOrNull e "_id"), e)) = .ok environments ∧
      Dict.get? (Dict.ofList environments) i = some environment := by
  have hid : fieldOrNull environment "_id" = i := fieldOrNull_of_get? hi
  have hkey : i.kind.isKey = true := by
    have hall := h.ids environment (List.mem_append_left _
      (List.mem_cons_of_mem _ (List.mem_cons_self ..)))
    rwa [hid] at hall
  -- other environments pass only if their identifiers differ, so that none of them shadows this one
  have hpassing : ∀ e ∈ ofKind "environment" passing,
      (fieldOrNull e "_id").kind.isKey = true ∧ (i == fieldOrNull e "_id") = false := by
    intro e he
    obtain ⟨hmem, hkind⟩ := List.mem_filter.mp he
    rcases (h.passes e hmem).kind with hnone | ⟨-, hk, -, hkept⟩
    · exact absurd (hnone "environment" (by decide)) (by rw [hkind]; decide)
    · refine ⟨hk, Bool.eq_false_iff.mpr fun heq => ?_⟩
      have hsymm := Json.beq_symm_of_key hkey hk heq
      have hin : i ∈ idsOf (workspaceAt settings (id []) :: environment :: rest ++ leftovers) :=
        List.mem_map.mpr ⟨environment, List.mem_append_left _
          (List.mem_cons_of_mem _ (List.mem_cons_self ..)), hid⟩
      have hcontains := List.contains_iff_exists_mem_beq.mpr ⟨i, hin, hsymm⟩
      exact absurd (hcontains.symm.trans hkept) (by decide)
  have hmap := mapM_eq_ok_of_forall (f := fun e => do return (← lookupKey (fieldOrNull e "_id"), e))
    (g := fun e => (fieldOrNull e "_id", e)) (l := environment :: ofKind "environment" passing)
    fun e he => by
      have hk : (fieldOrNull e "_id").kind.isKey = true := by
        rcases List.mem_cons.mp he with rfl | he
        · rwa [hid]
        · exact (hpassing e he).1
      rw [lookupKey_of_key hk]
      rfl
  rw [environments_written h]
  refine ⟨_, hmap, ?_⟩
  rw [List.map_cons, hid]
  show Dict.get? (Dict.putAll [(i, environment)] _) i = _
  rw [Dict.putAll_cons_of_ne fun e he => by
    obtain ⟨r, hr, rfl⟩ := List.mem_map.mp he
    exact (hpassing r hr).2]
  rw [Dict.get?_cons, if_pos hself]

/-- **What is known**: the second merge finds everything where the first one wrote it.  The new
    names, the environments and the persisted requests are found one by one, each by a lemma above,
    and put together here. -/
theorem knownOf_written (hkeys : (endpoints.map (requestKey settings.serviceNames)).Nodup) :
    ∃ known, Known.of (resources settings endpoints)
        (workspaceAt settings (id []) :: environment :: rest ++ leftovers ++ passing) = .ok known ∧
      KnowsWritten settings endpoints id environment rest leftovers known := by
  obtain ⟨i, hi, hself⟩ := h.environment_id
  obtain ⟨environments, hmap, hget⟩ := environment_written h hi hself
  have hname : ∀ o ∈ some [] :: none :: (placesOf settings endpoints).map some,
      newName ((some [] :: none :: (placesOf settings endpoints).map some).map fun o =>
        (nameKey settings o, nameTarget id i o)) (nameKey settings o) = nameTarget id i o := by
    intro o ho
    rw [newName, Dict.get?_index (tells_nameKey h) (nameTarget id i) (fun _ ho => ho) ho]
    rfl
  have henv := hname none (List.mem_cons_of_mem _ (List.mem_cons_self ..))
  refine ⟨_, bind_eq_ok_iff.mpr ⟨_, newNames_written h hi, bind_eq_ok_iff.mpr ⟨_, hmap,
    bind_eq_ok_iff.mpr ⟨_, persisted_written h hkeys, rfl⟩⟩⟩, ?_, ?_, ?_, rfl⟩
  · intro p hp
    refine hname (some p) ?_
    rcases List.mem_cons.mp hp with rfl | hp
    · exact List.mem_cons_self ..
    · exact List.mem_cons_of_mem _ (List.mem_cons_of_mem _ (List.mem_map_of_mem hp))
  · exact (congrArg _ henv).trans hget
  · exact hi.trans (congrArg some henv.symm)

/-! ## Entry by entry

A fresh resource is refreshed with what the first merge made of it.  That this gives the same
resource again is what `Holds` says of each entry. -/

/-- What stands for an entry is written again.  A folder gets its old identifier and that of its
    parent back; a request is found under its key, and it was written settled. -/
theorem refresh_entry (hkeys : (endpoints.map (requestKey settings.serviceNames)).Nodup)
    {known : Known}
    (hknown : KnowsWritten settings endpoints id environment rest leftovers known)
    {entry : Entry} (hentry : entry ∈ allEntries settings endpoints) {r : Resource} (hr : r ∈ rest)
    (hholds : Holds settings.serviceNames (workspaceOf settings) id entry r) :
    refresh known (.obj (entry.fresh settings.serviceNames (workspaceOf settings))) = .ok r := by
  cases entry with
  | folder path =>
    obtain rfl : r = folderAt id path := hholds
    have hplace : path ∈ [] :: placesOf settings endpoints :=
      List.mem_cons_of_mem _ (mem_foldersAmong.mpr hentry)
    rw [refresh_folder known settings (ne_root_of_folder_mem hentry), folderAt, folderAt, hknown.place _ hplace,
      hknown.place _ ((rooted_allEntries settings endpoints).dropLast_mem hplace)]
  | request path e =>
    obtain ⟨hkind, hkey, hsettled⟩ := hholds
    have hmem : (requestKey settings.serviceNames e, r) ∈ keyed (ofKind "request" rest ++ leftovers) :=
      mem_keyed.mpr ⟨List.mem_append_left _ (List.mem_filter.mpr ⟨hr, hkind⟩), hkey⟩
    rw [refresh_request, hknown.requests, Dict.get?_of_mem (nodup_keys_written h hkeys) hmem]
    show mergeRequest _ r = _
    rw [hknown.place _ (entries_placed hentry)]
    exact hsettled _

/-- All fresh resources become the written ones, in their order.  The workspace and the environment
    are refreshed by themselves, the entries and what stands for them in step. -/
theorem refresh_written (hkeys : (endpoints.map (requestKey settings.serviceNames)).Nodup)
    {known : Known}
    (hknown : KnowsWritten settings endpoints id environment rest leftovers known) :
    ((resources settings endpoints).map .obj).mapM (refresh known)
      = .ok (workspaceAt settings (id []) :: environment :: rest) := by
  have hroot := hknown.place [] (List.mem_cons_self ..)
  have hentries : ∀ {es : List Entry} {rs : List Resource},
      (∀ entry ∈ es, entry ∈ allEntries settings endpoints) → (∀ r ∈ rs, r ∈ rest) →
      List.Forall₂ (Holds settings.serviceNames (workspaceOf settings) id) es rs →
      List.Forall₂ (fun entry r => refresh known
        (.obj (Entry.fresh settings.serviceNames (workspaceOf settings) entry)) = .ok r) es rs := by
    intro es rs hes hrs hall
    induction hall with
    | nil => exact .nil
    | cons hr _ ih =>
      exact .cons (refresh_entry h hkeys hknown (hes _ (List.mem_cons_self ..))
          (hrs _ (List.mem_cons_self ..)) hr)
        (ih (fun entry he => hes entry (List.mem_cons_of_mem _ he))
          fun r hr => hrs r (List.mem_cons_of_mem _ hr))
  rw [resources_eq, mapM_eq_ok_iff, List.map_cons, List.map_cons, List.map_map,
    List.forall₂_cons, List.forall₂_cons, List.forall₂_map_left_iff]
  refine ⟨?_, ?_, hentries (fun _ he => he) (fun _ hr => hr) h.holds⟩
  · rw [refresh_workspace, hroot]
  · rw [refresh_environment, hknown.environment_eq, hroot]
    exact h.environment_settled _

/-! ## What is gone

A request that no endpoint has any more is left over by the second merge as it was by the first: it
is marked already, and its folder is one of the export. -/

/-- The requests under other keys are the leftovers.  The written requests have the keys of the
    endpoints and the leftovers have none of them, so the filter drops the former and keeps the
    latter. -/
theorem gone_written {known : Known}
    (hknown : KnowsWritten settings endpoints id environment rest leftovers known) :
    known.requests.filter (fun e =>
        !(endpoints.map fun e => some (requestKey settings.serviceNames e)).contains (some e.1))
      = keyed leftovers := by
  have hcontains : ∀ key : String,
      (endpoints.map fun e => some (requestKey settings.serviceNames e)).contains (some key) = true ↔
        key ∈ endpoints.map (requestKey settings.serviceNames) := by
    intro key
    rw [List.contains_iff_mem, List.mem_map, List.mem_map]
    refine exists_congr fun e => and_congr_right fun _ => ?_
    exact Option.some_inj
  have hrest := keyed_of_holds h.holds
  rw [allEntries, endpoints_entries] at hrest
  rw [hknown.requests, keyed_append, List.filter_append]
  have hfirst : (keyed (ofKind "request" rest)).filter (fun e =>
      !(endpoints.map fun e => some (requestKey settings.serviceNames e)).contains (some e.1)) = [] := by
    refine List.filter_eq_nil_iff.mpr fun e he => ?_
    have hkey : e.1 ∈ endpoints.map (requestKey settings.serviceNames) :=
      hrest ▸ List.mem_map_of_mem he
    rw [(hcontains e.1).mpr hkey]
    decide
  have hsecond : (keyed leftovers).filter (fun e =>
      !(endpoints.map fun e => some (requestKey settings.serviceNames e)).contains (some e.1))
        = keyed leftovers := by
    refine List.filter_eq_self.mpr fun e he => ?_
    have hno : e.1 ∉ endpoints.map (requestKey settings.serviceNames) :=
      h.gone e.1 (List.mem_map_of_mem he)
    rw [Bool.eq_false_iff.mpr fun hc => hno ((hcontains e.1).mp hc)]
    rfl
  rw [hfirst, hsecond, List.nil_append]

/-- A leftover is put where it is. -/
theorem leftover_written {l : Resource} (hl : l ∈ leftovers) :
    leftover (([] :: placesOf settings endpoints).map fun p => (id p, p.map .str))
      (([] :: placesOf settings endpoints).map fun p => (p.map .str, id p)) l = .ok l := by
  have hleft := h.left l hl
  obtain ⟨name, hname, hmarked⟩ := hleft.name
  obtain ⟨path, hpath, hparent⟩ := hleft.parent
  have hold := Dict.get?_index h.identified.tells (fun p => p.map Json.str) (fun _ hp => hp) hpath
  have hnew := Dict.get?_index (tells_texts ([] :: placesOf settings endpoints)) id
    (fun _ hp => hp) hpath
  rw [leftover, hname, hmarked, ok_bind, fieldOrNull_of_get? hparent,
    lookupKey_of_key (h.identified.key path hpath), ok_bind, hold, Option.getD_some,
    lookupPath_texts, ok_bind, hnew]
  show Except.ok (Dict.putAll l [("name", name), ("parentId", id path)]) = _
  refine congrArg Except.ok (Dict.putAll_eq_self fun e he => ?_)
  rcases List.mem_cons.mp he with rfl | he
  · exact hname
  · obtain rfl := List.mem_singleton.mp he
    exact hparent

/-- **What is gone** is left over once more, in the same order and at the same place.

    The folders of the merged part are those of the whole, and so each leftover finds the folder it
    already lies in. -/
theorem leftovers_written {known : Known}
    (hknown : KnowsWritten settings endpoints id environment rest leftovers known) :
    Insomnia.leftovers known (resources settings endpoints)
        (workspaceAt settings (id []) :: environment :: rest ++ leftovers ++ passing)
        (workspaceAt settings (id []) :: environment :: rest)
      = .ok leftovers := by
  have hmerged : folderPaths (workspaceAt settings (id []) :: environment :: rest)
      = .ok (([] :: placesOf settings endpoints).map fun p => (id p, p.map .str)) := by
    have hpaths := folderPaths_written (Written.merged h)
    rwa [List.append_nil, List.append_nil] at hpaths
  have hnodup := (rooted_allEntries settings endpoints).nodup_places
  have hvalues := keyed_values fun l hl => (h.left l hl).key
  have hstep : ∀ e ∈ keyed leftovers,
      leftover (([] :: placesOf settings endpoints).map fun p => (id p, p.map .str))
        (([] :: placesOf settings endpoints).map fun p => (p.map .str, id p)) e.2 = .ok e.2 := by
    rintro ⟨key, l⟩ he
    exact leftover_written h (mem_keyed.mp he).1
  have hfixed := mapM_eq_ok_of_forall hstep
  rw [hvalues] at hfixed
  rw [Insomnia.leftovers, keys_fresh, ok_bind, folderPaths_written h, ok_bind, hmerged, ok_bind,
    foldersByPath_eq id hnodup, ok_bind]
  rw [← gone_written h hknown] at hfixed
  exact hfixed

end

/-! ## What passes

A resource passes if it is of a kind that a synthesis never makes, or an environment that is not
there yet.  Nothing that was merged passes, and what passed once passes again. -/

/-- Does a resource pass through beside others with the identifiers `kept`? -/
def passesBeside (kept : List Json) (r : Resource) : Bool :=
  if !ownKinds.any fun k => isA k r then true
  else if isA "environment" r then !kept.contains (fieldOrNull r "_id")
  else false

/-- A resource of a kind that a synthesis makes is counted among these. -/
theorem any_ownKinds {r : Resource} {kind : String} (hown : kind ∈ ownKinds)
    (h : isA kind r = true) : (ownKinds.any fun k => isA k r) = true :=
  List.any_eq_true.mpr ⟨kind, hown, h⟩

/-- Of the kinds that a synthesis makes, only environments pass. -/
theorem isA_false_of_passesBeside {kept : List Json} {r : Resource} (h : passesBeside kept r = true)
    {kind : String} (hown : kind ∈ ownKinds) (hne : kind ≠ "environment") : isA kind r = false := by
  refine Bool.eq_false_iff.mpr fun hkind => ?_
  rw [passesBeside, any_ownKinds hown hkind, isA_false hkind hne] at h
  exact absurd h Bool.false_ne_true

/-- What does not pass is of one of these kinds, and an environment is there already.  The kinds
    that a merge writes itself are four, and only environments are compared with what is kept. -/
theorem own_of_not_passesBeside {kept : List Json} {r : Resource} (h : passesBeside kept r = false) :
    isA "workspace" r = true ∨ isA "request_group" r = true ∨ isA "request" r = true ∨
      isA "environment" r = true ∧ kept.contains (fieldOrNull r "_id") = true := by
  rw [passesBeside] at h
  cases hown : ownKinds.any fun k => isA k r with
  | false =>
    rw [hown, Bool.not_false, if_pos rfl] at h
    exact absurd h.symm Bool.false_ne_true
  | true =>
    obtain ⟨kind, hmem, hkind⟩ := List.any_eq_true.mp hown
    rw [hown] at h
    rcases List.mem_cons.mp hmem with rfl | hmem
    · exact .inl hkind
    · rcases List.mem_cons.mp hmem with rfl | hmem
      · rw [hkind] at h
        exact .inr (.inr (.inr ⟨hkind, by simpa using h⟩))
      · rcases List.mem_cons.mp hmem with rfl | hmem
        · exact .inr (.inl hkind)
        · obtain rfl := List.mem_singleton.mp hmem
          exact .inr (.inr (.inl hkind))

/-- Only of an environment is the identifier looked up.  The left side is the step of the program as
    it stands: it faults where a value is looked up that is no key. -/
theorem passing_step_eq_ok_iff {kept : List Json} {r : Resource} {b : Bool} :
    (do
      let _ ← lookupKey (fieldOrNull r "_type")
      if !ownKinds.any fun k => isA k r then return true
      else if isA "environment" r then return !kept.contains (← lookupKey (fieldOrNull r "_id"))
      else return false : Except Fault Bool) = .ok b ↔
        ((fieldOrNull r "_type").kind.isKey = true ∧
          (isA "environment" r = true → (fieldOrNull r "_id").kind.isKey = true)) ∧
        b = passesBeside kept r := by
  have htail : (if !ownKinds.any fun k => isA k r then return true
      else if isA "environment" r then return !kept.contains (← lookupKey (fieldOrNull r "_id"))
      else return false : Except Fault Bool) = .ok b ↔
        (isA "environment" r = true → (fieldOrNull r "_id").kind.isKey = true) ∧
          b = passesBeside kept r := by
    rw [passesBeside]
    by_cases henv : isA "environment" r = true
    · rw [any_ownKinds (by decide) henv, henv]
      constructor
      · intro hok
        obtain ⟨i, hi, hb⟩ := bind_eq_ok_iff.mp hok
        obtain ⟨hkey, rfl⟩ := lookupKey_eq_ok_iff.mp hi
        exact ⟨fun _ => hkey, (pure_eq_ok_iff.mp hb).symm⟩
      · rintro ⟨hkey, rfl⟩
        exact bind_eq_ok_iff.mpr ⟨_, lookupKey_of_key (hkey rfl), rfl⟩
    · rw [if_neg henv, if_neg henv]
      refine Iff.trans ?_ (and_iff_right fun henv' => absurd henv' henv).symm
      cases ownKinds.any fun k => isA k r <;> exact pure_eq_ok_iff.trans eq_comm
  rw [bind_eq_ok_iff, and_assoc, ← htail]
  constructor
  · rintro ⟨_, htype, hok⟩
    exact ⟨(lookupKey_eq_ok_iff.mp htype).1, hok⟩
  · rintro ⟨htype, hok⟩
    exact ⟨_, lookupKey_of_key htype, hok⟩

/-- What passes through is read off kinds and identifiers, and the order stays. -/
theorem passing_eq_ok_iff {existing merged ps : List Resource} :
    passing existing merged = .ok ps ↔
      (∀ r ∈ merged, (fieldOrNull r "_id").kind.isKey = true) ∧
      (∀ r ∈ existing, (fieldOrNull r "_type").kind.isKey = true ∧
        (isA "environment" r = true → (fieldOrNull r "_id").kind.isKey = true)) ∧
      ps = existing.filter (passesBeside (idsOf merged)) := by
  have hids : ∀ (r : Resource) (j : Json), lookupKey (fieldOrNull r "_id") = .ok j ↔
      (fieldOrNull r "_id").kind.isKey = true ∧ j = fieldOrNull r "_id" :=
    fun _ _ => lookupKey_eq_ok_iff
  rw [passing, bind_eq_ok_iff]
  simp only [Persisted.mapM_eq_ok_iff_of_step hids,
    Persisted.filterM_eq_ok_iff_of_step fun _ _ => passing_step_eq_ok_iff]
  constructor
  · rintro ⟨_, ⟨hkept, rfl⟩, hall⟩
    exact ⟨hkept, hall⟩
  · rintro ⟨hkept, hall⟩
    exact ⟨_, ⟨hkept, rfl⟩, hall⟩

section

variable {settings : Settings} {endpoints : List Endpoint} {id : List String → Json}
  {environment : Resource} {rest leftovers passing : List Resource}
  (h : Written settings endpoints id environment rest leftovers passing)
include h

/-- What is merged is the environment, or of another kind that a synthesis makes. -/
theorem kind_of_mem_merged {r : Resource}
    (hr : r ∈ workspaceAt settings (id []) :: environment :: rest ++ leftovers) :
    r = environment ∨ ∃ kind ∈ ownKinds, "environment" ≠ kind ∧ isA kind r = true := by
  rcases List.mem_append.mp hr with hr | hr
  · rcases List.mem_cons.mp hr with rfl | hr
    · exact .inr ⟨"workspace", by decide, by decide, rfl⟩
    · rcases List.mem_cons.mp hr with rfl | hr
      · exact .inl rfl
      · obtain ⟨entry, -, hholds⟩ := Persisted.exists_of_forall₂_right h.holds hr
        rcases isA_of_holds hholds with hk | hk
        · exact .inr ⟨"request_group", by decide, by decide, hk⟩
        · exact .inr ⟨"request", by decide, by decide, hk⟩
  · exact .inr ⟨"request", by decide, by decide, (h.left r hr).kind⟩

/-- What is merged does not pass: the environment is there already. -/
theorem not_passesBeside_merged {r : Resource}
    (hr : r ∈ workspaceAt settings (id []) :: environment :: rest ++ leftovers) :
    passesBeside (idsOf (workspaceAt settings (id []) :: environment :: rest ++ leftovers)) r
      = false := by
  obtain ⟨i, hi, hself⟩ := h.environment_id
  rcases kind_of_mem_merged h hr with rfl | ⟨kind, hown, hne, hk⟩
  · have hin : i ∈ idsOf (workspaceAt settings (id []) :: r :: rest ++ leftovers) :=
      List.mem_map.mpr ⟨r, hr, fieldOrNull_of_get? hi⟩
    rw [passesBeside, any_ownKinds (by decide) h.environment_kind, if_pos h.environment_kind,
      fieldOrNull_of_get? hi, List.contains_iff_exists_mem_beq.mpr ⟨i, hin, hself⟩]
    rfl
  · rw [passesBeside, any_ownKinds hown hk, isA_false hk hne.symm]
    rfl

/-- What was written behind the leftovers passes beside them: that is what `Passes` says of it. -/
theorem passesBeside_passing {r : Resource} (hr : r ∈ passing) :
    passesBeside (idsOf (workspaceAt settings (id []) :: environment :: rest ++ leftovers)) r
      = true := by
  rcases (h.passes r hr).kind with hnone | ⟨henv, -, -, hkept⟩
  · have hany : (ownKinds.any fun k => isA k r) = false := by
      refine List.any_eq_false.mpr fun kind hown => ?_
      rw [hnone kind hown]
      exact Bool.false_ne_true
    rw [passesBeside, hany]
    rfl
  · rw [passesBeside, any_ownKinds (by decide) henv, if_pos henv, hkept]
    rfl

/-- **What passes** are the resources behind the leftovers.

    Everything before the leftovers is of a merged kind or kept under its identifier, and the rest
    passed the first merge for reasons that still hold. -/
theorem passing_written :
    Insomnia.passing (workspaceAt settings (id []) :: environment :: rest ++ leftovers ++ passing)
        (workspaceAt settings (id []) :: environment :: rest ++ leftovers)
      = .ok passing := by
  have htype : ∀ {kind : String} {r : Resource}, isA kind r = true →
      (fieldOrNull r "_type").kind.isKey = true := by
    intro kind r hk
    rw [fieldOrNull_of_get? (isA_iff.mp hk)]
    rfl
  refine passing_eq_ok_iff.mpr ⟨h.ids, fun r hr => ?_, ?_⟩
  · rcases List.mem_append.mp hr with hr | hr
    · refine ⟨?_, fun _ => h.ids r hr⟩
      rcases kind_of_mem_merged h hr with rfl | ⟨kind, -, -, hk⟩
      · exact htype h.environment_kind
      · exact htype hk
    · refine ⟨(h.passes r hr).type, fun henv => ?_⟩
      rcases (h.passes r hr).kind with hnone | ⟨-, hkey, -, -⟩
      · exact absurd (hnone "environment" (by decide)) (by rw [henv]; decide)
      · exact hkey
  · rw [List.filter_append, List.filter_eq_nil_iff.mpr fun r hr => by
      rw [not_passesBeside_merged h hr]
      exact Bool.false_ne_true, List.nil_append,
      List.filter_eq_self.mpr fun r hr => passesBeside_passing h hr]

/-- **A written export merged into again is written again.** The four parts of a merge, what is
    known, the refreshed, the left over and the passing, each come out as they were
    written.  Without marks there was nothing left over. -/
theorem mergeResources_written
    (hkeys : (endpoints.map (requestKey settings.serviceNames)).Nodup) {mark : Bool}
    (hmark : mark = false → leftovers = []) :
    mergeResources ((resources settings endpoints).map .obj)
        (workspaceAt settings (id []) :: environment :: rest ++ leftovers ++ passing) mark
      = .ok (workspaceAt settings (id []) :: environment :: rest ++ leftovers ++ passing) := by
  obtain ⟨known, hknownOf, hknown⟩ := knownOf_written h hkeys
  rw [mergeResources, ofValues_map_obj, hknownOf, ok_bind, refresh_written h hkeys hknown, ok_bind]
  cases mark with
  | true =>
    rw [if_pos rfl, leftovers_written h hknown]
    refine bind_eq_ok_iff.mpr ⟨_, rfl, ?_⟩
    show (Insomnia.passing _ _ >>= _) = _
    rw [passing_written h]
    rfl
  | false =>
    obtain rfl := hmark rfl
    have hpassing := passing_written h
    rw [List.append_nil] at hpassing ⊢
    show (Insomnia.passing _ _ >>= _) = _
    rw [hpassing]
    rfl

end

end RouteAtlas.Insomnia
