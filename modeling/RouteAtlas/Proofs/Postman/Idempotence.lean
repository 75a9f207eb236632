/-
  Merging the same collection twice.

  ==== Problem ====

  Two runs on an unchanged project should write the same document.  The second run merges the same
  fresh collection into what the first one wrote.

  ==== Spec ====

  `merge_idempotent`: whatever the first merge had to merge into, the second one succeeds and
  changes nothing.

  ==== The crux ====

  The second merge sees another tree than the first: what is gone was moved, and the requests come
  in another order.  Three facts make it come out the same:

  1. **Lookup** - under each key of a fresh request the second merge finds what the first one made
     of that request, so refreshing gives the same tree (`refreshAll_again`).

  2. **What is gone** - the requests that are gone the second time are those that were put into the
     tree the first time, in the order of the tree, and marked already (`gone_again`).

  3. **Placement** - filling the tree with them in that order is filling it as before
     (`fill_arrivals`).
-/
import RouteAtlas.Proofs.Postman.Run

namespace RouteAtlas.Postman

open Persisted (bind_eq_ok_iff)
open Json (KeyPath)

/-- A fresh collection: a document with a tree of requests and folders, whose requests are complete
    and whose keys are all different. -/
structure FreshCollection (fresh : Dict Json) : Prop where
  info : ∃ info, Dict.get? fresh "info" = some info
  shared : ∃ shared, Dict.get? fresh "variable" = some shared
  items : ∃ values, Dict.get? fresh "item" = some (.arr values)
  proper : Proper (itemsOf fresh)
  keyable : Keyable (itemsOf fresh)
  distinct : (leafKeys (itemsOf fresh)).Nodup
  complete : ∀ l ∈ flatten (itemsOf fresh), CompleteItem l.2

section

variable {old fresh items refreshed : List Item} {markDeprecated : Bool}

/-- With different keys, every request is found under its own. -/
theorem get?_entries (h : (leafKeys items).Nodup) {l : FolderPath × Dict Json} {key : String}
    (hl : l ∈ flatten items) (hkey : Item.key? l.2 = .ok (some key)) :
    Dict.get? (Dict.ofList (entries items)) key = some l := by
  rw [Dict.ofList_eq_self h]
  exact Dict.get?_of_mem h (mem_entries.mpr ⟨hl, hkey⟩)

/-- What is found by key does not change when items are written and read back. -/
theorem entries_readBack (h : Readable items) : entries (readBack items) = entries items := by
  rw [entries, flatten_readBack h, entries]

theorem gone_readBack (h : Readable items) : gone (readBack items) fresh = gone items fresh := by
  rw [gone, entries_readBack h, gone]

/-! ## Merging a tree into itself

The first merge writes the fresh collection as it is.  So the second one merges it with itself. -/

/-- No key of a tree is gone from it. -/
theorem gone_self (items : List Item) : gone items items = [] := by
  refine List.eq_nil_iff_forall_not_mem.mpr fun e he => ?_
  obtain ⟨key, l⟩ := e
  obtain ⟨hget, hno⟩ := mem_gone.mp he
  exact hno (mem_leafKeys.mpr ⟨l, mem_of_get?_persisted hget⟩)

/-- A fresh tree merged into itself is the same tree: every request meets itself, and is complete. -/
theorem mergedTree_self (hproper : Proper items) (hkeyable : Keyable items)
    (hdistinct : (leafKeys items).Nodup) (hcomplete : ∀ l ∈ flatten items, CompleteItem l.2) :
    MergedTree items items markDeprecated items := by
  refine ⟨hkeyable, items, [], refreshAll_self hproper fun l hl => ?_, (fill_empty items).symm, ?_⟩
  · obtain ⟨key, hkey⟩ := hkeyable l hl
    cases key with
    | none => exact refreshLeaf_eq_ok_iff.mpr (.inr ⟨none, hkey, rfl, rfl⟩)
    | some key =>
      exact refreshLeaf_eq_ok_iff.mpr (.inl ⟨key, l.1, l.2, hkey, get?_entries hdistinct hl hkey,
        mergeLeaf_self (hcomplete l hl)⟩)
  · rw [gone_self]
    cases markDeprecated with
    | false => rfl
    | true => exact ⟨hkeyable, rfl⟩

/-! ## Merging into what was merged

The second merge looks up every fresh request among the refreshed ones and the leftovers.  Keys are
different, so it finds what the first one made of it; and what is gone is gone again. -/

/-- Looking up in what refreshing made of the requests gives the same again.  A request that was
    merged is merged again with the outcome, and one that was new meets itself. -/
theorem refreshAll_again {previous previous' : Dict (FolderPath × Dict Json)}
    (hcomplete : ∀ l ∈ flatten fresh, CompleteItem l.2)
    (h : refreshAll previous fresh = .ok refreshed)
    (hprevious : ∀ l ∈ flatten refreshed, ∀ key, Item.key? l.2 = .ok (some key) →
      Dict.get? previous' key = some l) : refreshAll previous' fresh = .ok refreshed := by
  refine refreshAll_congr h fun l hl fields' hrefresh => ?_
  obtain ⟨l', hl', -, hrefresh'⟩ := Persisted.exists_of_forall₂_left (flatten_refreshAll h) hl
  obtain rfl : l'.2 = fields' := Except.ok.inj (hrefresh'.symm.trans hrefresh)
  obtain ⟨headers, hheaders⟩ := (hcomplete l hl).header
  rcases refreshLeaf_eq_ok_iff.mp hrefresh with ⟨key, path, existing, hkey, -, hmerge⟩ |
    ⟨key, hkey, hnone, heq⟩
  · have hfound := hprevious l' hl' key (key?_mergeLeaf hmerge hkey)
    exact refreshLeaf_eq_ok_iff.mpr
      (.inl ⟨key, l'.1, l'.2, hkey, hfound, mergeLeaf_stable hmerge hheaders⟩)
  · cases key with
    | none => exact refreshLeaf_eq_ok_iff.mpr (.inr ⟨none, hkey, rfl, heq⟩)
    | some key =>
      have hfound := hprevious l' hl' key (heq ▸ hkey)
      refine refreshLeaf_eq_ok_iff.mpr (.inl ⟨key, l'.1, l'.2, hkey, hfound, ?_⟩)
      rw [heq]
      exact mergeLeaf_self (hcomplete l hl)

/-- What is put into a tree for keys that are gone is what is gone from that tree.  The requests in
    the tree have distinct keys, so being gone is a question of each request by itself, and it is
    answered by the filter. -/
theorem gone_fill {leftovers : Leftovers} (hdistinct : (leafKeys (fill leftovers refreshed)).Nodup)
    (hkeys : leafKeys refreshed = leafKeys fresh)
    (hleft : List.Forall₂ (fun g l => IsLeftover g.1 g.2 l) (gone old fresh) leftovers) :
    (gone (fill leftovers refreshed) fresh).map (·.2) = arrivals leftovers refreshed := by
  let isGone (leaf : Dict Json) : Bool :=
    (Item.keyGiven? leaf).any fun key => !(leafKeys fresh).contains key
  have hout : ∀ l ∈ flatten refreshed, isGone l.2 = false := by
    intro l hl
    show (Item.keyGiven? l.2).any _ = false
    cases hk : Item.keyGiven? l.2 with
    | none => rfl
    | some key =>
      have hmem : key ∈ leafKeys fresh :=
        hkeys ▸ mem_leafKeys.mpr ⟨l, hl, keyGiven?_eq_some_iff.mp hk⟩
      simpa using hmem
  have hin : ∀ l ∈ leftovers, isGone l.2 = true := by
    intro l hl
    obtain ⟨key, l₀, -, hno, hleftover⟩ := exists_gone_of_mem hleft hl
    show (Item.keyGiven? l.2).any _ = true
    rw [keyGiven?_eq_some_iff.mpr hleftover.key]
    simpa using hno
  rw [← filter_flatten_fill hout hin, gone, Dict.ofList_eq_self hdistinct, entries]
  -- an entry stays in `gone` exactly when its request passes the test
  induction flatten (fill leftovers refreshed) with
  | nil => rfl
  | cons l ls ih =>
    rw [List.filterMap_cons, List.filter_cons, ← ih]
    show _ = if (Item.keyGiven? l.2).any _ = true then _ else _
    cases Item.keyGiven? l.2 with
    | none => rfl
    | some key =>
      show List.map _ (List.filter _ ((key, l) :: _)) = _
      rw [List.filter_cons]
      show List.map _ (if (!(leafKeys fresh).contains key) = true then _ else _)
        = if (!(leafKeys fresh).contains key) = true then _ else _
      split <;> rfl

/-- What is marked and in a folder of the tree is marked again as it is. -/
theorem markGone_arrivals {leftovers : Leftovers} (hfolders : ∀ path ∈ folders refreshed, KeyPath path)
    (hleft : List.Forall₂ (fun g l => IsLeftover g.1 g.2 l) (gone old fresh) leftovers)
    {l : FolderPath × Dict Json} (hl : l ∈ arrivals leftovers refreshed) : markGone l = .ok l := by
  obtain ⟨path, hpath, hplace⟩ := mem_arrivals hl
  obtain ⟨key, l₀, -, -, hleftover⟩ := exists_gone_of_mem hleft hpath
  obtain ⟨name, hname, hmarked⟩ := hleftover.named
  refine markGone_eq_ok_iff.mpr ⟨name, by rw [hname]; exact hmarked, ?_, ?_⟩
  · split at hplace
    · exact hfolders _ hplace.1
    · rw [hplace]
      exact fun j hj => absurd hj (List.not_mem_nil)
  · rw [Dict.put_eq_self hname]

/-- A request that was refreshed can be given a key. -/
theorem exists_key_of_mem_refreshed {previous : Dict (FolderPath × Dict Json)}
    (h : refreshAll previous fresh = .ok refreshed) {l : FolderPath × Dict Json}
    (hl : l ∈ flatten refreshed) : ∃ key, Item.key? l.2 = .ok key := by
  obtain ⟨l₀, -, -, hrefresh⟩ := Persisted.exists_of_forall₂_right (flatten_refreshAll h) hl
  obtain ⟨key, hkey, -⟩ := bind_eq_ok_iff.mp hrefresh
  exact ⟨key, (key?_refreshLeaf hrefresh).trans hkey⟩

/-- So can every request of the filled tree. -/
theorem keyable_filled {previous : Dict (FolderPath × Dict Json)} {leftovers : Leftovers}
    (h : refreshAll previous fresh = .ok refreshed)
    (hleft : List.Forall₂ (fun g l => IsLeftover g.1 g.2 l) (gone old fresh) leftovers) :
    Keyable (fill leftovers refreshed) := by
  intro l hl
  rcases List.mem_append.mp ((flatten_fill_perm leftovers refreshed).mem_iff.mp hl) with hl | hl
  · exact exists_key_of_mem_refreshed h hl
  · obtain ⟨path, hpath, -⟩ := mem_arrivals hl
    obtain ⟨key, l₀, -, -, hleftover⟩ := exists_gone_of_mem hleft hpath
    exact ⟨_, hleftover.key⟩

/-- What was put beside the refreshed requests does not keep them from being found. -/
theorem refreshAll_filled {previous : Dict (FolderPath × Dict Json)} {leftovers : Leftovers}
    (hcomplete : ∀ l ∈ flatten fresh, CompleteItem l.2)
    (h : refreshAll previous fresh = .ok refreshed)
    (hnodup : (leafKeys (fill leftovers refreshed)).Nodup) :
    refreshAll (Dict.ofList (entries (fill leftovers refreshed))) fresh = .ok refreshed := by
  refine refreshAll_again hcomplete h fun l hl key hkey => get?_entries hnodup ?_ hkey
  exact (flatten_fill_perm leftovers refreshed).mem_iff.mpr (List.mem_append_left _ hl)

/-- **Merging into what was merged gives the same tree.** The persisted requests of the second merge
    are the refreshed ones and the leftovers.  Without marks only the former are there. -/
theorem mergedTree_again (hdistinct : (leafKeys fresh).Nodup)
    (hcomplete : ∀ l ∈ flatten fresh, CompleteItem l.2) (hread : Readable items)
    (h : MergedTree old fresh markDeprecated items) :
    MergedTree (readBack items) fresh markDeprecated items := by
  obtain ⟨hold, refreshed, leftovers, hrefreshed, rfl, hmark⟩ := h
  rw [MergedTree, Keyable, flatten_readBack hread, entries_readBack hread, gone_readBack hread]
  cases markDeprecated with
  | false =>
    obtain rfl : leftovers = [] := hmark
    have hnodup : (leafKeys (fill [] refreshed)).Nodup := by
      rw [fill_empty, leafKeys_refreshAll hrefreshed]
      exact hdistinct
    refine ⟨?_, refreshed, [], refreshAll_filled hcomplete hrefreshed hnodup, rfl, rfl⟩
    rw [fill_empty]
    exact fun l hl => exists_key_of_mem_refreshed hrefreshed hl
  | true =>
    obtain ⟨hkeyable, hmapM⟩ : Keyable fresh ∧ _ := hmark
    have hleft := leftovers_of_mapM hmapM
    -- the leftovers have other keys than the refreshed requests, so no two meet
    have hnodup : (leafKeys (fill leftovers refreshed)).Nodup :=
      nodup_leafKeys hdistinct ⟨hold, refreshed, leftovers, hrefreshed, rfl, hkeyable, hmapM⟩
    obtain ⟨hfolders, hkeyPath⟩ := folders_refreshAll hrefreshed
    rw [← hfolders] at hkeyPath
    have hpaths : ∀ l ∈ leftovers, KeyPath l.1 := by
      intro l hl
      obtain ⟨key, l₀, -, -, hleftover⟩ := exists_gone_of_mem hleft hl
      rw [hleftover.path]
      exact hleftover.keyPath
    refine ⟨keyable_filled hrefreshed hleft, refreshed, arrivals leftovers refreshed,
      refreshAll_filled hcomplete hrefreshed hnodup, (fill_arrivals hkeyPath hpaths).symm, hkeyable, ?_⟩
    have hmap : ((gone (fill leftovers refreshed) fresh).mapM fun g => markGone g.2)
        = ((gone (fill leftovers refreshed) fresh).map (·.2)).mapM markGone := by
      rw [List.mapM_map]
      rfl
    -- what is gone this time are the leftovers, which are marked and stay where they are
    rw [hmap, gone_fill hnodup (leafKeys_refreshAll hrefreshed) hleft]
    have hid := Persisted.mapM_eq_ok_of_forall (g := id) fun l hl =>
      markGone_arrivals hkeyPath hleft hl
    rwa [List.map_id] at hid

end

/-! ## Documents

Around the tree, the shared variables are taken from the fresh collection and the information from
the persisted one, once there is any. -/

/-- The fields of a merged document: three of them are written, the others are the persisted ones. -/
theorem get?_rebuilt (fresh document : Dict Json) (info : Json) (items : List Item) (name : String) :
    Dict.get? (rebuilt fresh document info items) name =
      if name = "item" then some (.arr (Item.toValues items))
      else if name = "variable" then some ((Dict.get? fresh "variable").getD (.arr []))
      else if name = "info" then some info
      else Dict.get? document name := by
  rw [rebuilt, Dict.get?_putAll, Dict.get?_filter_key fun k => k != "variable" && k != "item"]
  show (Dict.get? [("item", _), ("variable", _), ("info", info)] name).or _ = _
  rw [Dict.get?_cons, Dict.get?_cons, Dict.get?_cons]
  simp only [beq_iff_eq]
  split
  · rfl
  · rename_i hitem
    split
    · rfl
    · rename_i hvariable
      split
      · rfl
      · simp [hitem, hvariable]

/-- The information that a merge settled on is settled. -/
theorem infoOf_again {fresh document merged : Dict Json} {info : Json}
    (hinfo : infoOf fresh document = .ok info) (hmerged : Dict.get? merged "info" = some info) :
    infoOf fresh merged = .ok info := by
  rw [infoOf, hmerged]
  show (if info.truthy = true then pure info else _) = _
  split
  · rfl
  · rename_i hfalsy
    rw [infoOf] at hinfo
    split at hinfo
    · rename_i old hold
      split at hinfo
      · rename_i htruthy
        exact absurd ((Except.ok.inj hinfo) ▸ htruthy) hfalsy
      · exact hinfo
    · exact hinfo

/-- **A second merge of the same collection changes nothing.** Either the first merge wrote the
    fresh collection or a merged tree, and both are merged trees over themselves; what is left are
    the fields beside the items. -/
theorem merge_idempotent {fresh merged : Dict Json} {existing : Option (Dict Json)}
    {markDeprecated : Bool} (hfresh : FreshCollection fresh)
    (h : merge fresh existing markDeprecated = .ok merged) :
    ∃ again, merge fresh (some merged) markDeprecated = .ok again ∧
      ∀ name, Dict.get? again name = Dict.get? merged name := by
  obtain ⟨new, hnew⟩ := hfresh.items
  obtain ⟨freshInfo, hfreshInfo⟩ := hfresh.info
  obtain ⟨shared, hshared⟩ := hfresh.shared
  rcases merge_cases h with ⟨-, rfl⟩ | ⟨document, items, info, rfl, htree, hinfo, rfl⟩
  -- the first merge wrote the fresh document
  · have hself : MergedTree (itemsOf merged) (itemsOf merged) markDeprecated (itemsOf merged) :=
      mergedTree_self hfresh.proper hfresh.keyable hfresh.distinct hfresh.complete
    have hinfo : infoOf merged merged = .ok freshInfo := by
      rw [infoOf, hfreshInfo, Persisted.required, hfreshInfo]
      exact ite_self _
    refine ⟨_, merge_of_mergedTree hnew hnew hself hinfo, fun name => ?_⟩
    rw [get?_rebuilt]
    split
    · rename_i hname
      rw [hname, hnew, itemsOf_of_get? hnew, toValues_ofValues]
    · split
      · rename_i hname
        rw [hname, hshared, Option.getD_some]
      · split
        · rename_i hname
          rw [hname, hfreshInfo]
        · rfl
  -- the first merge wrote a merged tree, which is read back as it was
  · have hread : Readable items := readable_mergedTree (readable_itemsOf _) (readable_itemsOf _) htree
    have hagain := mergedTree_again hfresh.distinct hfresh.complete hread htree
    rw [← itemsOf_rebuilt fresh document info items] at hagain
    have hitem : Dict.get? (rebuilt fresh document info items) "item"
        = some (.arr (Item.toValues items)) := by
      rw [get?_rebuilt, if_pos rfl]
    have hinfo' : infoOf fresh (rebuilt fresh document info items) = .ok info := by
      refine infoOf_again hinfo ?_
      rw [get?_rebuilt, if_neg (by decide), if_neg (by decide), if_pos rfl]
    refine ⟨_, merge_of_mergedTree hitem hnew hagain hinfo', fun name => ?_⟩
    rw [get?_rebuilt, get?_rebuilt]
    split_ifs <;> rfl

/-- A collection with a request that is given up. -/
theorem merge_idempotent_users : ∃ merged,
    merge (sample [("List", "/users")])
      (some (sample [("Me", "/users/me"), ("List", "/users")])) true = .ok merged ∧
    ∃ again, merge (sample [("List", "/users")]) (some merged) true = .ok again ∧
      ∀ name, Dict.get? again name = Dict.get? merged name := by
  have hleaf : ∀ l ∈ flatten (itemsOf (sample [("List", "/users")])),
      (∃ key, Item.key? l.2 = .ok key) ∧ CompleteItem l.2 := by
    intro l hl
    obtain rfl := List.mem_singleton.mp hl
    refine ⟨⟨_, rfl⟩, ⟨_, rfl⟩, _, rfl, ⟨_, rfl, fun _ => rfl⟩, ⟨_, rfl⟩, [], rfl, [], rfl, ?_⟩
    exact List.nodup_nil
  have hfresh : FreshCollection (sample [("List", "/users")]) :=
    ⟨⟨_, rfl⟩, ⟨_, rfl⟩, ⟨_, rfl⟩, ⟨⟨rfl, trivial, trivial⟩, trivial⟩, fun l hl => (hleaf l hl).1,
      by decide, fun l hl => (hleaf l hl).2⟩
  have hfirst : ∃ merged, merge (sample [("List", "/users")])
      (some (sample [("Me", "/users/me"), ("List", "/users")])) true = .ok merged := ⟨_, rfl⟩
  obtain ⟨merged, hmerged⟩ := hfirst
  exact ⟨merged, hmerged, merge_idempotent hfresh hmerged⟩

end RouteAtlas.Postman
