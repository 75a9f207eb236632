/-
  Which router an imported receiver is in the end.

  ==== Problem ====

  The router that an import leads to may be an imported receiver of its own file, and so on through
  any number of files.  All of these names stand for one router, the one at the end.

  ==== Program ====

  1. **Specification** - `Redirects` says that a name is an imported receiver which another file
     defines; the router a name is in the end is the one that redirects lead to (`EndsAt`).

  2. **What was noted is the specification** - the dictionary of redirects has an entry for every
     imported receiver and for no other name (`get?_redirects`), so that its links are the redirects
     (`links_iff_redirects`) and, without circles, following them ends where redirects end
     (`endsAt_target`).

  3. **Redirects stay among routers** - what a redirect leads to is a router of the file it is in
     (`isRouter_of_redirects`).

  ==== The crux ====

  A file is read once, so its path says which routes are meant (`eq_of_file_eq`): entries of the
  dictionary of redirects that have one key say the same.
-/
import RouteAtlas.Proofs.Convention.Router
import RouteAtlas.Proofs.Endpoint.Reading
import RouteAtlas.Proofs.Route.Chain

namespace RouteAtlas.Dict

variable {κ α : Type} [BEq κ] [LawfulBEq κ]

/-- Where only the entries with a value are kept, look-ups find these values.  With distinct keys an
    entry without a value is the only one of its key, so that nothing shows behind it. -/
theorem get?_filterMap_some {d : List (κ × Option α)} (hd : (keys d).Nodup) (key : κ) :
    get? (d.filterMap fun (k, value) => value.map (k, ·)) key = (get? d key).join := by
  induction d with
  | nil => rfl
  | cons e d ih =>
    obtain ⟨k, value⟩ := e
    obtain ⟨hfresh, hrest⟩ := List.nodup_cons.mp hd
    rw [get?_cons]
    cases value with
    | none =>
      show get? (d.filterMap _) key = _
      split
      · rename_i hk
        obtain rfl : key = k := eq_of_beq hk
        rw [ih hrest, get?_eq_none_iff.mpr hfresh]
        rfl
      · exact ih hrest
    | some value =>
      show get? ((k, value) :: d.filterMap _) key = _
      rw [get?_cons]
      split
      · rfl
      · exact ih hrest

end RouteAtlas.Dict

namespace RouteAtlas.Survey

open Source (File Bundle Location)
open Convention (FileRoutes)
open Route (EndsAt Links)

/-- A name is an imported receiver of its file, and this is the router in the file that defines it. -/
def Redirects (bundle : Bundle) (read : Dict FileRoutes) (r s : RouterId) : Prop :=
  ∃ routes ∈ Dict.values read, r.file = routes.file ∧ r.name ∈ routes.imported ∧
    definedRouter? bundle read routes r.name = some s

/-- A router of a file that was read. -/
def IsRouter (read : Dict FileRoutes) (r : RouterId) : Prop :=
  ∃ routes ∈ Dict.values read, r.file = routes.file ∧ r.name ∈ Dict.keys routes.routers

/-- An imported receiver that is no router, in a file that does not import the framework. -/
def Lost (bundle : Bundle) (read : Dict FileRoutes) (r : RouterId) : Prop :=
  ∃ routes ∈ Dict.values read, r.file = routes.file ∧ r.name ∈ routes.imported ∧
    definedRouter? bundle read routes r.name = none ∧ routes.importsFramework = false

/-- The router that an imported name is, is one of the file that the name comes from. -/
theorem exists_of_definedRouter? {bundle : Bundle} {read : Dict FileRoutes} {routes : FileRoutes}
    {name : String} {s : RouterId} (h : definedRouter? bundle read routes name = some s) :
    ∃ target there found, originOf? bundle routes name = some (target, there) ∧
      Dict.get? read target.path.text = some found ∧ s.file = found.file ∧
      s.name ∈ Dict.keys found.routers := by
  unfold definedRouter? at h
  simp only [Option.bind_eq_bind, Option.bind_eq_some_iff, Option.map_eq_some_iff] at h
  obtain ⟨⟨target, there⟩, horigin, found, hfound, known, hknown, rfl⟩ := h
  refine ⟨target, there, found, horigin, hfound, rfl, ?_⟩
  unfold FileRoutes.routerNamed? at hknown
  dsimp only at hknown
  split at hknown
  · rename_i hhas
    cases hknown
    exact Dict.has_iff.mp hhas
  · cases hknown

/-- **A redirect leads to a router.** -/
theorem isRouter_of_redirects {bundle : Bundle} {read : Dict FileRoutes} {r s : RouterId}
    (h : Redirects bundle read r s) : IsRouter read s := by
  obtain ⟨routes, -, -, -, hdefined⟩ := h
  obtain ⟨target, there, found, -, hfound, hfile, hname⟩ := exists_of_definedRouter? hdefined
  exact ⟨found, List.mem_map_of_mem (Dict.mem_of_get? hfound), hfile, hname⟩

/-- **Redirects stay among routers.** -/
theorem isRouter_of_leads {bundle : Bundle} {read : Dict FileRoutes} {r t : RouterId}
    (hr : IsRouter read r) (h : Relation.ReflTransGen (Redirects bundle read) r t) :
    IsRouter read t := by
  cases h with
  | refl => exact hr
  | tail _ hlast => exact isRouter_of_redirects hlast

namespace RouterGraph

variable {bundle : Bundle} {files : List File} {g : RouterGraph} (hg : Finished bundle files g)
include hg

/-- A file stands under its path. -/
theorem key_eq_file {e : String × FileRoutes} (he : e ∈ g.read) : e.1 = e.2.file := by
  obtain ⟨file, -, rfl⟩ := hg.complete.faithful e he
  exact (Convention.Fluent.owned_routesOf bundle file).file_eq.symm

/-- The routes of a file are found under its path. -/
theorem get?_file {routes : FileRoutes} (h : routes ∈ Dict.values g.read) :
    Dict.get? g.read routes.file = some routes := by
  obtain ⟨e, he, rfl⟩ := List.mem_map.mp h
  rw [← key_eq_file hg he]
  exact Dict.get?_of_mem hg.complete.nodup he

/-- **The path of a file says which routes are meant.** -/
theorem eq_of_file_eq {routes other : FileRoutes} (h : routes ∈ Dict.values g.read)
    (hother : other ∈ Dict.values g.read) (hfile : routes.file = other.file) : routes = other := by
  have hget := get?_file hg h
  rw [hfile, get?_file hg hother] at hget
  exact (Option.some.inj hget).symm

/-- Every route that is registered is registered on a router of its file. -/
theorem exists_router {reg : Registration}
    (h : reg ∈ (Dict.values g.read).flatMap (·.registrations)) :
    ∃ r, IsRouter g.read r ∧ reg.routerId? = some r := by
  obtain ⟨routes, hroutes, hreg⟩ := List.mem_flatMap.mp h
  obtain ⟨e, he, rfl⟩ := List.mem_map.mp hroutes
  obtain ⟨file, -, rfl⟩ := hg.complete.faithful e he
  have howned := Convention.Fluent.owned_routesOf bundle file
  obtain ⟨name, hname, hrouter⟩ := howned.onRouter reg hreg
  exact ⟨_, ⟨_, hroutes, howned.file_eq.symm, hname⟩, hrouter⟩

omit hg in
/-- What a file says of its imported receivers. -/
theorem mem_redirectsOf {r : RouterId} {target : Option RouterId} {routes : FileRoutes} :
    (r, target) ∈ redirectsOf bundle g.read routes ↔ r.file = routes.file ∧
      r.name ∈ routes.imported ∧ target = definedRouter? bundle g.read routes r.name := by
  constructor
  · intro h
    obtain ⟨name, hname, heq⟩ := List.mem_map.mp h
    cases heq
    exact ⟨rfl, hname, rfl⟩
  · rintro ⟨hfile, himported, rfl⟩
    refine List.mem_map.mpr ⟨r.name, himported, ?_⟩
    rw [← hfile]

/-- Every entry is about an imported receiver of a file. -/
theorem exists_of_get?_redirects {r : RouterId} {target : Option RouterId}
    (h : Dict.get? g.redirects r = some target) : ∃ routes ∈ Dict.values g.read,
      r.file = routes.file ∧ r.name ∈ routes.imported ∧
      target = definedRouter? bundle g.read routes r.name := by
  rw [hg.redirects_eq, Dict.get?_ofList] at h
  have hmem := List.mem_reverse.mp (Dict.mem_of_get? h)
  obtain ⟨routes, hroutes, hredirect⟩ := List.mem_flatMap.mp hmem
  exact ⟨routes, hroutes, mem_redirectsOf.mp hredirect⟩

/-- **The dictionary of redirects** has an entry for every imported receiver, and no other.

    An entry is of the file with the name, and there is one such file among those that were read. -/
theorem get?_redirects {r : RouterId} {routes : FileRoutes} (h : routes ∈ Dict.values g.read)
    (hfile : r.file = routes.file) : Dict.get? g.redirects r =
      if r.name ∈ routes.imported then some (definedRouter? bundle g.read routes r.name) else none := by
  have hentry : ∀ {target}, Dict.get? g.redirects r = some target →
      r.name ∈ routes.imported ∧ target = definedRouter? bundle g.read routes r.name := by
    intro target hget
    obtain ⟨other, hother, hotherFile, hredirect⟩ := exists_of_get?_redirects hg hget
    obtain rfl := eq_of_file_eq hg h hother (hfile.symm.trans hotherFile)
    exact hredirect
  split
  · rename_i himported
    have hkey : r ∈ Dict.keys g.redirects := by
      rw [hg.redirects_eq, Dict.mem_keys_ofList]
      have hmem : (r, definedRouter? bundle g.read routes r.name) ∈ redirectsOf bundle g.read routes :=
        mem_redirectsOf.mpr ⟨hfile, himported, rfl⟩
      exact List.mem_map_of_mem (List.mem_flatMap.mpr ⟨routes, h, hmem⟩)
    obtain ⟨target, htarget⟩ := Dict.exists_get?_of_mem_keys hkey
    rw [htarget, (hentry htarget).2]
  · rename_i himported
    exact Option.eq_none_iff_forall_ne_some.mpr fun target hget => himported (hentry hget).1

/-- The links are the redirects that lead somewhere. -/
theorem get?_links_eq (r : RouterId) : Dict.get? g.links r = (Dict.get? g.redirects r).join := by
  refine Dict.get?_filterMap_some ?_ r
  rw [hg.redirects_eq]
  exact Dict.nodup_keys_ofList _

/-- **The links are the redirects.** -/
theorem links_iff_redirects {r s : RouterId} :
    Links g.links r s ↔ Redirects bundle g.read r s := by
  unfold Links
  rw [get?_links_eq hg, Option.join_eq_some_iff]
  constructor
  · intro hget
    obtain ⟨routes, hroutes, hfile, himported, hdefined⟩ := exists_of_get?_redirects hg hget
    exact ⟨routes, hroutes, hfile, himported, hdefined.symm⟩
  · rintro ⟨routes, hroutes, hfile, himported, hdefined⟩
    rw [get?_redirects hg hroutes hfile, if_pos himported, hdefined]

/-- **Following redirects leads to their end**, unless they go round in circles. -/
theorem endsAt_target (acyclic : ∀ r, ¬Relation.TransGen (Redirects bundle g.read) r r)
    (r : RouterId) : EndsAt (Redirects bundle g.read) r (g.target r) := by
  have heq : Links g.links = Redirects bundle g.read :=
    funext fun r => funext fun s => propext (links_iff_redirects hg)
  rw [← heq] at acyclic ⊢
  exact Route.endsAt_follow acyclic r

/-! ## Imports without circles

A rank of files that imports increase is a witness that redirects do not go round in circles. -/

omit hg in
/-- Do the imports of the file at `path` lead to files of higher rank? -/
def risesAt (bundle : Bundle) (rank : String → Nat) (path : String) : Bool :=
  match bundle.read? (Location.clean path) with
  | none => true
  | some file => (Dict.values file.imports).all fun origin =>
    match bundle.importedFile? file origin.specifier with
    | none => true
    | some target => rank path < rank target.path.text

omit hg in
/-- An import leads to a file of higher rank. -/
theorem lt_of_risesAt {rank : String → Nat} {routes : FileRoutes} {name there : String}
    {target : File} (hrises : risesAt bundle rank routes.file = true)
    (h : originOf? bundle routes name = some (target, there)) :
    rank routes.file < rank target.path.text := by
  obtain ⟨file, origin, hfile, horigin, htarget⟩ := exists_of_originOf? h
  unfold risesAt at hrises
  rw [hfile] at hrises
  have hmem : origin ∈ Dict.values file.imports := List.mem_map_of_mem (Dict.mem_of_get? horigin)
  have hrise := List.all_eq_true.mp hrises origin hmem
  rw [htarget] at hrise
  exact of_decide_eq_true hrise

/-- **Where imports lead to higher ranks, redirects do not go round in circles.** Every redirect
    goes to a file of higher rank, so a circle would be higher than itself. -/
theorem acyclic_of_rank (rank : String → Nat)
    (hfiles : ∀ file, Available bundle files file → risesAt bundle rank file.path.text = true)
    (r : RouterId) : ¬Relation.TransGen (Redirects bundle g.read) r r := by
  have hrises : ∀ r s, Redirects bundle g.read r s → rank r.file < rank s.file := by
    rintro r s ⟨routes, hroutes, hfile, -, hdefined⟩
    obtain ⟨target, there, found, horigin, hfound, htarget, -⟩ := exists_of_definedRouter? hdefined
    have hkey : target.path.text = found.file := key_eq_file hg (Dict.mem_of_get? hfound)
    have hrisesAt : risesAt bundle rank routes.file = true := by
      obtain ⟨e, he, rfl⟩ := List.mem_map.mp hroutes
      obtain ⟨file, havailable, rfl⟩ := hg.complete.faithful e he
      rw [(Convention.Fluent.owned_routesOf bundle file).file_eq]
      exact hfiles file havailable
    rw [hfile, htarget, ← hkey]
    exact lt_of_risesAt hrisesAt horigin
  have hup : ∀ {s t}, Relation.TransGen (Redirects bundle g.read) s t → rank s.file < rank t.file := by
    intro s t hst
    induction hst with
    | single h => exact hrises _ _ h
    | tail _ h ih => exact Nat.lt_trans ih (hrises _ _ h)
  exact fun hcircle => Nat.lt_irrefl _ (hup hcircle)

end RouterGraph

end RouteAtlas.Survey
