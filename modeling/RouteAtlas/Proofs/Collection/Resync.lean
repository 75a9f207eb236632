/-
  The second run on an unchanged project.

  ==== Problem ====

  A first run, with nothing persisted, writes what it synthesizes.  A second run synthesizes the same
  endpoints anew and merges them into what the first one wrote.  Only what is generated each time
  differs: the identifier of a collection, the date of an export.  The document should stay as it is.

  ==== Spec ====

  `resync_iff_bodiesFit`: for endpoints with keys of their own and clean paths, the document stays as
  it is exactly when no endpoint has a body that its method does not send.  That holds of both
  formats, with the mark for what is gone or without.

  ==== What else it takes ====

  1. **No reference in a path** - what is read in a URL as a reference to the base URL is dropped, so
     two endpoints can share one request.  The path is meant as the format writes it: a collection
     writes the placeholder `:baseUrl` in double braces and mistakes it
     (`resync_mistakes_placeholder`), an export leaves it behind its colon and does not.  An export
     mistakes only what a segment spells out, such as `{{_.baseUrl}}`, which is no placeholder.

  2. **Different digests** - two folders of an export whose identifiers are the same are one folder
     for the second run.  Collections have no identifiers, so nothing is asked of them.
-/
import RouteAtlas.Proofs.Insomnia.Resync
import RouteAtlas.Proofs.Postman.Resync

namespace RouteAtlas

open Persisted (Fault)

/-- What the second of two runs writes, the first of which found nothing persisted. -/
def runTwice (merge : Dict Json → Option (Dict Json) → Bool → Except Fault (Dict Json))
    (first second : Dict Json) (mark : Bool) : Except Fault (Dict Json) := do
  let written ← merge first none mark
  merge second (some written) mark

/-- The second run merges into what the first one wrote. -/
theorem runTwice_postman (first second : Dict Json) (mark : Bool) :
    runTwice Postman.merge first second mark = Postman.merge second (some first) mark := rfl

theorem runTwice_insomnia (first second : Dict Json) (mark : Bool) :
    runTwice Insomnia.merge first second mark = Insomnia.merge second (some first) mark := by
  have hfirst : Insomnia.merge first none mark = .ok first := rfl
  rw [runTwice, hfirst, Persisted.ok_bind]

section

variable {settings : Settings} {endpoints : List Endpoint}

/-- **The second run changes nothing exactly when bodies fit.** In each format the freedom from base
    variables is asked of the spelling that its URLs have.  It makes the keys of the written
    requests those of the endpoints, which are distinct, so that every request finds itself again;
    what is left to compare is the body. -/
theorem resync_iff_bodiesFit (hkeys : (endpoints.map Endpoint.key).Nodup)
    (hpaths : ∀ e ∈ endpoints, Route.CleanPath e.path) (mark : Bool) :
    ((∀ e ∈ endpoints,
        Persisted.BaseFree (Route.writtenChars Route.inDoubleBraces e.path.toList)) →
      ∀ firstId secondId : String,
      runTwice Postman.merge (Postman.document firstId settings endpoints)
          (Postman.document secondId settings endpoints) mark
        = .ok (Postman.document firstId settings endpoints) ↔ BodiesFit endpoints) ∧
    ((∀ e ∈ endpoints, Persisted.BaseFree (Route.writtenChars Route.behindColon e.path.toList)) →
      Insomnia.DistinctFolders settings endpoints → ∀ firstDate secondDate : String,
      runTwice Insomnia.merge (Insomnia.document firstDate settings endpoints)
          (Insomnia.document secondDate settings endpoints) mark
        = .ok (Insomnia.document firstDate settings endpoints) ↔ BodiesFit endpoints) := by
  constructor
  · intro hfree firstId secondId
    have hdistinct : (Postman.leafKeys (Postman.itemsOf
        (Postman.document firstId settings endpoints))).Nodup :=
      Postman.nodup_leafKeys_document hkeys hpaths hfree
    rw [runTwice_postman]
    exact ⟨Postman.bodiesFit_of_merge_document, Postman.merge_document_self hdistinct⟩
  · intro hfree hfolders firstDate secondDate
    have hdistinct : (endpoints.map (Insomnia.requestKey settings.serviceNames)).Nodup := by
      have hsame : endpoints.map (Insomnia.requestKey settings.serviceNames)
          = endpoints.map Endpoint.key :=
        List.map_congr_left fun e he => Insomnia.requestKey_eq_key _ (hpaths e he) (hfree e he)
      rw [hsame]
      exact hkeys
    rw [runTwice_insomnia]
    exact ⟨Insomnia.bodiesFit_of_merge_document,
      Insomnia.merge_document_self hdistinct hfolders⟩

end

/-- Users that are listed and changed. -/
def usersEndpoints : List Endpoint :=
  [{ method := .get, path := "/users" },
    { method := .patch, path := "/users/:id", parameters := { body := some { kind := .object } } }]

/-- Users that are listed and changed: the second run writes what is there.  One endpoint is read
    and has no body, the other is written and has one: both bodies fit. -/
theorem resync_users :
    runTwice Postman.merge (Postman.document "1" {} usersEndpoints)
      (Postman.document "2" {} usersEndpoints) true = .ok (Postman.document "1" {} usersEndpoints) ∧
    runTwice Insomnia.merge (Insomnia.document "1" {} usersEndpoints)
      (Insomnia.document "2" {} usersEndpoints) true
        = .ok (Insomnia.document "1" {} usersEndpoints) := by
  have hkeys : (usersEndpoints.map Endpoint.key).Nodup := by decide +kernel
  have hpaths : ∀ e ∈ usersEndpoints, Route.CleanPath e.path := by
    have hname : Route.IsName "id".toList :=
      ⟨by decide, List.all_eq_true.mp (by decide)⟩
    have hwhole : ∀ s ∈ ["users".toList, ":id".toList], Route.WholeSegment s := by
      intro s hs
      rcases List.mem_cons.mp hs with rfl | hs
      · exact .text ⟨rfl, rfl, rfl⟩
      · obtain rfl := List.mem_singleton.mp hs
        exact .colon hname
    have hblank : ∀ path : String, path.toList.any Text.isBlank = false →
        ∀ c ∈ path.toList, Text.isBlank c = false :=
      fun path h c hc => Bool.eq_false_iff.mpr (List.any_eq_false.mp h c hc)
    intro e he
    rcases List.mem_cons.mp he with rfl | he
    · exact ⟨fun s hs => hwhole s (List.mem_cons.mpr (.inl (List.mem_singleton.mp hs))),
        by decide, by decide, hblank _ (by decide)⟩
    · obtain rfl := List.mem_singleton.mp he
      exact ⟨hwhole, by decide, by decide, hblank _ (by decide)⟩
  have hfree : ∀ e ∈ usersEndpoints,
      Persisted.BaseFree (Route.writtenChars Route.inDoubleBraces e.path.toList) := by
    decide +kernel
  have hfolders : Insomnia.DistinctFolders {} usersEndpoints := by decide +kernel
  have hbodies : BodiesFit usersEndpoints := by decide
  -- what holds of the path in double braces holds of it behind a colon
  have hfreeColon : ∀ e ∈ usersEndpoints,
      Persisted.BaseFree (Route.writtenChars Route.behindColon e.path.toList) :=
    fun e he => (hfree e he).behindColon (hpaths e he)
  obtain ⟨hpostman, hinsomnia⟩ := resync_iff_bodiesFit hkeys hpaths true
  exact ⟨(hpostman hfree "1" "2").mpr hbodies,
    (hinsomnia hfreeColon hfolders "1" "2").mpr hbodies⟩

/-- A user that is deleted with a body. -/
def deleteEndpoints : List Endpoint :=
  [{ method := .delete, path := "/users", parameters := { body := some { kind := .object } } }]

/-- **A body that the method does not send** is written by the first run and dropped by the second. -/
theorem resync_drops_body :
    runTwice Postman.merge (Postman.document "1" {} deleteEndpoints)
      (Postman.document "2" {} deleteEndpoints) true
        ≠ .ok (Postman.document "1" {} deleteEndpoints) ∧
    runTwice Insomnia.merge (Insomnia.document "1" {} deleteEndpoints)
      (Insomnia.document "2" {} deleteEndpoints) true
        ≠ .ok (Insomnia.document "1" {} deleteEndpoints) := by
  have hbodies : ¬BodiesFit deleteEndpoints := by decide
  rw [runTwice_postman, runTwice_insomnia]
  exact ⟨fun h => hbodies (Postman.bodiesFit_of_merge_document h),
    fun h => hbodies (Insomnia.bodiesFit_of_merge_document h)⟩

/-- Users that are listed, and one that is asked for by a name that is read as a base URL. -/
def mistakenEndpoints : List Endpoint :=
  [{ method := .get, path := "/users" },
    { method := .get, path := "/users/:baseUrl", description := some "One user" }]

-- an export tells the two apart, and mistakes a segment that is a reference as it stands
example : mistakenEndpoints.map (Insomnia.requestKey [])
    = ["GET /users", "GET /users/{baseUrl}"] := by decide +kernel

example : [{ method := .get, path := "/users/{{_.baseUrl}}" : Endpoint }].map
    (fun e => (Insomnia.requestKey [] e, e.key))
      = [("GET /users", "GET /users/{{_.baseUrl}}")] := by decide +kernel

/-- **A placeholder called like the base-URL variable** gives two requests of a collection one key.

    This is why the paths are asked to be free of it: the placeholder is erased with the base, and
    the second request overwrites the first. -/
theorem resync_mistakes_placeholder : (mistakenEndpoints.map Endpoint.key).Nodup ∧
    BodiesFit mistakenEndpoints ∧
    mistakenEndpoints.map (Postman.requestKey []) = ["GET /users", "GET /users"] ∧
    ∃ again, runTwice Postman.merge (Postman.document "1" {} mistakenEndpoints)
        (Postman.document "1" {} mistakenEndpoints) true = .ok again ∧
      Json.same (.obj again) (.obj (Postman.document "1" {} mistakenEndpoints)) = false := by
  have hkeys : (mistakenEndpoints.map Endpoint.key).Nodup := by decide +kernel
  have hshared : mistakenEndpoints.map (Postman.requestKey []) = ["GET /users", "GET /users"] := by
    decide +kernel
  have hother : (runTwice Postman.merge (Postman.document "1" {} mistakenEndpoints)
      (Postman.document "1" {} mistakenEndpoints) true).toOption.any (fun again =>
        !Json.same (.obj again) (.obj (Postman.document "1" {} mistakenEndpoints))) = true := by
    decide +kernel
  refine ⟨hkeys, by decide, hshared, ?_⟩
  cases hagain : runTwice Postman.merge (Postman.document "1" {} mistakenEndpoints)
      (Postman.document "1" {} mistakenEndpoints) true with
  | error fault =>
    rw [hagain] at hother
    exact absurd hother Bool.false_ne_true
  | ok again =>
    rw [hagain] at hother
    exact ⟨again, rfl, (Bool.not_eq_true' _).mp hother⟩

end RouteAtlas
