/-
  What is said of an endpoint, whichever way its path is written.

  ==== Problem ====

  One route is declared as `/users/:id` in one file and with braces in another, and both have one
  key.  Its request should be presented alike: in the same folders, under the same name, with the
  same description, and with authorization or without.

  ==== Program ====

  1. **Respelling** - two paths are one when their segments are, one by one: the same text, or the
     same placeholder in any two notations (`Respelled`).

  2. **Reading** - what is read off a path by rewriting it (`Respelled.display`), or off its segments
     that are no placeholders (`Respelled.filter_segments`), does not depend on the notation.  That
     leaves the one comparison of a path with a text as it is written.

  3. **Descriptions** - a description that says no more than method and path is dropped.  It is
     compared with the path as it is written, and with both notations in braces (`isBare_iff`).

  ==== Crux ====

  Of the three notations only two are tried.  A description that repeats the path behind colons, or
  in several notations at once, is known for what it is only where the path is written the same way:
  it tells two spellings of one route apart (`RepeatsAsWritten`), unless a declared summary happens
  to say what the description says.
-/
import Mathlib.Data.List.DropRight
import Mathlib.Data.List.Forall2
import RouteAtlas.Collection.Folder
import RouteAtlas.Collection.Wording
import RouteAtlas.Proofs.Route.Piece

namespace RouteAtlas

/-! ## Texts -/

/-- A trimmed text does not begin with a blank. -/
theorem Text.dropWhile_isBlank_trimChars (cs : List Char) :
    (Text.trimChars cs).dropWhile Text.isBlank = Text.trimChars cs := by
  have hprefix : Text.trimChars cs <+: cs.dropWhile Text.isBlank := List.rdropWhile_prefix _ _
  cases htrim : Text.trimChars cs with
  | nil => rfl
  | cons c rest =>
    rw [htrim] at hprefix
    obtain ⟨tail, htail⟩ := hprefix
    have hhead : Text.isBlank c ≠ true := by
      have hne : cs.dropWhile Text.isBlank ≠ [] := by
        rw [← htail]
        exact List.cons_ne_nil _ _
      have hfirst := List.head_dropWhile_not Text.isBlank hne
      simp only [← htail, List.cons_append, List.head_cons] at hfirst
      rw [hfirst]
      decide
    exact List.dropWhile_cons_of_neg hhead

/-- A trimmed text has no blanks to drop. -/
theorem Text.trim_trim (s : String) : Text.trim (Text.trim s) = Text.trim s := by
  have hback : Text.trimChars (Text.trimChars s.toList) = Text.trimChars s.toList := by
    show List.rdropWhile Text.isBlank ((Text.trimChars s.toList).dropWhile Text.isBlank) = _
    rw [Text.dropWhile_isBlank_trimChars]
    exact List.rdropWhile_idempotent _ _
  rw [Text.trim, Text.trim, String.toList_ofList, hback]

/-- A text in small letters is empty only if the text is. -/
theorem Text.lower_ne_empty {s : String} (h : s ≠ "") : Text.lower s ≠ "" := by
  intro hlower
  have hnil : Text.lowerChars s.toList = [] := by
    rw [← String.toList_ofList (l := Text.lowerChars s.toList)]
    exact congrArg String.toList hlower
  cases hchars : s.toList with
  | nil => exact h (String.toList_inj.mp hchars)
  | cons c cs =>
    rw [hchars, Text.lowerChars, Text.lowerFrom] at hnil
    have hfirst := (List.append_eq_nil_iff.mp hnil).1
    split at hfirst
    · split at hfirst <;> exact List.cons_ne_nil _ _ hfirst
    · split at hfirst <;> exact List.cons_ne_nil _ _ hfirst

/-! ## Respelling

Two spellings of a path differ in the notation of placeholders only.  Everything that is shown is
computed from the segments, and of a placeholder only its name counts. -/

namespace Route

/-- Two segments are one: the same text without placeholder, or the same placeholder, in whichever
    notation each is written. -/
inductive SameSegment : List Char → List Char → Prop
  | text {s} (h : NoPlaceholder s) : SameSegment s s
  | hole {write write' name} (hwrite : IsNotation write) (hwrite' : IsNotation write')
      (h : IsName name) : SameSegment (write name) (write' name)

/-- Two paths are one, but for the notation of each placeholder; placeholders are whole segments. -/
def Respelled (path other : String) : Prop :=
  List.Forall₂ SameSegment (segmentChars path.toList) (segmentChars other.toList)

/-- A placeholder is recognized in any notation. -/
theorem isPlaceholder_write {write : List Char → List Char} (hwrite : IsNotation write)
    (name : List Char) : isPlaceholder (String.ofList (write name)) = true := by
  rw [isPlaceholder, String.toList_ofList]
  cases hwrite with
  | colon => rfl
  | single =>
    have hlast : (inBraces name).getLast? = some closing := List.getLast?_concat
    exact congrArg (fun last => opening == ':' || (opening == opening && last == some closing)) hlast
  | double =>
    have hsplit : inDoubleBraces name = (opening :: opening :: name ++ [closing]) ++ [closing] := by
      simp [inDoubleBraces]
    have hlast : (inDoubleBraces name).getLast? = some closing := by
      rw [hsplit]
      exact List.getLast?_concat
    exact congrArg (fun last => opening == ':' || (opening == opening && last == some closing)) hlast

namespace SameSegment

variable {s t : List Char} (h : SameSegment s t)
include h

/-- A segment is displayed alike in both spellings. -/
theorem displaySegment : displaySegment s = displaySegment t := by
  cases h with
  | text h => rfl
  | hole hwrite hwrite' hname =>
    have hs := displaySegment_notation hwrite hname
    have ht := displaySegment_notation hwrite' hname
    exact hs.trans ht.symm

/-- Two segments that are one are placeholders, or the same text. -/
theorem isPlaceholder_or_eq :
    (isPlaceholder (String.ofList s) = true ∧ isPlaceholder (String.ofList t) = true) ∨ s = t := by
  cases h with
  | text h => exact .inr rfl
  | hole hwrite hwrite' hname =>
    exact .inl ⟨isPlaceholder_write hwrite _, isPlaceholder_write hwrite' _⟩

end SameSegment

namespace Respelled

variable {path other : String} (h : Respelled path other)
include h

theorem map_displaySegment : (segmentChars path.toList).map displaySegment
    = (segmentChars other.toList).map displaySegment := by
  rw [← List.forall₂_eq_eq_eq, List.forall₂_map_left_iff, List.forall₂_map_right_iff]
  exact h.imp fun s t hst => hst.displaySegment

theorem displayChars : displayChars path.toList = displayChars other.toList := by
  rw [displayChars_eq, displayChars_eq, h.map_displaySegment]

/-- **One display.**  The displayed path does not depend on the notation. -/
theorem display : display path = display other := congrArg String.ofList h.displayChars

theorem doubleBraced : doubleBraced path = doubleBraced other := by
  rw [Route.doubleBraced, Route.doubleBraced, writtenChars, writtenChars, h.displayChars]

/-- **The segments that are no placeholders** do not depend on the notation. -/
theorem filter_segments : (segments path).filter (fun s => !isPlaceholder s)
    = (segments other).filter fun s => !isPlaceholder s := by
  rw [segments, segments]
  rw [Respelled] at h
  generalize segmentChars path.toList = own at h ⊢
  generalize segmentChars other.toList = others at h ⊢
  induction h with
  | nil => rfl
  | cons hst _ ih =>
    rw [List.map_cons, List.map_cons, List.filter_cons, List.filter_cons, ih]
    rcases hst.isPlaceholder_or_eq with ⟨hs, ht⟩ | rfl
    · rw [hs, ht]
      rfl
    · rfl

/-- The domain is the first segment that is no placeholder, in both spellings. -/
theorem domain : domain path = domain other := by
  have hfind : ∀ p : String, Route.domain p = (((segments p).filter fun s => !isPlaceholder s).find?
      fun s => !(Text.lower s == "api")).getD "General" := by
    intro p
    have hboth : ∀ s, (!(Text.lower s == "api" || isPlaceholder s))
        = decide ((!isPlaceholder s) = true ∧ (!(Text.lower s == "api")) = true) := by
      intro s
      cases isPlaceholder s <;> cases Text.lower s == "api" <;> rfl
    rw [Route.domain, List.find?_filter]
    simp only [hboth]
  rw [hfind, hfind, h.filter_segments]

end Respelled

end Route

/-! ## Presentation

Name, summary and folder do not depend on the spelling.  A description that repeats the path is
dropped, and what counts as the path does depend on it. -/

namespace Wording

open Route (Respelled)

/-- The description says no more than method and path, in one of the notations in braces. -/
def RepeatsInBraces (description method path : String) : Prop :=
  Text.lower description = Text.lower (method ++ " " ++ Route.display path) ∨
  Text.lower description = Text.lower (method ++ " " ++ Route.doubleBraced path)

/-- The description says no more than method and path as it is written, and not in braces. -/
structure RepeatsAsWritten (description method path : String) : Prop where
  written : Text.lower description = Text.lower (method ++ " " ++ Route.normalize path)
  not_in_braces : ¬RepeatsInBraces description method path

/-- **When a description is dropped**: it is empty, repeats the path in braces, or as written.  Only
    the last alternative reads the path as it is written, so it is kept apart from the one that
    every spelling of the path shares. -/
theorem isBare_iff (description : Option String) (method path : String) :
    isBare description method path = true ↔
      (trimmed description = "" ∨ RepeatsInBraces (trimmed description) method path) ∨
      RepeatsAsWritten (trimmed description) method path := by
  have hempty : Text.lower (trimmed description) = "" ↔ trimmed description = "" := by
    refine ⟨fun hlower => Classical.byContradiction fun hne => Text.lower_ne_empty hne hlower, ?_⟩
    intro h
    rw [h]
    decide
  rw [isBare]
  simp only [Bool.or_eq_true, beq_iff_eq, List.any_cons, List.any_nil, Bool.or_false, hempty]
  constructor
  · rintro (h | h | h)
    · exact .inl (.inl h)
    · by_cases hbraces : RepeatsInBraces (trimmed description) method path
      · exact .inl (.inr hbraces)
      · exact .inr ⟨h, hbraces⟩
    · exact .inl (.inr h)
  · rintro ((h | h) | h)
    · exact .inl h
    · exact .inr (.inr h)
    · exact .inr (.inl h.written)

/-- A description that repeats the path is not empty. -/
theorem RepeatsAsWritten.ne_empty {description method path : String}
    (h : RepeatsAsWritten description method path) : description ≠ "" := by
  rintro rfl
  have hne : method ++ " " ++ Route.normalize path ≠ "" := by
    intro heq
    have hchars := congrArg String.toList heq
    simp at hchars
  exact Text.lower_ne_empty hne (h.written.symm.trans (by decide))

theorem trimmed_some_trimmed (text : Option String) : trimmed (some (trimmed text)) = trimmed text :=
  Text.trim_trim _

section

variable {e : Endpoint} {path : String} (h : Respelled e.path path)
include h

/-- A description repeats the path in braces in both spellings or in none. -/
theorem repeatsInBraces_respelled {description method : String} :
    RepeatsInBraces description method path ↔ RepeatsInBraces description method e.path := by
  rw [RepeatsInBraces, RepeatsInBraces, h.display, h.doubleBraced]

/-- **What tells two spellings apart**: whether the description repeats one of them, as
    written.  Being empty and repeating the path in braces do not depend on the spelling, and
    neither goes with repeating it as written. -/
theorem isBare_respelled_iff :
    isBare (some (trimmed e.description)) e.method.word path
        = isBare (some (trimmed e.description)) e.method.word e.path ↔
      (RepeatsAsWritten (trimmed e.description) e.method.word path ↔
        RepeatsAsWritten (trimmed e.description) e.method.word e.path) := by
  rw [Bool.eq_iff_iff, isBare_iff, isBare_iff, trimmed_some_trimmed, repeatsInBraces_respelled h]
  -- what both spellings share excludes repeating as written
  have hown : RepeatsAsWritten (trimmed e.description) e.method.word e.path →
      ¬(trimmed e.description = "" ∨
        RepeatsInBraces (trimmed e.description) e.method.word e.path) :=
    fun hrepeats hshared => hshared.elim hrepeats.ne_empty hrepeats.not_in_braces
  have hother : RepeatsAsWritten (trimmed e.description) e.method.word path →
      ¬(trimmed e.description = "" ∨
        RepeatsInBraces (trimmed e.description) e.method.word e.path) :=
    fun hrepeats hshared => hshared.elim hrepeats.ne_empty fun hbraces =>
      hrepeats.not_in_braces ((repeatsInBraces_respelled h).mpr hbraces)
  constructor
  · intro hsame
    exact ⟨fun hrepeats => (hsame.mp (.inr hrepeats)).resolve_left (hother hrepeats),
      fun hrepeats => (hsame.mpr (.inr hrepeats)).resolve_left (hown hrepeats)⟩
  · intro hsame
    exact or_congr_right hsame

/-- The phrase that is made up for an endpoint is the same in both spellings. -/
theorem phrase_respelled (method : String) : phrase method path = phrase method e.path := by
  rw [phrase, phrase, h.filter_segments]

theorem needsAuthorization_respelled :
    needsAuthorization { e with path := path } = needsAuthorization e := by
  have hany : ∀ p : String, ((Route.segments p).any fun s =>
      !Route.isPlaceholder s && privateSegments.contains (Text.lower s))
      = ((Route.segments p).filter fun s => !Route.isPlaceholder s).any fun s =>
        privateSegments.contains (Text.lower s) := fun p => List.any_filter.symm
  simp only [needsAuthorization, hany, h.filter_segments]

theorem segments_respelled (apps : List String) :
    Folder.segments { e with path := path } apps = Folder.segments e apps := by
  simp only [Folder.segments, Folder.ofFile, h.domain]

/-- Where both spellings count as bare or neither does, the endpoint is presented alike. -/
theorem presented_of_isBare (hbare : isBare (some (trimmed e.description)) e.method.word path
      = isBare (some (trimmed e.description)) e.method.word e.path) :
    summary { e with path := path } = summary e ∧
      ∀ text, requestDescription { e with path := path } text = requestDescription e text := by
  refine ⟨?_, fun text => ?_⟩
  · rw [summary, summary]
    dsimp only
    rw [hbare, phrase_respelled h]
    rfl
  · rw [requestDescription, requestDescription]
    dsimp only
    rw [hbare]
    rfl

/-- The name of a request depends on the spelling through the summary only. -/
theorem requestName_respelled (hsummary : summary { e with path := path } = summary e) :
    requestName { e with path := path } = requestName e := by
  rw [requestName, requestName, hsummary, ← h.display]

end

/-! ## What is written below the name

A description that only repeats the request is dropped, and what is written then is the
summary.  Whether two spellings of a path are presented alike comes down to whether both
descriptions are dropped. -/

/-- A summary is given if there is something in it. -/
theorem hasSummary_iff (e : Endpoint) : hasSummary e = true ↔ trimmed e.summary ≠ "" := bne_iff_ne

theorem summary_of_declared {e : Endpoint} (h : hasSummary e = true) : summary e = trimmed e.summary :=
  if_pos h

/-- What is written for a description that says something. -/
def fullDescription (e : Endpoint) : String :=
  if hasSummary e && Text.lower (trimmed e.summary) != Text.lower (trimmed e.description) then
    trimmed e.summary ++ "\n\n" ++ trimmed e.description
  else trimmed e.description

/-- The summary alone stands where the description is bare. -/
theorem requestDescription_summary (e : Endpoint) : requestDescription e (summary e)
    = if isBare (some (trimmed e.description)) e.method.word e.path then trimmed e.summary
      else fullDescription e := by
  rw [requestDescription, fullDescription, summary]
  cases hsummary : hasSummary e with
  | true => simp only [if_true]
  | false =>
    have hempty : trimmed e.summary = "" := by
      by_contra hne
      exact absurd ((hasSummary_iff e).mpr hne) (by simp [hsummary])
    simp only [hempty, Bool.false_and, Bool.false_eq_true, if_false]

/-- A text with another one behind it is not that text. -/
theorem append_blank_line_ne (text other : String) : text ++ "\n\n" ++ other ≠ text := by
  intro heq
  have hlength := congrArg String.length heq
  simp only [String.length_append] at hlength
  have hbreak : "\n\n".length = 2 := by decide
  omega

/-- The summary alone is all that is written only where the description says the same. -/
theorem fullDescription_eq_iff (e : Endpoint) :
    fullDescription e = trimmed e.summary ↔ trimmed e.summary = trimmed e.description := by
  rw [fullDescription]
  constructor
  · intro h
    split at h
    · exact absurd h (append_blank_line_ne _ _)
    · exact h.symm
  · intro h
    have hsame : ¬(hasSummary e && Text.lower (trimmed e.summary)
        != Text.lower (trimmed e.description)) = true := by simp [h]
    rw [if_neg hsame, h]

/-- **Which spellings are presented alike.**  Let every placeholder in the path of an endpoint be a
    whole segment, and be written anew in any notation, each on its own.  The endpoint keeps its key
    and its folders, and needs authorization as before.  It keeps its name and its description
    exactly if its description repeats both spellings of the path as they are written or neither, or
    says just what the declared summary says. -/
theorem presented_alike_iff (e : Endpoint) (path : String) (h : Respelled e.path path) :
    Endpoint.key { e with path := path } = e.key ∧
    (∀ apps, Folder.segments { e with path := path } apps = Folder.segments e apps) ∧
    needsAuthorization { e with path := path } = needsAuthorization e ∧
    ((requestName { e with path := path } = requestName e ∧
        requestDescription { e with path := path } (summary { e with path := path })
          = requestDescription e (summary e)) ↔
      (RepeatsAsWritten (trimmed e.description) e.method.word path ↔
        RepeatsAsWritten (trimmed e.description) e.method.word e.path) ∨
      trimmed e.summary = trimmed e.description) := by
  have hkey : Endpoint.key { e with path := path } = e.key := by
    rw [Endpoint.key, Endpoint.key, Route.key, Route.key, ← h.display]
  refine ⟨hkey, segments_respelled h, needsAuthorization_respelled h, ?_⟩
  rw [← isBare_respelled_iff h]
  -- where the spellings count alike, everything agrees
  by_cases hbare : isBare (some (trimmed e.description)) e.method.word path
      = isBare (some (trimmed e.description)) e.method.word e.path
  · obtain ⟨hsummary, hdescription⟩ := presented_of_isBare h hbare
    refine iff_of_true ⟨requestName_respelled h hsummary, ?_⟩ (.inl hbare)
    rw [hsummary, hdescription]
  -- where they do not, one of them has the summary alone and the other one everything
  have hne : trimmed e.description ≠ "" := by
    intro hempty
    have hall : ∀ p, isBare (some (trimmed e.description)) e.method.word p = true := by
      intro p
      rw [isBare_iff, trimmed_some_trimmed]
      exact .inl (.inl hempty)
    exact hbare ((hall path).trans (hall e.path).symm)
  have hfull : fullDescription { e with path := path } = fullDescription e := rfl
  have hdescribed : requestDescription { e with path := path } (summary { e with path := path })
      = requestDescription e (summary e) ↔ trimmed e.summary = trimmed e.description := by
    rw [requestDescription_summary, requestDescription_summary, hfull, ← fullDescription_eq_iff]
    cases hother : isBare (some (trimmed e.description)) e.method.word path with
    | true =>
      rw [hother] at hbare
      rw [Bool.eq_false_iff.mpr (Ne.symm hbare), if_pos rfl, if_neg Bool.false_ne_true]
      exact eq_comm
    | false =>
      rw [hother] at hbare
      rw [Bool.of_not_eq_false (Ne.symm hbare), if_pos rfl, if_neg Bool.false_ne_true]
  rw [hdescribed]
  constructor
  · rintro ⟨-, hsame⟩
    exact .inr hsame
  · intro hor
    have hsame := hor.resolve_left hbare
    have hdeclared : hasSummary e = true := (hasSummary_iff e).mpr (hsame.trans_ne hne)
    have hother : summary { e with path := path } = trimmed e.summary := summary_of_declared hdeclared
    exact ⟨requestName_respelled h (hother.trans (summary_of_declared hdeclared).symm), hsame⟩

/-- Two placeholders written anew, and a description that repeats the path in a third way.  Both
    spellings are described alike since the description repeats neither of them as it is written. -/
theorem presented_alike_in_braces :
    let e : Endpoint :=
      { method := .get, path := "/orgs/:org/users/\x7b\x7bid\x7d\x7d/",
        description := some " get /orgs/\x7borg\x7d/users/\x7bid\x7d" }
    let path := "orgs/\x7borg\x7d/users/:id"
    Respelled e.path path ∧
      requestName { e with path := path } = requestName e ∧
      requestDescription { e with path := path } (summary { e with path := path })
        = requestDescription e (summary e) := by
  intro e path
  have hown : Route.segmentChars e.path.toList = ["orgs".toList, Route.behindColon "org".toList,
      "users".toList, Route.inDoubleBraces "id".toList] := by decide +kernel
  have hother : Route.segmentChars path.toList = ["orgs".toList, Route.inBraces "org".toList,
      "users".toList, Route.behindColon "id".toList] := by decide +kernel
  have hrespelled : Respelled e.path path := by
    rw [Respelled, hown, hother]
    exact .cons (.text ⟨by decide +kernel, by decide +kernel, by decide +kernel⟩)
      (.cons (.hole .colon .single (by decide +kernel))
        (.cons (.text ⟨by decide +kernel, by decide +kernel, by decide +kernel⟩)
          (.cons (.hole .double .colon (by decide +kernel)) .nil)))
  -- in braces the description repeats both, so it repeats neither as it is written
  have hneither : ∀ p, Route.display p = Route.display e.path →
      ¬RepeatsAsWritten (trimmed e.description) e.method.word p := by
    intro p hp hrepeats
    refine hrepeats.not_in_braces (.inl ?_)
    rw [hp]
    decide +kernel
  exact ⟨hrespelled, (presented_alike_iff e path hrespelled).2.2.2.mpr
    (.inl (iff_of_false (hneither path hrespelled.display.symm) (hneither e.path rfl)))⟩

/-- Behind a colon the description is known for what it is, in braces it becomes the name.  The
    description is compared with the path as written and in braces, and for the second spelling it
    is neither. -/
theorem presented_apart_behind_colon :
    let e : Endpoint :=
      { method := .get, path := "/users/:id", description := some "GET /users/:id" }
    let path := "/users/\x7bid\x7d"
    Respelled e.path path ∧
      requestName e = "Get Users - GET /users/\x7bid\x7d" ∧
      requestDescription e (summary e) = "" ∧
      requestName { e with path := path } = "/users/:id - GET /users/\x7bid\x7d" ∧
      requestDescription { e with path := path } (summary { e with path := path })
        = "GET /users/:id" := by
  intro e path
  have hown : Route.segmentChars e.path.toList = ["users".toList, Route.behindColon "id".toList] := by
    decide +kernel
  have hother : Route.segmentChars path.toList = ["users".toList, Route.inBraces "id".toList] := by
    decide +kernel
  have hrespelled : Respelled e.path path := by
    rw [Respelled, hown, hother]
    exact .cons (.text ⟨by decide +kernel, by decide +kernel, by decide +kernel⟩)
      (.cons (.hole .colon .single (by decide +kernel)) .nil)
  exact ⟨hrespelled, by decide +kernel, by decide +kernel, by decide +kernel, by decide +kernel⟩

end Wording

end RouteAtlas
