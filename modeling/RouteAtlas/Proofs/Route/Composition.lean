/-
  Joining paths puts their segments one behind another.

  ==== Problem ====

  A route stands below a mount, which stands below a base path.  Whoever composes the three may do
  it in any order and in any spelling: with and without slashes at the seam, with slashes repeated,
  with parts that are the root, empty or missing.  Nothing of that may show in the result.

  ==== Program ====

  1. **Specification** - a path is its segments: in normal form, a slash and the segments with slashes
     between them (`normalize_eq_ofSegments`).

  2. **Joining** - two paths joined are the segments of both, written (`join_eq_ofSegments`), and what
     is written is read back (`segments_join`).

  3. **Consequences** - both sides of every law are normal paths, so it is enough that they have the
     same segments.  Those are lists: appending is associative, the empty list is neutral, and what is
     appended can be taken off again.

  ==== The crux ====

  At the seam a slash is put between two normal paths, and the second begins with one itself.  Read
  as parts, that is an empty part between the segments of the two, and empty parts are dropped
  (`joinChars_eq`).
-/
import RouteAtlas.Proofs.Route.Segment

namespace RouteAtlas.Route

/-! ## Characters

Joining is defined on characters.  Both paths are made normal, put together with a slash between
them, and made normal again; the parts that this last step drops are those at the seam. -/

/-- No character is white space. -/
def NoBlank (cs : List Char) : Prop := ∀ c ∈ cs, Text.isBlank c = false

instance (cs : List Char) : Decidable (NoBlank cs) :=
  List.decidableBAll (fun c => Text.isBlank c = false) cs

/-- Without white space in a path there is none in its segments. -/
theorem noBlank_of_mem_segmentChars {cs s : List Char} (h : NoBlank cs) (hs : s ∈ segmentChars cs) :
    NoBlank s :=
  fun c hc => h c (mem_of_mem_segmentChars hs hc)

/-- A normal path is the root when there are no segments. -/
theorem normalChars_eq_root_iff (cs : List Char) : normalChars cs = ['/'] ↔ segmentChars cs = [] := by
  rw [normalChars_eq]
  constructor
  · intro hroot
    cases hsegments : segmentChars cs with
    | nil => rfl
    | cons s rest =>
      rw [hsegments] at hroot
      have hs : s ++ joined rest = [] := (List.cons.inj hroot).2
      have hmem : s ∈ segmentChars cs := hsegments ▸ List.mem_cons_self
      exact absurd (List.append_eq_nil_iff.mp hs).1 (isSegment_of_mem hmem).ne_nil
  · intro hsegments
    rw [hsegments]
    rfl

/-- None of the segments of a path is dropped as empty. -/
theorem filter_segmentChars (cs : List Char) :
    (segmentChars cs).filter (fun s => !s.isEmpty) = segmentChars cs := by
  refine List.filter_eq_self.mpr fun s hs => ?_
  rw [List.isEmpty_eq_false_iff.mpr (isSegment_of_mem hs).ne_nil]
  rfl

/-- Segments and more segments with a slash between: the slash makes an empty part. -/
theorem joined_seam (l r : List (List Char)) :
    joined l ++ '/' :: joined r = joined (l ++ [] :: r) := by
  unfold joined
  rw [List.flatMap_append, List.flatMap_cons]
  rfl

section

variable {cs : List Char} (h : NoBlank cs)
include h

/-- A path in normal form is read as the path itself. -/
theorem segmentChars_normalChars : segmentChars (normalChars cs) = segmentChars cs := by
  rw [normalChars_eq]
  exact segmentChars_written (fun _ hs => isSegment_of_mem hs)
    fun _ hs => noBlank_of_mem_segmentChars h hs

end

section

variable {base child : List Char} (hbase : NoBlank base) (hchild : NoBlank child)
include hbase hchild

/-- **Two paths joined are the segments of both, written.** The root is the path without segments,
    so it is left out on either side; otherwise there is an empty part at the seam, which
    normalizing drops. -/
theorem joinChars_eq :
    joinChars base child = written (segmentChars base ++ segmentChars child) := by
  unfold joinChars
  dsimp only
  split
  · rename_i hroot
    rw [(normalChars_eq_root_iff base).mp hroot, List.nil_append, normalChars_eq]
  split
  · rename_i hroot
    rw [(normalChars_eq_root_iff child).mp hroot, List.append_nil, normalChars_eq]
  · rename_i hfirst hsecond
    have hne₁ : segmentChars base ≠ [] := fun h => hfirst ((normalChars_eq_root_iff base).mpr h)
    have hne₂ : segmentChars child ≠ [] := fun h => hsecond ((normalChars_eq_root_iff child).mpr h)
    have hparts : ∀ s ∈ segmentChars base ++ [] :: segmentChars child,
        '/' ∉ s ∧ ∀ c ∈ s, Text.isBlank c = false := by
      intro s hs
      rcases List.mem_append.mp hs with hs | hs
      · exact ⟨(isSegment_of_mem hs).no_slash, noBlank_of_mem_segmentChars hbase hs⟩
      · rcases List.mem_cons.mp hs with rfl | hs
        · exact ⟨List.not_mem_nil, fun c hc => absurd hc List.not_mem_nil⟩
        · exact ⟨(isSegment_of_mem hs).no_slash, noBlank_of_mem_segmentChars hchild hs⟩
    rw [normalChars_eq base, normalChars_eq child, written_of_ne_nil hne₁, written_of_ne_nil hne₂,
      joined_seam, normalChars_joined (fun s hs => (hparts s hs).1) fun s hs => (hparts s hs).2,
      List.filter_append, filter_nil_cons, filter_segmentChars, filter_segmentChars]

/-- The segments of a joined path are those of the first part, then those of the second. -/
theorem segmentChars_joinChars :
    segmentChars (joinChars base child) = segmentChars base ++ segmentChars child := by
  rw [joinChars_eq hbase hchild]
  refine segmentChars_written (fun s hs => ?_) fun s hs => ?_
  · exact (List.mem_append.mp hs).elim isSegment_of_mem isSegment_of_mem
  · exact (List.mem_append.mp hs).elim (noBlank_of_mem_segmentChars hbase)
      (noBlank_of_mem_segmentChars hchild)

/-- Nothing blank comes in by joining. -/
theorem noBlank_joinChars : NoBlank (joinChars base child) := by
  rw [joinChars_eq hbase hchild]
  intro c hc
  cases hsegments : segmentChars base ++ segmentChars child with
  | nil =>
    rw [hsegments] at hc
    obtain rfl := List.mem_singleton.mp hc
    decide
  | cons s rest =>
    rw [written_of_ne_nil (hsegments ▸ List.cons_ne_nil s rest)] at hc
    obtain ⟨t, ht, hc⟩ := List.mem_flatMap.mp hc
    rcases List.mem_cons.mp hc with rfl | hc
    · decide
    · rcases List.mem_append.mp ht with ht | ht
      · exact noBlank_of_mem_segmentChars hbase ht c hc
      · exact noBlank_of_mem_segmentChars hchild ht c hc

end

/-! ## Paths

The same for texts.  A path is told by its segments, so that two normal paths with the same segments
are one. -/

/-- A path in normal form: it begins with a slash, no slash follows another one, and only the root
    ends with one. -/
structure IsNormal (path : String) : Prop where
  leading : path.toList.head? = some '/'
  no_empty : ¬['/', '/'] <:+: path.toList
  no_tail : path ≠ "/" → path.toList.getLast? ≠ some '/'

/-- The path with the given segments. -/
def ofSegments (segments : List String) : String := "/" ++ "/".intercalate segments

/-- Texts put together with slashes between them are the segments written. -/
theorem toList_ofSegments (segments : List (List Char)) :
    (ofSegments (segments.map String.ofList)).toList = written segments := by
  have hjoined : ∀ (s : List Char) (rest : List (List Char)),
      joined (s :: rest) = '/' :: ['/'].intercalate (s :: rest) := by
    intro s rest
    induction rest generalizing s with
    | nil => simp
    | cons t rest ih => rw [joined_cons, ih, List.intercalate_cons_cons]; simp
  cases segments with
  | nil => rfl
  | cons s rest =>
    rw [written, hjoined, ofSegments, String.toList_append, String.toList_intercalate]
    simp

/-- **In normal form a path is its segments**, with a slash before each of them. -/
theorem normalize_eq_ofSegments (path : String) : normalize path = ofSegments (segments path) := by
  refine String.toList_inj.mp ?_
  rw [segments, toList_ofSegments, normalize, String.toList_ofList, normalChars_eq]

/-- Every normal form is normal. -/
theorem isNormal_normalize (path : String) : IsNormal (normalize path) := by
  obtain ⟨l, hl, hsqueezed, hlast⟩ := exists_normalChars path.toList
  have htext : (normalize path).toList = '/' :: l := by
    rw [normalize, String.toList_ofList, hl]
  refine ⟨?_, ?_, fun hroot => ?_⟩
  · rw [htext]
    rfl
  · rw [htext]
    intro hinfix
    have hpair := hsqueezed.infix hinfix
    exact (List.isChain_cons_cons.mp hpair).1 rfl rfl
  · rw [htext]
    cases l with
    | nil => exact absurd (String.toList_inj.mp htext) hroot
    | cons c l =>
      rw [List.getLast?_cons_cons]
      exact hlast

section

variable {base child : String} (hbase : NoBlank base.toList) (hchild : NoBlank child.toList)

include hbase in
theorem segments_normalize : segments (normalize base) = segments base := by
  rw [segments, normalize, String.toList_ofList, segmentChars_normalChars hbase, segments]

include hbase hchild

/-- **The segments of a joined path** are those of the first part, then those of the second. -/
theorem segments_join : segments (join base child) = segments base ++ segments child := by
  rw [segments, join, String.toList_ofList, segmentChars_joinChars hbase hchild, List.map_append,
    segments, segments]

/-- **A joined path is written from the segments of both.** -/
theorem join_eq_ofSegments : join base child = ofSegments (segments base ++ segments child) := by
  refine String.toList_inj.mp ?_
  rw [segments, segments, ← List.map_append, toList_ofSegments, join, String.toList_ofList,
    joinChars_eq hbase hchild]

/-- Joining brings in no white space. -/
theorem noBlank_join : NoBlank (join base child).toList := by
  rw [join, String.toList_ofList]
  exact noBlank_joinChars hbase hchild

/-- A joined path is its own normal form. -/
theorem normalize_join : normalize (join base child) = join base child := by
  rw [normalize_eq_ofSegments, segments_join hbase hchild, join_eq_ofSegments hbase hchild]

end

/-! ## The laws of composing

A missing path counts as the empty one.  The laws ask for no more than that no path has white space
in it; where one has, trimming may drop what joining has put behind it. -/

/-- What holds of three paths, any of which may be missing. -/
structure ComposesBySegments (a b c : Option String) : Prop where
  /-- A normal form is written from its segments. -/
  normalized : normalize (given a) = "/" ++ "/".intercalate (segments (given a))
  appended : segments (join (given a) (given b)) = segments (given a) ++ segments (given b)
  idempotent : normalize (normalize (given a)) = normalize (given a)
  associative : join (join (given a) (given b)) (given c) = join (given a) (join (given b) (given c))
  /-- The root, in any of its spellings, adds nothing in front or behind. -/
  neutral : ∀ root ∈ [some "/", some "", none],
    join (given root) (given a) = normalize (given a) ∧
      join (given a) (given root) = normalize (given a)
  normal : IsNormal (normalize (given a)) ∧ IsNormal (join (given a) (given b))
  /-- Below one child, different prefixes stay different. -/
  cancels : normalize (given a) ≠ normalize (given b) →
    join (given a) (given c) ≠ join (given b) (given c)

/-- **Paths without white space compose by appending their segments.** Everything follows from two
    facts: a path is determined by its segments once it is normalized, and joining appends segments. -/
theorem join_composes {a b c : Option String} (ha : NoBlank (given a).toList)
    (hb : NoBlank (given b).toList) (hc : NoBlank (given c).toList) : ComposesBySegments a b c where
  normalized := normalize_eq_ofSegments (given a)
  appended := segments_join ha hb
  idempotent := by
    rw [normalize_eq_ofSegments (normalize (given a)), segments_normalize ha,
      ← normalize_eq_ofSegments]
  associative := by
    rw [join_eq_ofSegments (noBlank_join ha hb) hc, join_eq_ofSegments ha (noBlank_join hb hc),
      segments_join ha hb, segments_join hb hc, List.append_assoc]
  neutral := by
    have hspellings : ∀ root ∈ [some "/", some "", none],
        segments (given root) = [] ∧ NoBlank (given root).toList := by decide
    intro root hroot
    obtain ⟨hnone, hblank⟩ := hspellings root hroot
    rw [join_eq_ofSegments hblank ha, join_eq_ofSegments ha hblank, hnone, List.nil_append,
      List.append_nil, normalize_eq_ofSegments]
    exact ⟨rfl, rfl⟩
  normal := by
    refine ⟨isNormal_normalize _, ?_⟩
    rw [← normalize_join ha hb]
    exact isNormal_normalize _
  cancels := by
    intro hne heq
    have hsegments := congrArg segments heq
    rw [segments_join ha hc, segments_join hb hc] at hsegments
    have hprefix := List.append_cancel_right hsegments
    rw [normalize_eq_ofSegments, normalize_eq_ofSegments, hprefix] at hne
    exact hne rfl

/-- A prefix that is slashes and an `api`, a missing one and a path with slashes all over. -/
theorem join_composes_slashes :
    NoBlank (given (some "//api/")).toList ∧ NoBlank (given none).toList ∧
    NoBlank (given (some "users//:id/")).toList ∧
    ComposesBySegments (some "//api/") none (some "users//:id/") ∧
    join (join "//api/" "") "users//:id/" = "/api/users/:id" := by
  have ha : NoBlank (given (some "//api/")).toList := by decide
  have hb : NoBlank (given none).toList := by decide
  have hc : NoBlank (given (some "users//:id/")).toList := by decide
  exact ⟨ha, hb, hc, join_composes ha hb hc, by decide⟩

end RouteAtlas.Route
