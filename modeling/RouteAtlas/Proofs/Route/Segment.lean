/-
  Paths as sequences of segments.

  ==== Problem ====

  A path is written by its characters and read by its segments.  A normal path is the slash alone,
  or every segment behind a slash (`written`).

  ==== Program ====

  1. **Joining** - whatever a text is cut into at its slashes, put together again it is the text
     with a slash in front (`joined_splitAt`).

  2. **Normal paths** - in a normal path no slash follows another one and none is at the end, so none
     of the parts is empty: a path in normal form is its segments written (`normalChars_eq`).

  3. **Reading** - making a path normal drops empty parts and nothing else, so the segments of a path
     are the parts that are not empty, whatever slashes stand around them (`segmentChars_eq`).

  4. **The other way** - segments without slash and blanks are read back, but for the empty ones
     (`segmentChars_joined`); where none is empty, they are in normal form when written
     (`normalChars_written`).
-/
import Mathlib.Data.List.Chain
import RouteAtlas.Proofs.Text.Split
import RouteAtlas.Route.Path

namespace RouteAtlas.Route

/-- Every segment behind a slash. -/
def joined (segments : List (List Char)) : List Char := segments.flatMap ('/' :: ·)

/-- The path with the given segments; the root has none. -/
def written (segments : List (List Char)) : List Char :=
  match segments with
  | [] => ['/']
  | _ :: _ => joined segments

/-- A segment as a normal path has it. -/
structure IsSegment (s : List Char) : Prop where
  ne_nil : s ≠ []
  no_slash : '/' ∉ s

/-- Of no segments nothing is written, not even the slash of the root: that is what `written` is
    for. -/
@[simp] theorem joined_nil : joined [] = [] := rfl

/-- The first segment stands behind a slash, and the others follow it. -/
@[simp] theorem joined_cons (s : List Char) (segments : List (List Char)) :
    joined (s :: segments) = '/' :: (s ++ joined segments) := rfl

/-- Only the root is written in a way of its own. -/
theorem written_of_ne_nil {segments : List (List Char)} (h : segments ≠ []) :
    written segments = joined segments := by
  cases segments with
  | nil => exact absurd rfl h
  | cons s segments => rfl

/-! ## Cutting and joining

The parts of a text are what stands between its slashes.  There is always one more part than there
are slashes, so a text with a slash in front has an empty first part; this is why joining puts a
slash before every segment and not between them. -/

/-- The parts between slashes. -/
abbrev parts (cs : List Char) : List (List Char) := Text.splitAt (· == '/') cs

theorem parts_cons_slash (cs : List Char) : parts ('/' :: cs) = [] :: parts cs := rfl

/-- A character that is no slash goes to the first part. -/
theorem parts_cons_of_ne {c : Char} (h : c ≠ '/') (cs : List Char) : ∃ s rest,
    parts cs = s :: rest ∧ parts (c :: cs) = (c :: s) :: rest :=
  Text.splitAt_cons_of_not (p := (· == '/')) (fun heq => h (eq_of_beq heq)) cs

/-- **Cut and put together again**, a text has a slash in front. -/
theorem joined_splitAt (cs : List Char) : joined (parts cs) = '/' :: cs := by
  induction cs with
  | nil => rfl
  | cons c cs ih =>
    by_cases hc : c = '/'
    · subst hc
      rw [parts_cons_slash, joined_cons, ih, List.nil_append]
    · obtain ⟨s, rest, hs, hparts⟩ := parts_cons_of_ne hc cs
      rw [hs, joined_cons, List.cons.injEq] at ih
      rw [hparts, joined_cons, List.cons_append, ih.2]

/-- Without a slash there is one part, the whole text. -/
theorem parts_of_no_slash {s : List Char} (h : '/' ∉ s) : parts s = [s] := Text.splitAt_of_not_mem h

/-- A slash parts a text in two. -/
theorem parts_append_slash (s cs : List Char) : parts (s ++ '/' :: cs) = parts s ++ parts cs :=
  Text.splitAt_append s cs

/-- No part has a slash.  Only the first part grows by the induction, and a slash begins a new one. -/
theorem no_slash_of_mem_parts {cs s : List Char} (h : s ∈ parts cs) : '/' ∉ s := by
  induction cs generalizing s with
  | nil =>
    obtain rfl := List.mem_singleton.mp h
    exact List.not_mem_nil
  | cons c cs ih =>
    by_cases hc : c = '/'
    · subst hc
      rcases List.mem_cons.mp h with rfl | h
      · exact List.not_mem_nil
      · exact ih h
    · obtain ⟨s', rest, hs, hparts⟩ := parts_cons_of_ne hc cs
      rw [hparts] at h
      rw [hs] at ih
      rcases List.mem_cons.mp h with rfl | h
      · intro hmem
        rcases List.mem_cons.mp hmem with heq | hmem
        · exact hc heq.symm
        · exact ih (List.mem_cons_self ..) hmem
      · exact ih (List.mem_cons_of_mem _ h)

/-! ## Normal paths

The normal form is made in three steps: a slash is put in front, slashes that follow another one are
dropped, and a slash at the end is dropped.  What the result looks like is said without these steps,
by its characters (`exists_normalChars`), and then by its segments (`normalChars_eq`). -/

/-- No slash follows another one. -/
def Squeezed (cs : List Char) : Prop := cs.IsChain fun a b => a = '/' → b ≠ '/'

/-- A character that is no slash may stand in front of anything. -/
theorem squeezed_cons {c : Char} (h : c ≠ '/') {cs : List Char} (hcs : Squeezed cs) :
    Squeezed (c :: cs) := by
  cases cs with
  | nil => exact .singleton c
  | cons d cs => exact List.isChain_cons_cons.mpr ⟨fun heq => absurd heq h, hcs⟩

/-- Squeezing leaves no two slashes together, whether one was just written or not. -/
theorem squeezed_squeezeFrom (cs : List Char) :
    Squeezed (squeezeFrom false cs) ∧ Squeezed ('/' :: squeezeFrom true cs) := by
  induction cs with
  | nil => exact ⟨.nil, .singleton '/'⟩
  | cons c cs ih =>
    by_cases hc : c = '/'
    · subst hc
      exact ⟨ih.2, ih.2⟩
    · have hplain := squeezed_cons hc ih.1
      have hfirst : squeezeFrom false (c :: cs) = c :: squeezeFrom false cs := by
        rw [squeezeFrom, if_neg hc]
      have hsecond : squeezeFrom true (c :: cs) = c :: squeezeFrom false cs := by
        rw [squeezeFrom, if_neg hc]
      rw [hfirst, hsecond]
      exact ⟨hplain, List.isChain_cons_cons.mpr ⟨fun _ => hc, hplain⟩⟩

/-- Behind the first one, the parts of a squeezed text are not empty, if no slash ends it.  An empty
    part would stand between two slashes or behind the last one. -/
theorem ne_nil_of_mem_tail_parts {cs : List Char} (h : Squeezed cs)
    (hlast : cs.getLast? ≠ some '/') : ∀ s ∈ (parts cs).tail, s ≠ [] := by
  induction cs with
  | nil => exact fun s hs => absurd hs (List.not_mem_nil)
  | cons c cs ih =>
    cases cs with
    | nil =>
      have hc : c ≠ '/' := fun heq => hlast (congrArg some heq)
      obtain ⟨s, rest, hs, hparts⟩ := parts_cons_of_ne hc []
      obtain ⟨rfl, rfl⟩ := List.cons.inj hs
      rw [hparts]
      exact fun s hs => absurd hs (List.not_mem_nil)
    | cons d cs =>
      -- the induction takes the text off character by character; the second one is looked at, since
      -- it decides whether a part that ends here is empty
      obtain ⟨hcd, hrest⟩ := List.isChain_cons_cons.mp h
      rw [List.getLast?_cons_cons] at hlast
      have ih := ih hrest hlast
      by_cases hc : c = '/'
      · obtain ⟨s, rest, hs, hparts⟩ := parts_cons_of_ne (hcd hc) cs
        rw [hparts] at ih
        subst hc
        rw [parts_cons_slash, List.tail_cons, hparts]
        intro s' hs'
        rcases List.mem_cons.mp hs' with rfl | hs'
        · exact List.cons_ne_nil _ _
        · exact ih s' hs'
      · obtain ⟨s, rest, hs, hparts⟩ := parts_cons_of_ne hc (d :: cs)
        rw [hs] at ih
        rw [hparts]
        exact ih

/-- What a normal path looks like: a slash, and behind it no empty part.  Blanks are trimmed, a
    slash is put in front, runs of slashes are squeezed, and one at the end is dropped. -/
theorem exists_normalChars (cs : List Char) : ∃ l, normalChars cs = '/' :: l ∧
    Squeezed ('/' :: l) ∧ l.getLast? ≠ some '/' := by
  have hrooted : ∃ x, rooted (Text.trimChars cs) = '/' :: x := by
    unfold rooted
    split
    · rename_i rest heq
      exact ⟨rest, heq⟩
    · exact ⟨_, rfl⟩
  obtain ⟨x, hx⟩ := hrooted
  have hsqueeze : squeeze (rooted (Text.trimChars cs)) = '/' :: squeezeFrom true x := by
    rw [hx]
    rfl
  have hsqueezed := (squeezed_squeezeFrom x).2
  rw [normalChars, hsqueeze, withoutTail]
  cases hr : squeezeFrom true x with
  | nil => exact ⟨[], rfl, .singleton '/', by decide⟩
  | cons a r =>
    rw [hr] at hsqueezed
    by_cases hlast : (a :: r).getLast? = some '/'
    -- squeezing may leave one slash at the end, which goes here, and there is no other one before it
    · have hcond : (('/' :: a :: r).length > 1 && ('/' :: a :: r).getLast? == some '/') = true := by
        rw [List.getLast?_cons_cons, hlast]
        simp
      rw [if_pos hcond]
      refine ⟨(a :: r).dropLast, rfl, ?_⟩
      have hsplit : '/' :: a :: r = ('/' :: (a :: r).dropLast) ++ ['/'] := by
        rw [List.cons_append, List.dropLast_append_getLast? _ hlast]
      rw [hsplit] at hsqueezed
      obtain ⟨hfront, -, hjoin⟩ := List.isChain_append.mp hsqueezed
      refine ⟨hfront, fun hend => ?_⟩
      have hend' : ('/' :: (a :: r).dropLast).getLast? = some '/' := by
        cases hd : (a :: r).dropLast with
        | nil => rfl
        | cons b d =>
          rw [List.getLast?_cons_cons, ← hd]
          exact hend
      exact hjoin '/' hend' '/' rfl rfl rfl
    · have hcond : ¬(('/' :: a :: r).length > 1 && ('/' :: a :: r).getLast? == some '/') = true := by
        rw [List.getLast?_cons_cons]
        simp [hlast]
      rw [if_neg hcond]
      exact ⟨a :: r, rfl, hsqueezed, hlast⟩

/-- **A path in normal form is its segments written.** Its parts are not empty but for the one
    before the first slash, and filtering drops that one only. -/
theorem normalChars_eq (cs : List Char) : normalChars cs = written (segmentChars cs) := by
  obtain ⟨l, hl, hsqueezed, hlast⟩ := exists_normalChars cs
  rw [segmentChars, hl]
  show '/' :: l = written ((parts ('/' :: l)).filter fun s => !s.isEmpty)
  have hempty : ¬(!([] : List Char).isEmpty) = true := by decide
  rw [parts_cons_slash, List.filter_cons_of_neg (p := fun s : List Char => !s.isEmpty) hempty]
  cases l with
  | nil => rfl
  | cons c l =>
    obtain ⟨hfirst, hrest⟩ := List.isChain_cons_cons.mp hsqueezed
    obtain ⟨s, rest, hs, hparts⟩ := parts_cons_of_ne (hfirst rfl) l
    have htail := ne_nil_of_mem_tail_parts hrest hlast
    have hall : (parts (c :: l)).filter (fun s => !s.isEmpty) = parts (c :: l) := by
      refine List.filter_eq_self.mpr fun s' hs' => ?_
      have hne : s' ≠ [] := by
        rw [hparts] at hs' htail
        rcases List.mem_cons.mp hs' with rfl | hs'
        · exact List.cons_ne_nil _ _
        · exact htail s' hs'
      rw [List.isEmpty_eq_false_iff.mpr hne]
      rfl
    have hsome : parts (c :: l) ≠ [] := by
      rw [hparts]
      exact List.cons_ne_nil _ _
    rw [hall, written_of_ne_nil hsome, joined_splitAt]

/-- The segments of a path are segments. -/
theorem isSegment_of_mem {cs s : List Char} (h : s ∈ segmentChars cs) : IsSegment s := by
  obtain ⟨hmem, hne⟩ := List.mem_filter.mp h
  refine ⟨?_, no_slash_of_mem_parts hmem⟩
  rintro rfl
  exact absurd hne (by decide)

/-! ## What normal form drops

Nothing but empty parts.  This is shown for each of the three steps on its own, and then for all of
them. -/

/-- The parts between slashes that are not empty. -/
abbrev solidParts (cs : List Char) : List (List Char) := (parts cs).filter fun s => !s.isEmpty

/-- An empty segment in front is dropped. -/
theorem filter_nil_cons (segments : List (List Char)) :
    ([] :: segments).filter (fun s => !s.isEmpty) = segments.filter fun s => !s.isEmpty :=
  List.filter_cons_of_neg (p := fun s : List Char => !s.isEmpty) (by decide)

theorem solidParts_cons_slash (cs : List Char) : solidParts ('/' :: cs) = solidParts cs :=
  filter_nil_cons (parts cs)

/-- Squeezing leaves the first part as it is and drops empty ones behind it; behind a slash that was
    just written, it drops empty ones only. -/
theorem solidParts_squeezeFrom (cs : List Char) :
    ((parts (squeezeFrom false cs)).head? = (parts cs).head? ∧
      (parts (squeezeFrom false cs)).tail.filter (fun s => !s.isEmpty)
        = (parts cs).tail.filter fun s => !s.isEmpty) ∧
    solidParts (squeezeFrom true cs) = solidParts cs := by
  induction cs with
  | nil => exact ⟨⟨rfl, rfl⟩, rfl⟩
  | cons c cs ih =>
    -- the first part is kept apart from the others: a slash that was just written empties it, and a
    -- character goes to it, so no statement about all parts at once is kept by both
    obtain ⟨⟨ihHead, ihTail⟩, ihRun⟩ := ih
    by_cases hc : c = '/'
    · subst hc
      have hfirst : squeezeFrom false ('/' :: cs) = '/' :: squeezeFrom true cs := rfl
      have hsecond : squeezeFrom true ('/' :: cs) = squeezeFrom true cs := rfl
      rw [hfirst, hsecond, solidParts_cons_slash, parts_cons_slash, parts_cons_slash]
      exact ⟨⟨rfl, ihRun⟩, ihRun⟩
    · -- a character that is no slash goes to the first part on both sides
      have hany : ∀ inRun, squeezeFrom inRun (c :: cs) = c :: squeezeFrom false cs := by
        intro inRun
        rw [squeezeFrom, if_neg hc]
      obtain ⟨s, rest, hs, hparts⟩ := parts_cons_of_ne hc cs
      obtain ⟨s', rest', hs', hparts'⟩ := parts_cons_of_ne hc (squeezeFrom false cs)
      rw [hs, hs'] at ihHead ihTail
      obtain rfl : s' = s := Option.some.inj ihHead
      rw [hany, hany, hparts', hparts]
      refine ⟨⟨rfl, ihTail⟩, ?_⟩
      show solidParts (c :: squeezeFrom false cs) = solidParts (c :: cs)
      rw [solidParts, solidParts, hparts', hparts, List.filter_cons, List.filter_cons]
      simp only [List.tail_cons] at ihTail
      rw [ihTail]

/-- Dropping slashes that follow another one drops empty parts only. -/
theorem solidParts_squeeze (cs : List Char) : solidParts (squeeze cs) = solidParts cs := by
  obtain ⟨⟨hhead, htail⟩, -⟩ := solidParts_squeezeFrom cs
  rw [squeeze, solidParts, solidParts]
  cases hs : parts (squeezeFrom false cs) with
  | nil =>
    rw [hs] at hhead
    rw [List.head?_eq_none_iff.mp hhead.symm]
  | cons s rest =>
    rw [hs] at hhead htail
    obtain ⟨rest', hrest⟩ := List.head?_eq_some_iff.mp hhead.symm
    rw [hrest] at htail ⊢
    simp only [List.tail_cons] at htail
    rw [List.filter_cons, List.filter_cons, htail]

/-- A slash that is put in front makes no part that counts. -/
theorem solidParts_rooted (cs : List Char) : solidParts (rooted cs) = solidParts cs := by
  unfold rooted
  split
  · rfl
  · exact solidParts_cons_slash cs

/-- Dropping the slash at the end drops an empty part only. -/
theorem solidParts_withoutTail (cs : List Char) : solidParts (withoutTail cs) = solidParts cs := by
  rw [withoutTail]
  split
  · rename_i hlast
    rw [Bool.and_eq_true, beq_iff_eq] at hlast
    have hsplit := List.dropLast_append_getLast? _ hlast.2
    conv => rhs; rw [← hsplit]
    rw [solidParts, solidParts, parts_append_slash, List.filter_append]
    exact (List.append_nil _).symm
  · rfl

/-- **The segments of a path** are the parts between its slashes that are not empty. -/
theorem segmentChars_eq (cs : List Char) : segmentChars cs = solidParts (Text.trimChars cs) := by
  show solidParts (normalChars cs) = _
  rw [normalChars, solidParts_withoutTail, solidParts_squeeze, solidParts_rooted]

/-! ## Segments that are written

The other way round: segments are written and read again.  A segment must have no slash in it, or it
would be read as two, and no blank, or making the path normal would trim it where it stands at the
end. -/

/-- Joined segments are cut where they were joined, and there is an empty part in front of the first
    slash. -/
theorem parts_joined {segments : List (List Char)} (h : ∀ s ∈ segments, '/' ∉ s) :
    parts (joined segments) = [] :: segments := by
  induction segments with
  | nil => rfl
  | cons s segments ih =>
    have hs := parts_of_no_slash (h s (List.mem_cons_self ..))
    have ih := ih fun t ht => h t (List.mem_cons_of_mem _ ht)
    rw [joined_cons, parts_cons_slash]
    cases segments with
    | nil => rw [joined_nil, List.append_nil, hs]
    | cons t segments =>
      rw [joined_cons, parts_cons_slash, List.cons.injEq] at ih
      rw [joined_cons, parts_append_slash, hs, ih.2, List.singleton_append]

section

variable {segments : List (List Char)} (hslash : ∀ s ∈ segments, '/' ∉ s)
  (hblank : ∀ s ∈ segments, ∀ c ∈ s, Text.isBlank c = false)
include hslash hblank

/-- **What is joined is read back**, but for the empty segments. -/
theorem segmentChars_joined :
    segmentChars (joined segments) = segments.filter fun s => !s.isEmpty := by
  have hnoBlank : ∀ c ∈ joined segments, Text.isBlank c = false := by
    intro c hc
    obtain ⟨t, ht, hc⟩ := List.mem_flatMap.mp hc
    rcases List.mem_cons.mp hc with rfl | hc
    · decide
    · exact hblank t ht c hc
  rw [segmentChars_eq, Text.trimChars_of_noBlank hnoBlank, solidParts, parts_joined hslash,
    filter_nil_cons]

/-- In normal form, segments that are joined are written without the empty ones. -/
theorem normalChars_joined :
    normalChars (joined segments) = written (segments.filter fun s => !s.isEmpty) := by
  rw [normalChars_eq, segmentChars_joined hslash hblank]

end

section

variable {segments : List (List Char)} (h : ∀ s ∈ segments, IsSegment s)
  (hblank : ∀ s ∈ segments, ∀ c ∈ s, Text.isBlank c = false)
include h hblank

/-- **What is written is read back**, segment by segment. -/
theorem segmentChars_written : segmentChars (written segments) = segments := by
  cases hsegments : segments with
  | nil => rfl
  | cons s rest =>
    rw [← hsegments, written_of_ne_nil (hsegments ▸ List.cons_ne_nil s rest),
      segmentChars_joined (fun t ht => (h t ht).no_slash) hblank]
    refine List.filter_eq_self.mpr fun t ht => ?_
    rw [List.isEmpty_eq_false_iff.mpr (h t ht).ne_nil]
    rfl

/-- **Written segments are a path in normal form**, as long as none of them has a blank. -/
theorem normalChars_written : normalChars (written segments) = written segments := by
  rw [normalChars_eq, segmentChars_written h hblank]

end

/-! ## Characters of a path

Reading a path makes up no character: whatever stands in one of its segments stands in the path.  So
what is asked of all characters of a path may be asked of those of its segments. -/

/-- Trimming makes up no character. -/
theorem mem_of_mem_trimChars {cs : List Char} {c : Char} (h : c ∈ Text.trimChars cs) : c ∈ cs := by
  have hback := List.mem_reverse.mp h
  have hfront := List.mem_reverse.mp ((List.dropWhile_sublist _).subset hback)
  exact (List.dropWhile_sublist _).subset hfront

/-- Squeezing makes up no character, either. -/
theorem mem_of_mem_squeezeFrom {inRun : Bool} {cs : List Char} {c : Char}
    (h : c ∈ squeezeFrom inRun cs) : c ∈ cs := by
  induction cs generalizing inRun with
  | nil => exact h
  | cons d cs ih =>
    rw [squeezeFrom] at h
    split at h
    · rename_i hd
      split at h
      · exact List.mem_cons_of_mem _ (ih h)
      · rcases List.mem_cons.mp h with rfl | h
        · exact hd ▸ List.mem_cons_self ..
        · exact List.mem_cons_of_mem _ (ih h)
    · rcases List.mem_cons.mp h with rfl | h
      · exact List.mem_cons_self ..
      · exact List.mem_cons_of_mem _ (ih h)

/-- What stands in a segment stands in the path. -/
theorem mem_of_mem_segmentChars {cs s : List Char} {c : Char} (hs : s ∈ segmentChars cs)
    (hc : c ∈ s) : c ∈ cs := by
  have hslash : c ≠ '/' := by
    rintro rfl
    exact (isSegment_of_mem hs).no_slash hc
  have hnormal : c ∈ normalChars cs := Text.mem_of_mem_splitAt (List.mem_filter.mp hs).1 hc
  have hsqueezed : c ∈ squeeze (rooted (Text.trimChars cs)) := by
    rw [normalChars, withoutTail] at hnormal
    split at hnormal
    · exact (List.dropLast_sublist _).subset hnormal
    · exact hnormal
  have hrooted : c ∈ rooted (Text.trimChars cs) := mem_of_mem_squeezeFrom hsqueezed
  unfold rooted at hrooted
  split at hrooted
  · exact mem_of_mem_trimChars hrooted
  · exact mem_of_mem_trimChars ((List.mem_cons.mp hrooted).resolve_left hslash)

end RouteAtlas.Route
