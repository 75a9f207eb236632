/-
  The one spelling of a place.

  ==== Problem ====

  Files are kept under their paths and named by their texts.  Both ways have to lead to one place: the
  text of a path that was cleaned, when it is cleaned again, is that path.

  ==== Program ====

  1. **Names** - once every `..` is taken back, those that are left stand in front and below no root
     (`Settled`), and then there is nothing more to take back (`resolveNames_of_settled`).

  2. **Texts** - a path whose names are not empty, no `.` and without slash (`WellFormed`) is read off
     its text (`ofText_text`).

  3. **Both** - cleaning gives paths of this kind, so a cleaned path is the one that its text names
     (`clean_text_clean`).
-/
import Mathlib.Data.List.Basic
import RouteAtlas.Proofs.Route.Segment
import RouteAtlas.Source.Location

namespace RouteAtlas.Source.Location

open Route (joined solidParts)

/-! ## Names

Cleaning takes `..` back against the name before it.  Names are settled when nothing can be taken
back any more. -/

/-- Names, last first, among which no `..` can be taken back: before it there are only others, and no
    root. -/
inductive Settled (rooted : Bool) : List String → Prop
  | nil : Settled rooted []
  | up {names : List String} : rooted = false → (∀ n ∈ names, n = "..") →
      Settled rooted (".." :: names)
  | name {n : String} {names : List String} : n ≠ ".." → Settled rooted names →
      Settled rooted (n :: names)

variable {rooted : Bool}

/-- Names that all go up are settled, where there is no root. -/
theorem settled_of_ups (hrooted : rooted = false) {names : List String}
    (h : ∀ n ∈ names, n = "..") : Settled rooted names := by
  cases names with
  | nil => exact .nil
  | cons n names =>
    obtain rfl := h n (List.mem_cons_self ..)
    exact .up hrooted fun m hm => h m (List.mem_cons_of_mem _ hm)

/-- What stands before settled names is settled. -/
theorem settled_of_append {later names : List String} (h : Settled rooted (later ++ names)) :
    Settled rooted names := by
  induction later with
  | nil => exact h
  | cons n later ih =>
    cases h with
    | up hrooted hups =>
      exact settled_of_ups hrooted fun m hm => hups m (List.mem_append_right _ hm)
    | name hn hrest => exact ih hrest

/-- The first name that is not `..` is kept; a `..` finds nothing to take back, or takes it.  The
    cases are those of the program. -/
theorem settled_resolveNames {kept : List String} (h : Settled rooted kept) (names : List String) :
    Settled rooted (resolveNames rooted kept names).reverse := by
  fun_induction resolveNames rooted kept names with
  | case1 kept =>
    rw [List.reverse_reverse]
    exact h
  | case2 kept n names hn ih => exact ih (.name (bne_iff_ne.mp hn) h)
  | case3 n names hn hrooted ih => exact ih h
  | case4 n names hn hrooted ih =>
    exact ih (.up (Bool.eq_false_iff.mpr hrooted) fun _ hm => absurd hm List.not_mem_nil)
  | case5 n names hn k ks hk ih =>
    obtain rfl := eq_of_beq hk
    cases h with
    | up hrooted hups =>
      refine ih (.up hrooted fun m hm => ?_)
      rcases List.mem_cons.mp hm with rfl | hm
      · rfl
      · exact hups m hm
    | name hne _ => exact absurd rfl hne
  | case6 n names hn k ks hk ih =>
    cases h with
    | up hrooted hups => exact absurd rfl hk
    | name _ hrest => exact ih hrest

/-- **Where no `..` can be taken back, the names stay.** The names that are kept are in reverse, the
    last one first, and the hypothesis is about all of them. -/
theorem resolveNames_of_settled {kept names : List String}
    (h : Settled rooted (names.reverse ++ kept)) :
    resolveNames rooted kept names = kept.reverse ++ names := by
  induction names generalizing kept with
  | nil =>
    rw [List.append_nil]
    cases kept <;> rfl
  | cons n names ih =>
    rw [List.reverse_cons, List.append_assoc, List.singleton_append] at h
    have ih := ih h
    rw [List.reverse_cons, List.append_assoc, List.singleton_append] at ih
    rw [← ih]
    cases settled_of_append h with
    | name hn hrest =>
      conv => lhs; rw [resolveNames.eq_def]
      exact if_pos (bne_iff_ne.mpr hn)
    | up hrooted hups =>
      subst hrooted
      cases kept with
      | nil => rfl
      | cons k kept =>
        obtain rfl := hups k (List.mem_cons_self ..)
        rfl

/-! ## Texts

A path is written with slashes and read back from that; roots are written as one or two slashes. -/

/-- A path as a text can write it. -/
structure WellFormed (p : Location) : Prop where
  root_eq : p.root ∈ ["", "/", "//"]
  ne_empty : ∀ n ∈ p.names, n ≠ ""
  ne_dot : ∀ n ∈ p.names, n ≠ "."
  no_slash : ∀ n ∈ p.names, '/' ∉ n.toList

/-- A path that is read from a text can be written.  Reading drops empty names and single dots, and
    splits at every slash. -/
theorem wellFormed_ofText (text : String) : WellFormed (ofText text) := by
  constructor
  case root_eq =>
    show rootOf text.toList ∈ _
    unfold rootOf
    split <;> decide
  case ne_empty =>
    intro n hn
    have hkept := (List.mem_filter.mp hn).2
    rw [Bool.and_eq_true] at hkept
    exact bne_iff_ne.mp hkept.1
  case ne_dot =>
    intro n hn
    have hkept := (List.mem_filter.mp hn).2
    rw [Bool.and_eq_true] at hkept
    exact bne_iff_ne.mp hkept.2
  case no_slash =>
    intro n hn
    obtain ⟨part, hpart, rfl⟩ := List.mem_map.mp (List.mem_filter.mp hn).1
    rw [String.toList_ofList]
    exact Route.no_slash_of_mem_parts hpart

/-- Taking back makes up no names but `..`. -/
theorem mem_of_mem_resolveNames {kept names : List String} {n : String}
    (h : n ∈ resolveNames rooted kept names) : n ∈ kept ∨ n ∈ names ∨ n = ".." := by
  fun_induction resolveNames rooted kept names with
  | case1 kept => exact .inl (List.mem_reverse.mp h)
  | case2 | case3 | case4 | case5 | case6 => grind

/-- A path that can be written can be when it is cleaned.  Cleaning drops names or keeps them, and a
    `..` that is kept is a name like any other. -/
theorem WellFormed.tidy {p : Location} (h : WellFormed p) : WellFormed p.tidy := by
  have hnames : ∀ n ∈ p.tidy.names, n ∈ p.names ∨ n = ".." := fun n hn =>
    (mem_of_mem_resolveNames hn).resolve_left List.not_mem_nil
  constructor
  case root_eq => exact h.root_eq
  case ne_empty =>
    intro n hn
    rcases hnames n hn with hn | rfl
    · exact h.ne_empty n hn
    · decide
  case ne_dot =>
    intro n hn
    rcases hnames n hn with hn | rfl
    · exact h.ne_dot n hn
    · decide
  case no_slash =>
    intro n hn
    rcases hnames n hn with hn | rfl
    · exact h.no_slash n hn
    · decide

/-- With a slash in front, parts that a slash is put between are parts behind a slash. -/
theorem cons_intercalate {segments : List (List Char)} (h : segments ≠ []) :
    '/' :: ['/'].intercalate segments = joined segments := by
  induction segments with
  | nil => exact absurd rfl h
  | cons s segments ih =>
    cases segments with
    | nil => simp [List.intercalate, joined]
    | cons t segments =>
      rw [Route.joined_cons, ← ih (List.cons_ne_nil _ _)]
      simp [List.intercalate]

/-- Parts that a slash is put between are read back. -/
theorem solidParts_intercalate {segments : List (List Char)} (hslash : ∀ s ∈ segments, '/' ∉ s)
    (hsome : ∀ s ∈ segments, s ≠ []) : solidParts (['/'].intercalate segments) = segments := by
  cases segments with
  | nil => rfl
  | cons s segments =>
    rw [← Route.solidParts_cons_slash, cons_intercalate (List.cons_ne_nil _ _), solidParts,
      Route.parts_joined hslash, Route.filter_nil_cons]
    refine List.filter_eq_self.mpr fun t ht => ?_
    rw [List.isEmpty_eq_false_iff.mpr (hsome t ht)]
    rfl

/-- The names of a text are its parts, but for the `.`. -/
theorem names_ofText (text : String) :
    (ofText text).names = ((solidParts text.toList).map String.ofList).filter (· != ".") := by
  show ((Route.parts text.toList).map String.ofList).filter _ = _
  unfold solidParts
  induction Route.parts text.toList with
  | nil => rfl
  | cons s segments ih =>
    cases s with
    | nil =>
      rw [Route.filter_nil_cons, ← ih]
      rfl
    | cons c s =>
      have hne : (String.ofList (c :: s) != "") = true := by simp
      rw [List.filter_cons_of_pos (p := fun s : List Char => !s.isEmpty) rfl, List.map_cons,
        List.map_cons, List.filter_cons, List.filter_cons, ih, hne, Bool.true_and]

/-- The names of a path, as its text has them. -/
abbrev nameChars (p : Location) : List (List Char) := p.names.map String.toList

/-- How a path is written: its root, and its names with slashes between. -/
theorem toList_text {p : Location} (h : p.root ≠ "" ∨ p.names ≠ []) :
    p.text.toList = p.root.toList ++ ['/'].intercalate p.nameChars := by
  have hsome : ¬(p.root == "" && p.names.isEmpty) = true := by
    rw [Bool.and_eq_true, beq_iff_eq, List.isEmpty_iff]
    exact fun hnone => h.elim (· hnone.1) (· hnone.2)
  rw [text, if_neg hsome, String.toList_append, String.toList_intercalate]
  rfl

/-- The names of a path begin with no slash. -/
theorem head?_intercalate {segments : List (List Char)} (hslash : ∀ s ∈ segments, '/' ∉ s)
    (hsome : ∀ s ∈ segments, s ≠ []) : (['/'].intercalate segments).head? ≠ some '/' := by
  cases segments with
  | nil => exact fun h => by cases h
  | cons s segments =>
    obtain ⟨c, rest, rfl⟩ := List.exists_cons_of_ne_nil (hsome s (List.mem_cons_self ..))
    have hc : c ≠ '/' := fun heq => hslash _ (List.mem_cons_self ..) (heq ▸ List.mem_cons_self ..)
    cases segments <;> simpa [List.intercalate] using hc

/-- The root of a path is read off its text. -/
theorem rootOf_append {root : String} (hroot : root ∈ ["", "/", "//"]) {cs : List Char}
    (hcs : cs.head? ≠ some '/') : rootOf (root.toList ++ cs) = root := by
  have hnone : cs.takeWhile (· == '/') = [] := by
    cases cs with
    | nil => rfl
    | cons c cs => exact List.takeWhile_cons_of_neg fun h => hcs (congrArg some (eq_of_beq h))
  simp only [List.mem_cons, List.not_mem_nil, or_false] at hroot
  rcases hroot with rfl | rfl | rfl
  · simp [rootOf, hnone]
  · simp [rootOf, hnone]
  · simp [rootOf, hnone]

/-- The slashes of a root are no parts. -/
theorem solidParts_root_append {root : String} (hroot : root ∈ ["", "/", "//"]) (cs : List Char) :
    solidParts (root.toList ++ cs) = solidParts cs := by
  simp only [List.mem_cons, List.not_mem_nil, or_false] at hroot
  rcases hroot with rfl | rfl | rfl
  · rfl
  · exact Route.solidParts_cons_slash cs
  · exact (Route.solidParts_cons_slash _).trans (Route.solidParts_cons_slash cs)

/-- **A path is read off its text.** Without a root and without names it is written as a dot, and
    that case is computed. -/
theorem ofText_text {p : Location} (h : WellFormed p) : ofText p.text = p := by
  by_cases hnone : p.root = "" ∧ p.names = []
  · obtain ⟨root, names⟩ := p
    obtain ⟨rfl, rfl⟩ := hnone
    decide +kernel
  · have hslash : ∀ s ∈ p.nameChars, '/' ∉ s := by
      intro s hs
      obtain ⟨n, hn, rfl⟩ := List.mem_map.mp hs
      exact h.no_slash n hn
    have hsome : ∀ s ∈ p.nameChars, s ≠ [] := by
      intro s hs
      obtain ⟨n, hn, rfl⟩ := List.mem_map.mp hs
      exact fun heq => h.ne_empty n hn (String.toList_eq_nil_iff.mp heq)
    have htext := toList_text (not_and_or.mp hnone)
    have hroot : (ofText p.text).root = p.root := by
      show rootOf p.text.toList = _
      rw [htext]
      exact rootOf_append h.root_eq (head?_intercalate hslash hsome)
    have hnames : (ofText p.text).names = p.names := by
      rw [names_ofText, htext, solidParts_root_append h.root_eq,
        solidParts_intercalate hslash hsome, List.map_map]
      have hself : p.names.map (String.ofList ∘ String.toList) = p.names :=
        List.map_id'' (fun n => String.ofList_toList) _
      rw [hself]
      exact List.filter_eq_self.mpr fun n hn => bne_iff_ne.mpr (h.ne_dot n hn)
    calc ofText p.text = ⟨(ofText p.text).root, (ofText p.text).names⟩ := rfl
      _ = ⟨p.root, p.names⟩ := by rw [hroot, hnames]

/-! ## Cleaning -/

/-- Cleaning a path twice is cleaning it once. -/
theorem tidy_tidy (p : Location) : p.tidy.tidy = p.tidy := by
  have hsettled : Settled (p.root != "") p.tidy.names.reverse := settled_resolveNames .nil p.names
  have hstays : resolveNames (p.root != "") [] p.tidy.names = p.tidy.names := by
    rw [← List.append_nil p.tidy.names.reverse] at hsettled
    exact resolveNames_of_settled hsettled
  exact congrArg (Location.mk p.root) hstays

/-- **The text of a cleaned path leads back to it.** -/
theorem clean_text_clean (text : String) : clean (clean text).text = clean text := by
  calc clean (clean text).text = (ofText (ofText text).tidy.text).tidy := rfl
    _ = (ofText text).tidy.tidy := by rw [ofText_text (wellFormed_ofText text).tidy]
    _ = clean text := tidy_tidy _

end RouteAtlas.Source.Location
