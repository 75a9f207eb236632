/-
  Replacing in a text part by part.

  ==== Problem ====

  A rule sees the rest of the text, so what it finds in a part depends on what stands behind it.
  Statements about paths and URLs are about their parts.

  ==== Spec ====

  Most rules stop at certain characters: a name ends at a slash.  When every rule stops at the
  character between two parts (`StopsAt`), replacing in the whole is replacing in each part
  (`replaceFrom_append`).

  Where it is known what a text is made of, it is scanned piece by piece instead: a match at its
  beginning is one piece (`scanFrom_match`), and characters at which nothing can be found are passed
  over whatever follows them (`scanFrom_plain`).

  ==== The crux ====

  The induction is on the text with a match half passed over, as `scanFrom` is: its count of
  characters to skip stays within the part because no match is longer than what it was found in.
-/
import RouteAtlas.Text.Rule

namespace RouteAtlas.Text

variable {α : Type}

/-! ## What is written

A rule finds matches, and what it finds is replaced.  Between matches the text stays. -/

/-- What a piece of a scanned text becomes. -/
def writtenPiece : Char ⊕ List Char → List Char
  | .inl c => [c]
  | .inr put => put

/-- Replaces every match, with a character before the text. -/
def replaceFrom (rule : Rule (List Char)) (before : Option Char) (cs : List Char) : List Char :=
  (scanFrom rule 0 before cs).flatMap writtenPiece

/-- Replacing begins with nothing before the text. -/
theorem replaceMatches_eq (rule : Rule (List Char)) (cs : List Char) :
    replaceMatches rule cs = replaceFrom rule none cs := rfl

@[simp] theorem replaceFrom_nil (rule : Rule (List Char)) (before : Option Char) :
    replaceFrom rule before [] = [] := rfl

/-- A character that no match begins at stays. -/
theorem replaceFrom_cons_of_none {rule : Rule (List Char)} {before : Option Char} {c : Char}
    {cs : List Char} (h : rule before (c :: cs) = none) :
    replaceFrom rule before (c :: cs) = c :: replaceFrom rule (some c) cs := by
  rw [replaceFrom, scanFrom, h]
  rfl

/-- A match is no longer than what it is found in. -/
def Fits (rule : Rule α) : Prop :=
  ∀ {before cs length value}, rule before cs = some (length, value) → length ≤ cs.length

/-- Where all is skipped, nothing is reported. -/
theorem scanFrom_all (rule : Rule α) (before : Option Char) (cs : List Char) :
    scanFrom rule cs.length before cs = [] := by
  induction cs generalizing before with
  | nil => rfl
  | cons c cs ih =>
    rw [List.length_cons, scanFrom]
    exact ih (some c)

/-- A match of the whole text is all there is. -/
theorem replaceFrom_of_whole {rule : Rule (List Char)} {before : Option Char} {cs put : List Char}
    (hne : cs ≠ []) (h : rule before cs = some (cs.length, put)) : replaceFrom rule before cs = put := by
  cases cs with
  | nil => exact absurd rfl hne
  | cons c cs =>
    rw [replaceFrom, scanFrom, h]
    show (.inr put :: scanFrom rule cs.length (some c) cs).flatMap writtenPiece = put
    rw [scanFrom_all, List.flatMap_singleton]
    rfl

/-- Where no match is found, nothing changes. -/
theorem replaceFrom_of_none {rule : Rule (List Char)} {cs : List Char} (before : Option Char)
    (h : ∀ before s, s ≠ [] → s <:+ cs → rule before s = none) : replaceFrom rule before cs = cs := by
  induction cs generalizing before with
  | nil => rfl
  | cons c cs ih =>
    have hnone := h before (c :: cs) (List.cons_ne_nil _ _) (List.suffix_refl _)
    rw [replaceFrom_cons_of_none hnone]
    have hrest := ih (some c) fun before s hne hs => h before s hne (hs.trans (List.suffix_cons c cs))
    rw [hrest]

/-- A rule that begins at one character only finds nothing without it. -/
theorem replaceFrom_of_not_mem {rule : Rule (List Char)} {trigger : Char} (before : Option Char)
    (hrule : ∀ before c rest, c ≠ trigger → rule before (c :: rest) = none) {cs : List Char}
    (h : trigger ∉ cs) : replaceFrom rule before cs = cs := by
  refine replaceFrom_of_none before fun before s hne hs => ?_
  obtain ⟨c, rest, rfl⟩ := List.exists_cons_of_ne_nil hne
  refine hrule before c rest ?_
  rintro rfl
  exact h (hs.subset (List.mem_cons_self ..))

/-- The value of a piece that is a match. -/
def foundPiece? : Char ⊕ α → Option α
  | .inl _ => none
  | .inr value => some value

/-- The matches are what is found among the pieces. -/
theorem findMatches_eq (rule : Rule α) (cs : List Char) :
    findMatches rule cs = (scanFrom rule 0 none cs).filterMap foundPiece? := rfl

/-- The same, said of the list of matches. -/
theorem replaceMatches_of_findMatches {rule : Rule (List Char)} {cs : List Char}
    (h : findMatches rule cs = []) : replaceMatches rule cs = cs := by
  have hall : ∀ {cs : List Char} {before : Option Char},
      (scanFrom rule 0 before cs).filterMap foundPiece? = [] → replaceFrom rule before cs = cs := by
    intro cs
    induction cs with
    | nil => exact fun _ => rfl
    | cons c cs ih =>
      intro before hfound
      cases hmatch : rule before (c :: cs) with
      | none =>
        rw [scanFrom, hmatch] at hfound
        rw [replaceFrom_cons_of_none hmatch, ih hfound]
      | some found =>
        rw [scanFrom, hmatch] at hfound
        exact absurd hfound (List.cons_ne_nil _ _)
  exact hall (findMatches_eq rule cs ▸ h)

/-- What stands in the outcome was put there, or it stood in the text and no match begins at it.  What
    a match covers is skipped, and what is skipped does not stand in the outcome. -/
theorem mem_replaceFrom {rule : Rule (List Char)} {before : Option Char} {cs : List Char} {c : Char}
    (h : c ∈ replaceFrom rule before cs) :
    (c ∈ cs ∧ ∃ before rest, rule before (c :: rest) = none) ∨
      ∃ before s found, rule before s = some found ∧ c ∈ found.2 := by
  have hscan : ∀ {cs : List Char} {skip : Nat} {before : Option Char},
      c ∈ (scanFrom rule skip before cs).flatMap writtenPiece →
      (c ∈ cs ∧ ∃ before rest, rule before (c :: rest) = none) ∨
        ∃ before s found, rule before s = some found ∧ c ∈ found.2 := by
    intro cs
    induction cs with
    | nil => exact fun hc => absurd hc (List.not_mem_nil)
    | cons d cs ih =>
      -- what comes from behind the first character stood there
      have hlater : ∀ {skip : Nat} {before : Option Char},
          c ∈ (scanFrom rule skip before cs).flatMap writtenPiece →
          (c ∈ d :: cs ∧ ∃ before rest, rule before (c :: rest) = none) ∨
            ∃ before s found, rule before s = some found ∧ c ∈ found.2 := fun hc =>
        (ih hc).imp_left (And.imp_left (List.mem_cons_of_mem d))
      intro skip before hc
      cases skip with
      | succ skip => exact hlater hc
      | zero =>
        rw [scanFrom] at hc
        cases hmatch : rule before (d :: cs) with
        | none =>
          rw [hmatch] at hc
          rcases List.mem_cons.mp hc with rfl | hc
          · exact .inl ⟨List.mem_cons_self .., before, cs, hmatch⟩
          · exact hlater hc
        | some found =>
          rw [hmatch] at hc
          rcases List.mem_append.mp hc with hput | hc
          · exact .inr ⟨before, d :: cs, found, hmatch, hput⟩
          · exact hlater hc
  exact hscan h

/-- A rule that only drops what it finds leaves no character that was not there. -/
theorem mem_of_mem_replaceFrom {rule : Rule (List Char)}
    (hdrop : ∀ {before cs length put}, rule before cs = some (length, put) → put = [])
    {before : Option Char} {cs : List Char} {c : Char} (h : c ∈ replaceFrom rule before cs) :
    c ∈ cs := by
  rcases mem_replaceFrom h with ⟨hmem, -⟩ | ⟨before, s, found, hfound, hput⟩
  · exact hmem
  · rw [hdrop hfound] at hput
    exact absurd hput List.not_mem_nil

/-! ## Part by part

A rule that looks no further than some character can be applied on both sides of it separately. -/

/-- The rule looks no further than a character, and finds nothing at it. -/
structure StopsAt (rule : Rule α) (stop : Char) : Prop where
  here : ∀ before rest, rule before (stop :: rest) = none
  behind : ∀ before cs rest, cs ≠ [] → rule before (cs ++ stop :: rest) = rule before cs

/-- Scanning two parts with such a character between them is scanning either.  A match may cover
    characters that are skipped afterwards, but none of it reaches the stop, so the skip is shorter
    than the first part. -/
theorem scanFrom_append {rule : Rule α} {stop : Char} (hfits : Fits rule) (hstop : StopsAt rule stop)
    {skip : Nat} {before : Option Char} {cs : List Char} (hskip : skip ≤ cs.length)
    (rest : List Char) : ∃ b, scanFrom rule skip before (cs ++ stop :: rest)
      = scanFrom rule skip before cs ++ scanFrom rule 0 b (stop :: rest) := by
  induction cs generalizing skip before with
  | nil =>
    obtain rfl : skip = 0 := Nat.le_zero.mp hskip
    exact ⟨before, rfl⟩
  | cons c cs ih =>
    cases skip with
    | succ skip => exact ih (Nat.le_of_succ_le_succ hskip)
    | zero =>
      have hsame := hstop.behind before (c :: cs) rest (List.cons_ne_nil _ _)
      rw [List.cons_append] at hsame
      rw [List.cons_append, scanFrom, scanFrom, hsame]
      cases hmatch : rule before (c :: cs) with
      | none =>
        obtain ⟨b, hb⟩ : ∃ b, scanFrom rule 0 (some c) (cs ++ stop :: rest)
            = scanFrom rule 0 (some c) cs ++ scanFrom rule 0 b (stop :: rest) := ih (Nat.zero_le _)
        exact ⟨b, congrArg (Sum.inl c :: ·) hb⟩
      | some found =>
        have hmatch : rule before (c :: cs) = some (found.1, found.2) := hmatch
        have hlength : found.1 ≤ cs.length + 1 := hfits hmatch
        have hshort : found.1 - 1 ≤ cs.length := by omega
        obtain ⟨b, hb⟩ : ∃ b, scanFrom rule (found.1 - 1) (some c) (cs ++ stop :: rest)
            = scanFrom rule (found.1 - 1) (some c) cs ++ scanFrom rule 0 b (stop :: rest) := ih hshort
        exact ⟨b, congrArg (Sum.inr found.2 :: ·) hb⟩

/-- **Replacing in two parts**: a character between them that the rule stops at keeps them apart. -/
theorem replaceFrom_append {rule : Rule (List Char)} {stop : Char} (hfits : Fits rule)
    (hstop : StopsAt rule stop) (before : Option Char) (cs rest : List Char) :
    replaceFrom rule before (cs ++ stop :: rest)
      = replaceFrom rule before cs ++ stop :: replaceFrom rule (some stop) rest := by
  obtain ⟨b, hb⟩ : ∃ b, scanFrom rule 0 before (cs ++ stop :: rest)
      = scanFrom rule 0 before cs ++ scanFrom rule 0 b (stop :: rest) :=
    scanFrom_append hfits hstop (Nat.zero_le _) rest
  have hrest := replaceFrom_cons_of_none (hstop.here b rest)
  rw [replaceFrom, hb, List.flatMap_append]
  exact congrArg (replaceFrom rule before cs ++ ·) hrest

/-! ## Piece by piece

For texts that are written from pieces: each is scanned with what is written behind it. -/

/-- The character before what follows `s`. -/
def lastBefore (before : Option Char) (s : List Char) : Option Char := s.getLast?.or before

/-- What stands before a text is its first character, one character on. -/
theorem lastBefore_cons (before : Option Char) (c : Char) (s : List Char) :
    lastBefore before (c :: s) = lastBefore (some c) s := by
  rw [lastBefore, lastBefore, List.getLast?_cons]
  cases s.getLast? <;> rfl

/-- Skipping all of a text is scanning what follows it. -/
theorem scanFrom_over (rule : Rule α) (before : Option Char) (s rest : List Char) :
    scanFrom rule s.length before (s ++ rest) = scanFrom rule 0 (lastBefore before s) rest := by
  induction s generalizing before with
  | nil => rfl
  | cons c s ih =>
    rw [lastBefore_cons]
    exact ih (some c)

/-- A match at the beginning is reported, and scanning goes on behind it. -/
theorem scanFrom_match {rule : Rule α} {before : Option Char} {s rest : List Char} {value : α}
    (hne : s ≠ []) (h : rule before (s ++ rest) = some (s.length, value)) :
    scanFrom rule 0 before (s ++ rest)
      = .inr value :: scanFrom rule 0 (lastBefore before s) rest := by
  obtain ⟨c, s, rfl⟩ := List.exists_cons_of_ne_nil hne
  rw [List.cons_append] at h
  rw [List.cons_append, scanFrom, h, lastBefore_cons]
  exact congrArg (Sum.inr value :: ·) (scanFrom_over rule (some c) s rest)

/-- A character that no match begins at is reported as it is. -/
theorem scanFrom_cons_of_none {rule : Rule α} {before : Option Char} {c : Char} {cs : List Char}
    (h : rule before (c :: cs) = none) :
    scanFrom rule 0 before (c :: cs) = .inl c :: scanFrom rule 0 (some c) cs := by
  rw [scanFrom, h]

/-- Characters that no match begins at, whatever stands around them, are reported as they are. -/
theorem scanFrom_plain {rule : Rule α} {s : List Char}
    (h : ∀ c ∈ s, ∀ before rest, rule before (c :: rest) = none) (before : Option Char)
    (rest : List Char) : scanFrom rule 0 before (s ++ rest)
      = s.map .inl ++ scanFrom rule 0 (lastBefore before s) rest := by
  induction s generalizing before with
  | nil => rfl
  | cons c s ih =>
    have ih := ih (fun d hd => h d (List.mem_cons_of_mem _ hd)) (some c)
    rw [List.cons_append, scanFrom_cons_of_none (h c (List.mem_cons_self ..) before _), ih,
      lastBefore_cons]
    rfl

end RouteAtlas.Text
