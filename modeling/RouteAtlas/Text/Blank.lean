/-
  White space, and the two ways a text is cut at it.

  A character is blank when Unicode gives it the White_Space property or one of the separator
  bidirectional classes: the ASCII blanks and the four information separators, next line, the
  no-break space and the wide spaces of typography.  `trim` drops blanks at both ends and keeps
  those inside; `words` cuts at every run of blanks and yields no empty word.
-/

namespace RouteAtlas.Text

/-- First and last code point of every block of blank characters. -/
def blankBlocks : List (Nat × Nat) :=
  [(0x09, 0x0D), (0x1C, 0x20), (0x85, 0x85), (0xA0, 0xA0), (0x1680, 0x1680), (0x2000, 0x200A),
   (0x2028, 0x2029), (0x202F, 0x202F), (0x205F, 0x205F), (0x3000, 0x3000)]

/-- Does one of the blocks hold the code point `n`? -/
def inBlocks (blocks : List (Nat × Nat)) (n : Nat) : Bool :=
  blocks.any fun (first, last) => decide (first ≤ n) && decide (n ≤ last)

/-- White space in the sense of Unicode. -/
def isBlank (c : Char) : Bool := inBlocks blankBlocks c.toNat

/-- The characters of `cs` without the blanks at its two ends. -/
def trimChars (cs : List Char) : List Char :=
  ((cs.dropWhile isBlank).reverse.dropWhile isBlank).reverse

/-- Drops the blanks at both ends of a text. -/
def trim (s : String) : String := String.ofList (trimChars s.toList)

/-- Cuts `cs` at its blanks; `word` holds, last first, the letters of the word being read. -/
def wordsFrom (word : List Char) : List Char → List (List Char)
  | [] => if word.isEmpty then [] else [word.reverse]
  | c :: cs =>
    if isBlank c then
      if word.isEmpty then wordsFrom [] cs else word.reverse :: wordsFrom [] cs
    else wordsFrom (c :: word) cs

/-- The non-empty stretches of `cs` between blanks. -/
def wordsChars (cs : List Char) : List (List Char) := wordsFrom [] cs

/-! ## What trimming leaves -/

/-- A text without blanks is left as it is. -/
theorem trimChars_of_noBlank {cs : List Char} (h : ∀ c ∈ cs, isBlank c = false) :
    trimChars cs = cs := by
  have drop : ∀ {l : List Char}, (∀ c ∈ l, isBlank c = false) → l.dropWhile isBlank = l := by
    intro l hl
    cases l with
    | nil => rfl
    | cons a l => simp [List.dropWhile, hl a (by simp)]
  unfold trimChars
  rw [drop h, drop (fun c hc => h c (List.mem_reverse.1 hc)), List.reverse_reverse]

end RouteAtlas.Text
