/-
  Cutting, searching and replacing in texts, as lists of characters.

  `scan` is the one scanner of this library: it goes through a text from left to right, and
  wherever its rule finds a match it reports what the rule made of it and goes on behind the match;
  so matches never overlap.  Characters outside of matches are reported as they are.  A rule sees
  the character before the place (none at the beginning) and the rest of the text, and answers with
  the length of the match and its value.  `skip` counts the characters of the match that are still
  to be passed over, which keeps the recursion on the text itself.

  `replaceMatches` puts the value of every match in its place, and `findMatches` lists the values;
  what was put in is not looked at again.
-/

namespace RouteAtlas.Text

/-- What to find: the length and the value of a match at a place. -/
abbrev Rule (α : Type) := Option Char → List Char → Option (Nat × α)

/-- Scans `cs`, whose first `skip` characters belong to a match already reported. -/
def scanFrom {α : Type} (rule : Rule α) :
    (skip : Nat) → (before : Option Char) → List Char → List (Char ⊕ α)
  | _, _, [] => []
  | skip + 1, _, c :: cs => scanFrom rule skip (some c) cs
  | 0, before, c :: cs =>
    match rule before (c :: cs) with
    | some (length, value) => .inr value :: scanFrom rule (length - 1) (some c) cs
    | none => .inl c :: scanFrom rule 0 (some c) cs

/-- The matches of `rule`, leftmost first, and the characters between them. -/
def scan {α : Type} (rule : Rule α) (cs : List Char) : List (Char ⊕ α) := scanFrom rule 0 none cs

/-- Replaces every match of `rule` by its value. -/
def replaceMatches (rule : Rule (List Char)) (cs : List Char) : List Char :=
  (scan rule cs).flatMap fun
    | .inl c => [c]
    | .inr put => put

/-- The values of all matches of `rule`, in order. -/
def findMatches {α : Type} (rule : Rule α) (cs : List Char) : List α :=
  (scan rule cs).filterMap fun
    | .inl _ => none
    | .inr value => some value

/-- The rule that matches a whole run of characters of one class. -/
def runRule (p : Char → Bool) (put : List Char) : Rule (List Char) := fun _ cs =>
  match (cs.takeWhile p).length with
  | 0 => none
  | n => some (n, put)

/-- Passing over characters is scanning what is left of them, with the last of them before it. -/
theorem scanFrom_skip {α : Type} (rule : Rule α) (skip : Nat) (before : Option Char)
    (cs : List Char) (h : skip ≤ cs.length) :
    ∃ b, scanFrom rule skip before cs = scanFrom rule 0 b (cs.drop skip) := by
  induction cs generalizing skip before with
  | nil => exact ⟨before, by cases skip <;> simp [scanFrom]⟩
  | cons c cs ih =>
    cases skip with
    | zero => exact ⟨before, rfl⟩
    | succ n =>
      obtain ⟨b, hb⟩ := ih n (some c) (by simpa using h)
      exact ⟨b, by simpa [scanFrom] using hb⟩

/-! ## Cutting and searching -/

/-- The parts of `cs` between the characters that satisfy `p`, one more than there are of them. -/
def splitAt (p : Char → Bool) : List Char → List (List Char)
  | [] => [[]]
  | c :: cs =>
    if p c then [] :: splitAt p cs
    else match splitAt p cs with
      | [] => [[c]]
      | part :: parts => (c :: part) :: parts

/-- A part holds nothing but characters of the whole. -/
theorem mem_of_mem_splitAt {p : Char → Bool} {cs part : List Char} {c : Char}
    (hp : part ∈ splitAt p cs) (hc : c ∈ part) : c ∈ cs := by
  induction cs generalizing part with
  | nil => simp [splitAt] at hp; simp [hp] at hc
  | cons a cs ih =>
    by_cases ha : p a = true
    · simp only [splitAt, ha, if_true, List.mem_cons] at hp
      rcases hp with rfl | hp
      · simp at hc
      · exact List.mem_cons_of_mem _ (ih hp hc)
    · simp only [splitAt, ha, Bool.false_eq_true, if_false] at hp
      split at hp
      · simp only [List.mem_singleton] at hp
        subst hp
        exact List.mem_cons.2 (Or.inl (by simpa using hc))
      · rename_i first rest hs
        rcases List.mem_cons.1 hp with rfl | hp
        · rcases List.mem_cons.1 hc with rfl | hc
          · simp
          · exact List.mem_cons_of_mem _ (ih (by rw [hs]; simp) hc)
        · exact List.mem_cons_of_mem _ (ih (by rw [hs]; simp [hp]) hc)

/-- The parts of `s` between occurrences of `sep`. -/
def splitOn (sep : Char) (s : String) : List String :=
  (splitAt (· == sep) s.toList).map String.ofList

/-- Does `part` occur in `cs`? -/
def hasPart (part : List Char) : List Char → Bool
  | [] => part.isEmpty
  | c :: cs => part.isPrefixOf (c :: cs) || hasPart part cs

/-- Does `s` begin with `head`? -/
def startsWith (head s : String) : Bool := head.toList.isPrefixOf s.toList

/-- Does `s` end with `tail`? -/
def endsWith (tail s : String) : Bool := tail.toList.isSuffixOf s.toList

/-- The text with all characters of the class `p` dropped at both ends. -/
def stripChars (p : Char → Bool) (cs : List Char) : List Char :=
  ((cs.dropWhile p).reverse.dropWhile p).reverse

/-- What stands behind the last `sep`, or everything when there is none. -/
def afterLast (sep : Char) (s : String) : String :=
  String.ofList (s.toList.reverse.takeWhile (· != sep)).reverse

/-- The parts joined by `sep`. -/
def joinWith (sep : String) (parts : List String) : String := String.intercalate sep parts

/-- Nothing follows, or a line break that ends the text. -/
def atEnd (cs : List Char) : Bool := cs == [] || cs == ['\n']

/-- Lexicographic order by code point. -/
def charsLe : List Char → List Char → Bool
  | [], _ => true
  | _ :: _, [] => false
  | a :: as, b :: bs => if a.toNat == b.toNat then charsLe as bs else a.toNat < b.toNat

/-- Order of texts by code point. -/
def textLe (s t : String) : Bool := charsLe s.toList t.toList

end RouteAtlas.Text
