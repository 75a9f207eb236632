/-
  Bytes to text.

  UTF-8 is read by a machine that goes through the bytes once.  Between characters it takes a lead
  byte, which says how many bytes follow and in which range the first of them lies; the ranges rule
  out long spellings, surrogates and numbers that are no code points, so every byte that is refused
  is refused at the first place where no text can go on.

  A text file's line ends, of whichever system, are one line break each.
-/


namespace RouteAtlas.Text

/-- Why bytes are no text. -/
inductive DecodeProblem where
  /-- A byte that begins no character. -/
  | badStart
  /-- A byte that does not go on with the character begun. -/
  | badContinuation
  /-- The bytes end within a character. -/
  | cutOff
  deriving DecidableEq, Repr

/-- What is said about a problem. -/
def DecodeProblem.reason : DecodeProblem → String
  | .badStart => "invalid start byte"
  | .badContinuation => "invalid continuation byte"
  | .cutOff => "unexpected end of data"

/-- A stretch of bytes that is no text. -/
structure DecodeFault where
  problem : DecodeProblem
  start : Nat
  /-- The position behind the stretch. -/
  stop : Nat
  /-- The first byte of the stretch. -/
  byte : UInt8
  deriving DecidableEq, Repr

/-- The message of a fault. -/
def DecodeFault.message (f : DecodeFault) : String :=
  let place :=
    if f.stop = f.start + 1 then
      let digits := String.ofList [Nat.digitChar (f.byte.toNat / 16), Nat.digitChar (f.byte.toNat % 16)]
      "byte 0x" ++ digits ++ " in position " ++ toString f.start
    else "bytes in position " ++ toString f.start ++ "-" ++ toString (f.stop - 1)
  "'utf-8' codec can't decode " ++ place ++ ": " ++ f.problem.reason

/-- A character begun: the byte it began with and where, what it amounts to so far, the number of
    bytes owed, and the range of the next. -/
structure Begun where
  byte : UInt8
  start : Nat
  value : Nat
  owed : Nat
  low : Nat := 0x80
  high : Nat := 0xBF
  deriving DecidableEq, Repr

/-- The character a lead byte begins. -/
def begin? (byte : UInt8) (start : Nat) : Option Begun :=
  let b := byte.toNat
  if b < 0x80 then some ⟨byte, start, b, 0, 0x80, 0xBF⟩
  else if b < 0xC2 then none
  else if b < 0xE0 then some ⟨byte, start, b - 0xC0, 1, 0x80, 0xBF⟩
  else if b < 0xF0 then
    some ⟨byte, start, b - 0xE0, 2, if b = 0xE0 then 0xA0 else 0x80, if b = 0xED then 0x9F else 0xBF⟩
  else if b < 0xF5 then
    some ⟨byte, start, b - 0xF0, 3, if b = 0xF0 then 0x90 else 0x80, if b = 0xF4 then 0x8F else 0xBF⟩
  else none

/-- Reads the bytes from position `pos` on; `begun` is the character the bytes before began. -/
def decodeFrom (pos : Nat) (begun : Option Begun) : List UInt8 → Except DecodeFault (List Char)
  | [] =>
    match begun with
    | none => .ok []
    | some c => .error ⟨.cutOff, c.start, pos, c.byte⟩
  | byte :: rest =>
    match begun with
    | none =>
      match begin? byte pos with
      | none => .error ⟨.badStart, pos, pos + 1, byte⟩
      | some c =>
        if c.owed = 0 then (decodeFrom (pos + 1) none rest).map (Char.ofNat c.value :: ·)
        else decodeFrom (pos + 1) (some c) rest
    | some c =>
      if c.low ≤ byte.toNat ∧ byte.toNat ≤ c.high then
        let value := c.value * 64 + byte.toNat % 64
        if c.owed ≤ 1 then (decodeFrom (pos + 1) none rest).map (Char.ofNat value :: ·)
        else decodeFrom (pos + 1) (some ⟨c.byte, c.start, value, c.owed - 1, 0x80, 0xBF⟩) rest
      else .error ⟨.badContinuation, c.start, pos, c.byte⟩

/-- Reads bytes as UTF-8. -/
def decode (bytes : List UInt8) : Except DecodeFault String :=
  (decodeFrom 0 none bytes).map String.ofList

/-! ## Line ends -/

/-- Every line end as one line break; `afterReturn` says that a carriage return came just before. -/
def unifyLinesFrom : (afterReturn : Bool) → List Char → List Char
  | _, [] => []
  | afterReturn, c :: cs =>
    if c = '\r' then '\n' :: unifyLinesFrom true cs
    else if c = '\n' then (if afterReturn then unifyLinesFrom false cs else '\n' :: unifyLinesFrom false cs)
    else c :: unifyLinesFrom false cs

/-- Every line end as one line break. -/
def unifyLines (s : String) : String := String.ofList (unifyLinesFrom false s.toList)

end RouteAtlas.Text
