/-
  Sessions of resolving: what one call leaves for the next.

  ==== Problem ====

  The handlers of a file share one session.  What a handler resolves is remembered, so a later one
  may be answered from memory, and every statement about a file is about a history of calls.

  ==== Program ====

  A session is a value that calls hand on, and a history of calls is a list of them
  (`Session.after`).  What holds of the first session and is kept by every call holds after all of
  them (`Session.after_induct`); the invariants of later modules are all shown that way.

  Names are resolved with some number of levels left.  `lookupUpTo` is a table with one row for each
  number of levels, in which each row is made of the one below it.  Which row is read does not
  depend on how far the table goes (`lookupUpTo_eq_lookup`), so that what is found with so many
  levels left is the same from wherever it is looked up.
-/
import RouteAtlas.Proofs.Json.Dictionary
import RouteAtlas.Shape.Declared

namespace RouteAtlas.Shape

open Syntax (Node)

/-! ## Histories

What handlers ask of a session, one call after the other. -/

/-- A call on a session: a name or a type to be resolved, with some number of levels left. -/
inductive Call where
  | named (levels : Nat) (name : String)
  | typed (levels : Nat) (node : Option Node)

/-- What a call gives, and the session it leaves. -/
def Call.run (definitions : Dict Definition) : Call → Resolving Shape
  | .named levels name => lookup definitions levels name
  | .typed levels node => shapeAt (lookup definitions) levels (TypeExpr.ofNode? node)

/-- The session that calls leave one after the other. -/
def Session.after (definitions : Dict Definition) (calls : List Call) : Session :=
  calls.foldl (fun s call => (call.run definitions s).2) {}

/-- What holds of the first session and is kept by every call holds after all of them. -/
theorem Session.after_induct {definitions : Dict Definition} {P : Session → Prop} (start : P {})
    (step : ∀ call s, P s → P (Call.run definitions call s).2) (calls : List Call) :
    P (Session.after definitions calls) := by
  have hfold : ∀ s, P s → P (calls.foldl (fun s call => (call.run definitions s).2) s) := by
    induction calls with
    | nil => exact fun s hs => hs
    | cons call calls ih => exact fun s hs => ih _ (step call s hs)
  exact hfold {} start

/-! ## Within a declaration

Entering a name puts it in progress, resolves its declaration, and takes it out again. -/

/-- The session in which the declaration of `name` is resolved. -/
def Session.inside (s : Session) (name : String) : Session :=
  { s with busy := name :: s.busy, cuts := [] }

/-- The cuts of a session that are not at `name`. -/
def Session.cutsBesides (s : Session) (name : String) : List Cut :=
  s.cuts.filter (· != .circle name)

/-- What a name is entered for is the shape of its declaration; the session remembers it when no cut
    comes from elsewhere, and has noted the other cuts besides its own. -/
theorem enter_eq (name : String) (body : Resolving Shape) (s : Session) :
    enter name body s = ((body (s.inside name)).1,
      { memory :=
          if ((body (s.inside name)).2.cutsBesides name).isEmpty then
            Dict.put (body (s.inside name)).2.memory name (body (s.inside name)).1
          else (body (s.inside name)).2.memory
        busy := (body (s.inside name)).2.busy.erase name
        cuts := s.cuts ++ ((body (s.inside name)).2.cutsBesides name).filter
          fun c => !s.cuts.contains c }) := rfl

/-! ## Tables of look-ups

The program builds the table of look-ups from the bottom.  These equations say how one level is made
of those below. -/

/-- With no level left a type that is not written is unknown, and any other is cut. -/
theorem shapeAt_zero (find : Lookup) (type : TypeExpr) :
    shapeAt find 0 type = pure unknown ∨ shapeAt find 0 type = cutShort .depth := by
  cases type with
  | absent => exact .inl (by rw [shapeAt])
  | _ => exact .inr (by rw [shapeAt]; intro h; cases h)

theorem lookup_zero (definitions : Dict Definition) (name : String) :
    lookup definitions 0 name = lookupWith definitions none name := rfl

/-- The table up to some level is the table below it, and one more level on top. -/
theorem lookupUpTo_succ (definitions : Dict Definition) (top levels : Nat) (name : String) :
    lookupUpTo definitions (top + 1) levels name =
      if levels ≤ top then lookupUpTo definitions top levels name
      else lookupWith definitions (some (definitionAt (lookupUpTo definitions top) definitions top))
        name := rfl

/-- **The table goes as far as it is read.** -/
theorem lookupUpTo_eq_lookup {definitions : Dict Definition} {levels top : Nat} (h : levels ≤ top)
    (name : String) : lookupUpTo definitions top levels name = lookup definitions levels name := by
  induction top with
  | zero =>
    obtain rfl : levels = 0 := Nat.le_zero.mp h
    rfl
  | succ top ih =>
    by_cases hle : levels ≤ top
    · rw [lookupUpTo_succ, if_pos hle, ih hle]
    · obtain rfl : levels = top + 1 := by omega
      rfl

end RouteAtlas.Shape
