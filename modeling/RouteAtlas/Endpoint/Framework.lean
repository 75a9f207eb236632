/-
  The frameworks that endpoints are found for.

  Each has its own way to declare endpoints; `auto` stands for finding out which one a project uses.
-/

namespace RouteAtlas

/-- The frameworks, and `auto` for the open question. -/
inductive Framework where
  | auto
  | hono
  | nestjs
  | express
  deriving DecidableEq, Repr, Inhabited

namespace Framework

/-- The framework's word. -/
def word : Framework → String
  | .auto => "auto"
  | .hono => "hono"
  | .nestjs => "nestjs"
  | .express => "express"

/-- All frameworks. -/
def all : List Framework := [.auto, .hono, .nestjs, .express]

/-- The framework of a word. -/
def ofWord? (w : String) : Option Framework := all.find? (·.word == w)

/-- What is said about a word that is no framework. -/
def unknownMessage (w : String) : String := "Unknown framework: " ++ w

end Framework

end RouteAtlas
