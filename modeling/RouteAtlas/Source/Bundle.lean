/-
  The files of one run, and what a relative import leads to.

  A `Bundle` holds the paths to be searched for endpoints and every file that can be reached, which
  may be more: an import may lead to a file that is not searched itself.  Reading a path gives the
  parsed file or says why it cannot be read.

  A relative specifier may leave out the suffix, or name a directory, or give the suffix the file
  will have once compiled; `candidates` lists the places tried, in order, and only names with a
  suffix count.  An imported name is followed to the file that exports it; a file that exports
  nothing of that name still serves a variable it declares, unless the default is asked for.
-/
import RouteAtlas.Source.File
import RouteAtlas.Text.Quoted

namespace RouteAtlas.Source

/-- Why a file cannot be read. -/
inductive ReadError where
  /-- There is no such file. -/
  | missing (path : Location)
  /-- The system refuses; it says why. -/
  | refused (reason : String)
  /-- The bytes are no text; the fault says where. -/
  | undecodable (fault : String)
  deriving DecidableEq, Repr

/-- What is said about a file that cannot be read. -/
def ReadError.message : ReadError → String
  | .missing path => "PosixPath(" ++ Text.quoted path.text ++ ")"
  | .refused reason => reason
  | .undecodable fault => fault

/-- The files of one run. -/
structure Bundle where
  /-- The paths to search, in order. -/
  paths : List Location
  /-- All files there are, with what reading them gives. -/
  files : List (Location × Except ReadError File)

namespace Bundle

/-- Is there a file at `path`? -/
def holds (b : Bundle) (path : Location) : Bool := b.files.any (·.1 == path)

/-- Reads the file at `path`; the file that comes back bears that path. -/
def read (b : Bundle) (path : Location) : Except ReadError File :=
  match b.files.find? (·.1 == path) with
  | some (_, .ok file) => .ok { file with path := path }
  | some (_, .error fault) => .error fault
  | none => .error (.missing path)

/-- Reads the file at `path` if that is possible. -/
def read? (b : Bundle) (path : Location) : Option File := (b.read path).toOption

/-- A file that can be read is one of the bundle's, and bears the path it was asked for by. -/
theorem read?_eq_some {b : Bundle} {path : Location} {file : File}
    (h : b.read? path = some file) : file.path = path ∧ path ∈ b.files.map (·.1) := by
  unfold read? read at h
  split at h
  · rename_i key f hf
    have hk : key = path := by simpa using List.find?_some hf
    have hm := List.mem_of_find?_eq_some hf
    simp only [Except.toOption, Option.some.injEq] at h
    exact ⟨by rw [← h], by rw [← hk]; exact List.mem_map.2 ⟨_, hm, rfl⟩⟩
  · simp [Except.toOption] at h
  · simp [Except.toOption] at h

/-- Suffixes a specifier may leave out. -/
def suffixes : List String := [".ts", ".tsx", ".js", ".jsx", ".mts", ".mjs", ".cjs"]

/-- Files that stand for their directory. -/
def indexNames : List String := ["index.ts", "index.tsx", "index.js", "index.jsx"]

/-- The places a specifier may mean, in the order they are tried. -/
def candidates (target : Location) : List Location :=
  (if target.name != "" && target.name != ".." then
    target :: suffixes.map fun s => target.withName (target.name ++ s)
  else [])
  ++ indexNames.map target.child
  ++ (if [".js", ".jsx", ".mjs"].contains target.suffix then
    [".ts", ".tsx", ".mts"].map fun s =>
      target.withoutSuffix.withName (target.withoutSuffix.name ++ s)
  else [])

/-- The file a relative specifier leads to; other specifiers name packages and lead to none. -/
def resolveImport? (b : Bundle) (importer : Location) (specifier : String) : Option Location :=
  if !Text.startsWith "." specifier then none
  else
    let target := (importer.parent.join (Location.ofText specifier)).tidy
    (candidates target).find? fun c => c.suffix != "" && b.holds c

/-- The file an import of `file` leads to, when it can be read. -/
def importedFile? (b : Bundle) (file : File) (specifier : String) : Option File :=
  (b.resolveImport? file.path specifier).bind b.read?

/-- The file that defines an imported name, and the name it has there. -/
def resolveBinding? (b : Bundle) (file : File) (shown : String) : Option (File × String) := do
  let origin ← Dict.get? file.imports shown
  let target ← b.importedFile? file origin.specifier
  match Dict.get? target.exports origin.name with
  | some name => some (target, name)
  | none =>
    if origin.name != "default" && Dict.has target.declarators origin.name
    then some (target, origin.name) else none

end Bundle

end RouteAtlas.Source
