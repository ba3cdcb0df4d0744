import MukhiDb.Model.Storage

/-!
Contract: the start over a working directory (`disk.rs`, and the loop that `server.rs` and
`repl.rs` begin with).

Owns: which files are taken for tables, the names they get, and the loop that opens them.

Does not own: the order in which the system lists a directory, and what is printed.
-/

namespace MukhiDb.Model

open MukhiDb.Foundation

/-- `trim_end_matches(".db")`, on the characters from the last to the first. -/
def trimEndMatchesDb : List Char → List Char
  | 'b' :: 'd' :: '.' :: rest => trimEndMatchesDb rest
  | chars => chars

/-- The name of the table in a file. -/
def nameOf (path : String) : String :=
  String.ofList (trimEndMatchesDb path.toList.reverse).reverse

/-- `ends_with(".db")`. -/
def EndsWithDb (name : String) : Prop := ['.', 'd', 'b'] <:+ name.toList

instance decidableEndsWithDb : DecidablePred EndsWithDb := fun name =>
  inferInstanceAs (Decidable (['.', 'd', 'b'] <:+ name.toList))

/-- `find_db_files`, where the system lists the working directory so. -/
def findDbFiles (listing : List String) : List String := listing.filter fun name => EndsWithDb name

/-- The system lists each file of the working directory once, and no file of another one. -/
structure Lists (listing : List String) (dir : String → Option Disk) : Prop where
  once : listing.Nodup
  files : ∀ path, EndsWithDb path → (path ∈ listing ↔ (dir path).isSome ∧ '/' ∉ path.toList)

/-- Open every file. An error is a warning. -/
def loadTables : List String → Exec Storage Unit
  | [] => pure ()
  | path :: rest => do
      let _ ← Exec.attempt (Storage.openTable (nameOf path) path)
      loadTables rest

/-- The storage that the server begins with. -/
def startUp (host : Host) (listing : List String) (dir : String → Option Disk) :
    Except Fault Unit × Storage :=
  loadTables (findDbFiles listing) (Storage.new host dir [])

end MukhiDb.Model
