import ModuleLoader.Url.FilePath
/-!
File systems. A module loader sees a table of entries under exact paths, byte for byte: `/a` and
`/a/` are two entries, and so are two paths that differ only in bytes that encode no text. A directory
tree, which knows components and nesting, is what configuration files are read from.
-/
namespace ModuleLoader

open Text (Bytes)

inductive FileKind
  | file
  | directory
  | other
deriving DecidableEq, Repr

/-- Why a path cannot be read. -/
inductive ReadFault
  | missing
  | unreadable
deriving DecidableEq, Repr

def ReadFault.message : ReadFault → String
  | missing => "no such file"
  | unreadable => "unreadable"

inductive FileEntry
  | contents (bytes : Bytes)
  | directory
  | other
  /-- A file whose contents cannot be had. -/
  | unreadable
deriving DecidableEq, Repr

def FileEntry.kind : FileEntry → FileKind
  | contents _ | unreadable => .file
  | directory => .directory
  | other => .other

/-- The entries of a file system by path; a path stands at most once. -/
abbrev Files := List (FilePath × FileEntry)

namespace Files

/-- Puts an entry under a path, in place of an earlier one. -/
def put (files : Files) (path : FilePath) (entry : FileEntry) : Files :=
  files.filter (·.1 ≠ path) ++ [(path, entry)]

def remove (files : Files) (path : FilePath) : Files := files.filter (·.1 ≠ path)

def stat? (files : Files) (path : FilePath) : Option FileKind :=
  (files.lookup path).map FileEntry.kind

/-- Whether there is a regular file; what cannot be found out counts as none. -/
def hasFile (files : Files) (path : FilePath) : Bool := files.stat? path == some .file

def read (files : Files) (path : FilePath) : Except ReadFault Bytes :=
  match files.lookup path with
  | none => .error .missing
  | some (.contents bytes) => .ok bytes
  | some _ => .error .unreadable

end Files

/-! ## Directory trees -/

/-- Why an entry of a directory tree is not to be had. -/
inductive TreeFault
  | notFound
  | notDirectory
  | isDirectory
deriving DecidableEq, Repr

/-- The entries below a directory, each under the names that lead to it. -/
abbrev FileTree := List (List Bytes × FileEntry)

namespace FileTree

/-- The names in a relative path; empty ones and single dots lead nowhere. -/
def names (path : FilePath) : List Bytes :=
  (Url.splitOn 47 path.bytes).filter fun name => name ≠ [] ∧ name ≠ Text.utf8Bytes "."

/-- A path that ends so must be a directory. -/
def wantsDirectory (path : FilePath) : Bool :=
  (Text.utf8Bytes "/").isSuffixOf path.bytes || (Text.utf8Bytes "/.").isSuffixOf path.bytes

/-- What stands under some names. Whatever has entries below it is a directory. -/
def entry? (tree : FileTree) (place : List Bytes) : Option FileEntry :=
  if place = [] then some .directory
  else
    match tree.lookup place with
    | some entry => some entry
    | none =>
      if tree.any fun (names, _) => place.isPrefixOf names then some .directory else none

/-- Follows names one by one; two dots lead back up. -/
def follow (tree : FileTree) (place : List Bytes) : List Bytes → Except TreeFault (List Bytes)
  | [] => .ok place
  | name :: rest =>
    match tree.entry? place with
    | none => .error .notFound
    | some .directory =>
      let next := if name = Text.utf8Bytes ".." then place.dropLast else place ++ [name]
      match tree.entry? next with
      | none => .error .notFound
      | some _ => follow tree next rest
    | some _ => .error .notDirectory

/-- The entry that a relative path leads to. -/
def find (tree : FileTree) (path : FilePath) : Except TreeFault FileEntry := do
  let place ← tree.follow [] (names path)
  match tree.entry? place with
  | none => throw .notFound
  | some .directory => return .directory
  | some entry => if wantsDirectory path then throw .notDirectory else return entry

def read (tree : FileTree) (path : FilePath) : Except TreeFault Bytes := do
  match ← tree.find path with
  | .contents bytes => return bytes
  | .directory => throw .isDirectory
  | _ => return []

end FileTree

/-- The device files that every system has, as far as their kind and contents are fixed. -/
def deviceEntry? (path : String) : Option FileEntry :=
  match path with
  | "/" | "/dev" | "/tmp" => some .directory
  | "/dev/null" => some .other
  | _ => none

end ModuleLoader
