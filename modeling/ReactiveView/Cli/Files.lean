/-!
# Files and paths

The program reads its configuration, template and data from files. It sees the file system
through `FileSystem`, which tells what a path leads to, in any monad: the program itself asks the
operating system, while `Tree` answers from a directory tree held in memory.

Paths are strings with `/` between their parts. Joining a relative path to a base puts a `/`
between them unless the base ends in one, and an absolute path replaces the base. A path is
resolved part by part from the root or from the current directory: `.` stays, `..` goes up, and
every part but the last must be a directory.
-/
namespace ReactiveView.Cli

/-- What a path leads to. -/
inductive Entry where
  | file (content : String)
  | directory
  | missing
  /-- The path goes through a file as if it were a directory. -/
  | throughFile
  deriving DecidableEq, Repr, Inhabited

/-- The content of a file, or why it cannot be read, as the system says it. -/
def Entry.read : Entry → Except String String
  | .file content => .ok content
  | .directory => .error "Is a directory (os error 21)"
  | .missing => .error "No such file or directory (os error 2)"
  | .throughFile => .error "Not a directory (os error 20)"

/-- Whether an entry is a file. -/
def Entry.isFile : Entry → Bool
  | .file _ => true
  | _ => false

/-- A file system: what each path leads to. -/
structure FileSystem (m : Type → Type) where
  entry : String → m Entry

/-- Join a path to a base directory. -/
def joinPath (base path : String) : String :=
  if path.startsWith "/" || base.isEmpty then path
  else if base.endsWith "/" then base ++ path
  else base ++ "/" ++ path

/-- A part of a path, as comparisons of paths see it. -/
inductive Component where
  | root
  | current
  | parent
  | normal (name : String)
  deriving DecidableEq, Repr, Inhabited

/-- The text of a component. -/
def Component.text : Component → String
  | .root => "/"
  | .current => "."
  | .parent => ".."
  | .normal n => n

/-- The components of a path: the root for an absolute path, a leading `.` of a relative one,
then its parts, without empty parts and other `.` parts. -/
def components (path : String) : List Component :=
  let parts := path.splitOn "/"
  let rest (ps : List String) : List Component :=
    ps.filterMap fun p =>
      if p.isEmpty || p == "." then none else if p == ".." then some .parent else some (.normal p)
  if path.startsWith "/" then .root :: rest parts
  else
    match parts with
    | "." :: ps => .current :: rest ps
    | ps => rest ps

/-- Components as a path. -/
def componentsText : List Component → String
  | [] => ""
  | .root :: cs => "/" ++ "/".intercalate (cs.map Component.text)
  | cs => "/".intercalate (cs.map Component.text)

/-- A path relative to a base it starts with, component by component; the path itself when it
does not start with the base. -/
def relativeTo (path base : String) : String :=
  let pc := components path
  let bc := components base
  if bc.isPrefixOf pc then componentsText (pc.drop bc.length) else path

/-- A directory tree held in memory: the absolute path of its root, as names, and its files by
their paths relative to the root. Every directory on the way to the root exists, and a
directory under the root exists when a file lies in it. -/
structure Tree where
  root : List String
  files : List (String × String)
  deriving Repr, Inhabited

namespace Tree

/-- What the names of an absolute path lead to. -/
def entryAt (t : Tree) (names : List String) : Entry :=
  if names.isPrefixOf t.root then .directory
  else if t.root.isPrefixOf names then
    let rel := "/".intercalate (names.drop t.root.length)
    match t.files.lookup rel with
    | some content => .file content
    | none => if t.files.any (·.1.startsWith (rel ++ "/")) then .directory else .missing
  else .missing

/-- Walk the parts of a path from the names of a directory. -/
def walk (t : Tree) (here : List String) : List String → Entry
  | [] => t.entryAt here
  | part :: rest =>
    match t.entryAt here with
    | .file _ => .throughFile
    | .missing => .missing
    | _ =>
      if part.isEmpty || part == "." then t.walk here rest
      else if part == ".." then t.walk here.dropLast rest
      else t.walk (here ++ [part]) rest

/-- What a path leads to, relative paths starting at the directory `cwd`. -/
def resolve (t : Tree) (cwd path : String) : Entry :=
  if path.isEmpty then .missing
  else
    let start := if path.startsWith "/" then [] else (cwd.splitOn "/").filter (!·.isEmpty)
    t.walk start (path.splitOn "/")

/-- The tree as a file system, relative paths starting at `cwd`. -/
def fileSystem {m : Type → Type} [Monad m] (t : Tree) (cwd : String) : FileSystem m :=
  ⟨fun path => pure (t.resolve cwd path)⟩

end Tree

end ReactiveView.Cli
