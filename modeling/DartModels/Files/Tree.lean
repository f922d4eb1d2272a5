import DartModels.Files.Access
import DartModels.Json.Value

/-!
# Directory trees

Files and directories as a value.

A tree is a file with its content or a directory with named entries. A path is
followed through it one segment at a time, as a system does it: every segment
has to be asked of a directory, so a path through a file is refused even where
the next segment would lead back out, and a path that ends in a slash can only
name a directory.

The working directory lies inside the tree, so that a path can leave it
upwards and come back. The directory above everything is its own parent.

## Main definitions

* `Tree`: Files and directories.
* `Tree.at?`, `Tree.put`: What is at a place, and a tree with something else
  there.
* `Tree.locate`: The place that a path leads to.
* `Tree.view`, `Tree.sink`: A tree as something to look at and to change.
* `Tree.files`, `Tree.ofFiles`: A tree as a list of files.

## Theorems

* `at?_put_self`: What was put at a place is there.
-/

namespace DartModels

/-- Files and directories. -/
inductive Tree where
  | file (content : ByteArray)
  | directory (entries : List (String × Tree))

namespace Tree

/-- A directory without entries. -/
def empty : Tree := .directory []

/-- What is at a place, named by the steps to it. -/
def at? : Tree → List String → Option Tree
  | t, [] => some t
  | .file _, _ :: _ => none
  | .directory entries, name :: rest => (Json.find? entries name).bind fun t => t.at? rest

/-- The entries of a directory. A file has none. -/
def entries : Tree → List (String × Tree)
  | .file _ => []
  | .directory es => es

/-- A tree with something else at a place. Directories on the way are made, in
    the place of files if need be. -/
def put (t : Tree) : List String → Tree → Tree
  | [], new => new
  | name :: rest, new =>
      let child := (Json.find? t.entries name).getD empty
      .directory (Json.insertMember t.entries name (child.put rest new))

theorem at?_put_self (t new : Tree) (place : List String) :
    (t.put place new).at? place = some new := by
  induction place generalizing t with
  | nil => simp [put, at?]
  | cons name rest ih => simp [put, at?, Json.find?_insertMember_self, ih]

/-! ### Paths -/

/-- The directory at a place. -/
def directoryAt (t : Tree) (place : List String) : Except Files.Fault (List (String × Tree)) :=
  match t.at? place with
  | some (.directory es) => .ok es
  | _ => .error .notDirectory

/-- Follow segments from a place. -/
def walk (t : Tree) (here : List String) : List String → Except Files.Fault (List String)
  | [] => .ok here
  | segment :: rest => do
      -- Even an idle segment can only be looked up in a directory.
      let es ← t.directoryAt here
      if Path.isIdle segment then t.walk here rest
      else if segment == ".." then t.walk here.dropLast rest
      else if Files.maxSegment < segment.utf8ByteSize then .error .nameTooLong
      else
        match Json.find? es segment with
        | some _ => t.walk (here ++ [segment]) rest
        | none => .error .notFound

/-- Where a path begins: at the top if it is absolute, and otherwise in the
    working directory. -/
def origin (home : List String) (path : String) : List String :=
  if path.startsWith "/" then [] else home

/-- The place that a path leads to. -/
def locate (t : Tree) (home : List String) (path : String) : Except Files.Fault (List String) := do
  Files.checkPath path
  t.walk (origin home path) (Path.segments path)

/-- The directory that the last segment of a path is to be looked up in, and
    that segment. -/
def locateParent (t : Tree) (home : List String) (path : String) (segments : List String) :
    Except Files.Fault (List String × String) := do
  let place ← t.walk (origin home path) segments.dropLast
  let _ ← t.directoryAt place
  let name := segments.getLast?.getD ""
  if Files.maxSegment < name.utf8ByteSize then .error .nameTooLong else return (place, name)

/-- The content of the file at a path. -/
def read (t : Tree) (home : List String) (path : String) : Except Files.Fault ByteArray := do
  let place ← t.locate home path
  match t.at? place with
  | some (.file content) => return content
  | some (.directory _) => .error .isDirectory
  | none => .error .notFound

/-- Whether there is anything at a path. -/
def isPresent (t : Tree) (home : List String) (path : String) : Bool :=
  (t.locate home path).isOk

/-- The names in the directory at a path. -/
def names (t : Tree) (home : List String) (path : String) : List String :=
  match t.locate home path with
  | .ok place => (((t.at? place).map entries).getD []).map Prod.fst
  | .error _ => []

/-- Whether there is a directory at a path. -/
def isDirectory (t : Tree) (home : List String) (path : String) : Bool :=
  match t.locate home path with
  | .ok place => (t.directoryAt place).isOk
  | .error _ => false

/-- Whether a segment names no entry of its own. -/
def isDetour (segment : String) : Bool :=
  Path.isIdle segment || segment == ".."

/-- The segments of a path without the empty ones at its end. -/
def properSegments (path : String) : List String :=
  ((Path.segments path).reverse.dropWhile String.isEmpty).reverse

/-- A tree with a new directory at a path. -/
def makeDirectory (t : Tree) (home : List String) (path : String) : Except Files.Fault Tree := do
  Files.checkPath path
  let (place, name) ← t.locateParent home path (properSegments path)
  if isDetour name then .error .exists
  else
    match t.at? (place ++ [name]) with
    | some _ => .error .exists
    | none => return t.put (place ++ [name]) empty

/-- A tree with a new content for the file at a path. -/
def write (t : Tree) (home : List String) (path content : String) : Except Files.Fault Tree := do
  Files.checkPath path
  let (place, name) ← t.locateParent home path (properSegments path)
  if isDetour name || path.endsWith "/" then .error .isDirectory
  else
    match t.at? (place ++ [name]) with
    | some (.directory _) => .error .isDirectory
    | _ => return t.put (place ++ [name]) (.file content.toUTF8)

/-- A tree as something to look at. -/
def view (t : Tree) (home : List String) : Files.View Id where
  read := t.read home
  isPresent := t.isPresent home
  isDirectory := t.isDirectory home
  names := t.names home

/-- Carry out a change, or leave the tree as it is. -/
def change (f : Tree → Except Files.Fault Tree) : StateM Tree (Except Files.Fault Unit) :=
  fun t =>
    match f t with
    | .ok t' => (.ok (), t')
    | .error e => (.error e, t)

/-- A tree as something to change. -/
def sink (home : List String) : Files.Sink (StateM Tree) where
  makeDirectory path := change fun t => t.makeDirectory home path
  isDirectory path := fun t => (t.isDirectory home path, t)
  write path content := change fun t => t.write home path content

/-! ### Lists of files -/

mutual

/-- The files of a tree with the steps to them. -/
def filesBelow (here : List String) : Tree → List (List String × ByteArray)
  | .file content => [(here, content)]
  | .directory es => entryFiles here es

/-- The files of the entries of a directory. -/
def entryFiles (here : List String) : List (String × Tree) → List (List String × ByteArray)
  | [] => []
  | (name, t) :: rest => filesBelow (here ++ [name]) t ++ entryFiles here rest

end

/-- The files of a tree with their paths. -/
def files (t : Tree) : List (String × ByteArray) :=
  (filesBelow [] t).map fun f => (String.intercalate "/" f.1, f.2)

/-- The tree of files with their paths. -/
def ofFiles (fs : List (String × ByteArray)) : Tree :=
  fs.foldl (fun t f => t.put ((Path.segments f.1).filter fun s => !Path.isIdle s) (.file f.2)) empty

/-- The files that are new or have another content than before. -/
def changes (before after : Tree) : List (String × ByteArray) :=
  let old := before.files
  after.files.filter fun f =>
    match Json.find? old f.1 with
    | some content => content.toList != f.2.toList
    | none => true

end Tree

end DartModels
