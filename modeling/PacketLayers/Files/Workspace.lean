import PacketLayers.Files.Directory
import PacketLayers.Files.Error
import PacketLayers.Files.Path

/-!
A tree of directories and regular files, and the operations that a path names in it. A path is
followed piece by piece; everything it passes through must be a directory, and no piece may be
longer than a name can be. Operations that take a path as a whole also limit its length.
-/
namespace PacketLayers

/-- A file tree seen from a working directory. -/
structure Workspace where
  root : Directory := .empty
  here : Location := []

namespace Workspace

def entry? (w : Workspace) (loc : Location) : Option Entry := w.root.at? loc

def isDirectory (w : Workspace) (loc : Location) : Bool :=
  match w.entry? loc with
  | some (.directory _) => true
  | _ => false

def content? (w : Workspace) (loc : Location) : Option Bytes :=
  match w.entry? loc with
  | some (.file content) => some content
  | _ => none

def names (w : Workspace) (loc : Location) : List String :=
  match w.entry? loc with
  | some (.directory inside) => inside.names
  | _ => []

def put (w : Workspace) (loc : Location) (e : Entry) : Workspace :=
  { w with root := w.root.put loc e }

def follow (w : Workspace) (loc : Location) : List String → Except FileError Location
  | [] => .ok loc
  | piece :: rest =>
    if !w.isDirectory loc then .error .notDirectory
    else if Path.saysNothing piece then w.follow loc rest
    else if piece == ".." then w.follow loc.dropLast rest
    else if Path.isLongName piece then .error .nameTooLong
    else if (w.entry? (loc ++ [piece])).isSome then w.follow (loc ++ [piece]) rest
    else .error .notFound

def start (w : Workspace) (path : String) : Location := if Path.isRooted path then [] else w.here

def fault? (path : String) : Option FileError :=
  if path.toList.contains '\x00' then some .nulInPath
  else if path.isEmpty then some .notFound
  else none

/-- What is wrong with a path that is taken as a whole. -/
def wholeFault? (path : String) : Option FileError :=
  match fault? path with
  | some e => some e
  | none => if Path.isLong path then some .nameTooLong else none

/-- Whether the path from the root is too long to look a location up, with a slash behind it if
pieces follow. -/
def isFar (loc : Location) (behind : List String) : Bool :=
  decide (4095 < loc.octets + if behind.isEmpty then 0 else 1)

/-- Follows pieces as `follow` does, but looks up every name by its path from the root. -/
def followWhole (w : Workspace) (loc : Location) : List String → Except FileError Location
  | [] => .ok loc
  | piece :: rest =>
    let named := !Path.saysNothing piece && piece != ".."
    if named && isFar (loc ++ [piece]) rest then .error .nameTooLong
    else
      match w.follow loc [piece] with
      | .error e => .error e
      | .ok next => w.followWhole next rest

/-- The location of what a path names, found a name at a time. The path itself may be of any
length, but not the paths from the root that it goes through. -/
def locate (w : Workspace) (path : String) : Except FileError Location :=
  match fault? path with
  | some e => .error e
  | none => w.followWhole (w.start path) (Path.bodyPieces path)

def resolve (w : Workspace) (path : String) : Except FileError Location :=
  match wholeFault? path with
  | some e => .error e
  | none => w.follow (w.start path) (Path.bodyPieces path)

def stat (w : Workspace) (path : String) : Except FileError Entry := do
  let loc ← w.resolve path
  match w.entry? loc with
  | some e => .ok e
  | none => .error .notFound

def exists? (w : Workspace) (path : String) : Bool :=
  match w.stat path with
  | .ok _ => true
  | .error _ => false

def isFile (w : Workspace) (path : String) : Bool :=
  match w.stat path with
  | .ok (.file _) => true
  | _ => false

def read (w : Workspace) (path : String) : Except FileError Bytes := do
  match ← w.stat path with
  | .file content => .ok content
  | .directory _ => .error .isDirectory

def directorySize : Nat := 4096

def size (w : Workspace) (path : String) : Except FileError Nat := do
  match ← w.stat path with
  | .file content => .ok content.length
  | .directory _ => .ok directorySize

/-- Where a path puts something new: the directory, the last piece, and whether a slash follows
it. -/
structure Target where
  directory : Location
  last : String
  slashed : Bool

def target (w : Workspace) (path : String) : Except FileError Target :=
  match wholeFault? path with
  | some e => .error e
  | none =>
    let body := Path.bodyPieces path
    let named := (body.reverse.dropWhile (· == "")).reverse
    match w.follow (w.start path) named.dropLast with
    | .error e => .error e
    | .ok loc =>
      if w.isDirectory loc then .ok ⟨loc, named.getLast?.getD ".", body.length != named.length⟩
      else .error .notDirectory

def isDots (piece : String) : Bool := piece == "." || piece == ".."

def write (w : Workspace) (path : String) (content : Bytes) : Except FileError Workspace := do
  let t ← w.target path
  if isDots t.last || t.slashed then .error .isDirectory
  else if Path.isLongName t.last then .error .nameTooLong
  else
    let loc := t.directory ++ [t.last]
    if w.isDirectory loc then .error .isDirectory else .ok (w.put loc (.file content))

/-- Follows pieces from a directory, and makes the directories that are missing. What was made
before an error stays. A file in the way is one to be passed, unless it is named last or
something was made before it; then a directory was to be made in its place. -/
def makeAlong (w : Workspace) (loc : Location) (made : Bool) :
    List String → Workspace × Except FileError Unit
  | [] => (w, .ok ())
  | piece :: rest =>
    if Path.saysNothing piece then w.makeAlong loc made rest
    else if piece == ".." then w.makeAlong loc.dropLast made rest
    else if Path.isLongName piece then (w, .error .nameTooLong)
    else
      let below := loc ++ [piece]
      match w.entry? below with
      | some (.directory _) => w.makeAlong below made rest
      | some (.file _) =>
        (w, .error (if made || rest.isEmpty then .alreadyExists else .notDirectory))
      | none => (w.put below (.directory .empty)).makeAlong below true rest

def makeAllDirectories (w : Workspace) (path : String) : Workspace × Except FileError Unit :=
  if path.isEmpty then (w, .ok ())
  else
    match wholeFault? path with
    | some e => (w, .error e)
    | none => w.makeAlong (w.start path) false (Path.bodyPieces path)

/-- Puts a file in the tree, with the directories it lies in. -/
def withFile (w : Workspace) (path : String) (content : Bytes) : Workspace :=
  let inside := match Path.parent? path with
    | none => w
    | some parent => (w.makeAllDirectories parent).1
  match inside.write path content with
  | .ok written => written
  | .error _ => inside

def withDirectory (w : Workspace) (path : String) : Workspace := (w.makeAllDirectories path).1

/-- The regular files of the second tree that are not the same in the first, below the working
directory and named from it. -/
def changes (before after : Workspace) : List (String × Bytes) :=
  (after.root.locations []).filterMap fun loc =>
    match after.content? loc with
    | none => none
    | some content =>
      if loc.take after.here.length = after.here ∧ before.content? loc ≠ some content then
        some ("/".intercalate (loc.drop after.here.length), content)
      else none

end Workspace

end PacketLayers
