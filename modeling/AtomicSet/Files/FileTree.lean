import AtomicSet.Files.Path

/-!
# File trees

Files with their texts, and directories, below a directory that is always there. Looking a path up
follows its names from that directory on, and every name but the last has to be that of a directory.

## Conventions

The directory that is always there is the root and the working directory at once: paths that begin
with a slash and paths that do not are followed from there alike. There are no links, neither hard
nor symbolic, so that every file and directory has one place. There are no permissions, and space
does not run out: whatever can be read can be written, and what can be named can be created.

## Main definitions

* `FileError` — why a file or directory cannot be had, with `FileError.text`.
* `FileError.ofPath?` — what is wrong with a path whatever the tree holds.
* `FileTree` — the files and directories by place, a place being the names that lead to it.
* `FileTree.makeDirectory`, `FileTree.makeDirectories` — create a directory, or all that are missing
  on a path.
* `FileTree.openForAppending` — find a file to append to, or create it.
* `FileTree.append`, `FileTree.listing` — write, and read everything back.
-/

namespace AtomicSet

/-- Why a file or a directory cannot be had. -/
inductive FileError where
  | notFound
  | exists
  | notDirectory
  | isDirectory
  | nameTooLong
  /-- The path holds the character NUL. -/
  | nulInPath
deriving DecidableEq, Repr

namespace FileError

/-- The number of an error. A path with a NUL is refused before it is looked up and has none. -/
def number? : FileError → Option Nat
  | notFound => some 2
  | .exists => some 17
  | notDirectory => some 20
  | isDirectory => some 21
  | nameTooLong => some 36
  | nulInPath => none

/-- The wording of an error. -/
def description : FileError → String
  | notFound => "No such file or directory"
  | .exists => "File exists"
  | notDirectory => "Not a directory"
  | isDirectory => "Is a directory"
  | nameTooLong => "File name too long"
  | nulInPath => "file name contained an unexpected NUL byte"

/-- The wording of an error and its number, if it has one. -/
def text (e : FileError) : String :=
  match e.number? with
  | some n => s!"{e.description} (os error {n})"
  | none => e.description

/-- What is wrong with a path whatever the tree holds. A NUL is seen first. -/
def ofPath? (p : Path) : Option FileError :=
  if p.holdsNul then some nulInPath
  else if p.isEmpty then some notFound
  else if p.tooLong then some nameTooLong
  else none

end FileError

/-- What a place may hold: a file with its text, or a directory. -/
inductive FileNode where
  | file (text : String)
  | directory
deriving DecidableEq, Repr

/-- The names that lead to a file or directory. -/
abbrev Place := List String

/-- Files and directories by place. The empty place is the directory that everything is below; it is
not listed. -/
structure FileTree where
  nodes : List (Place × FileNode) := []
deriving DecidableEq, Repr

namespace FileTree

/-- What a place holds. -/
def node? (t : FileTree) (p : Place) : Option FileNode :=
  if p = [] then some .directory else (t.nodes.find? fun e => e.1 = p).map Prod.snd

/-- Puts a file or directory in a place that holds nothing. -/
def add (t : FileTree) (p : Place) (n : FileNode) : FileTree :=
  ⟨t.nodes ++ [(p, n)]⟩

/-- Adds text at the end of the file at a place. -/
def append (t : FileTree) (p : Place) (text : String) : FileTree :=
  ⟨t.nodes.map fun e =>
    match e.2 with
    | .file old => if e.1 = p then (e.1, .file (old ++ text)) else e
    | .directory => e⟩

/-- Follows names from the place `p` on; each has to lead to a directory. -/
def walk (t : FileTree) (p : Place) : List String → Except FileError Place
  | [] => .ok p
  | name :: names =>
    if name = ".." then t.walk p.dropLast names
    else if Path.nameTooLong name then .error .nameTooLong
    else
      match t.node? (p ++ [name]) with
      | none => .error .notFound
      | some (.file _) => .error .notDirectory
      | some .directory => t.walk (p ++ [name]) names

/-- The directory that a path leads to. -/
def directory (t : FileTree) (p : Path) : Except FileError Place :=
  match FileError.ofPath? p with
  | some e => .error e
  | none => t.walk [] p.names

/-- Whether a path leads to a directory. -/
def isDirectory (t : FileTree) (p : Path) : Bool :=
  match t.directory p with
  | .ok _ => true
  | .error _ => false

/-- Creates the directory that a path names, in a directory that exists. -/
def makeDirectory (t : FileTree) (p : Path) : Except FileError FileTree :=
  match FileError.ofPath? p with
  | some e => .error e
  | none =>
    match p.names.getLast? with
    | none => .error .exists
    | some name =>
      match t.walk [] p.names.dropLast with
      | .error e => .error e
      | .ok above =>
        if name = ".." then .error .exists
        else if Path.nameTooLong name then .error .nameTooLong
        else
          match t.node? (above ++ [name]) with
          | some _ => .error .exists
          | none => .ok (t.add (above ++ [name]) .directory)

/-- Creates the directory that a path names and all that are missing on the way, at most `depth` of
them. Those created before an error stay. -/
def makeDirectoriesWithin : Nat → FileTree → Path → FileTree × Except FileError Unit
  | 0, t, _ => (t, .ok ())
  | depth + 1, t, p =>
    match t.makeDirectory p with
    | .ok t => (t, .ok ())
    | .error .notFound =>
      match p.parent? with
      | none => (t, .error .notFound)
      | some above =>
        match makeDirectoriesWithin depth t above with
        | (t, .error e) => (t, .error e)
        | (t, .ok ()) =>
          match t.makeDirectory p with
          | .ok t => (t, .ok ())
          | .error e => (t, if t.isDirectory p then .ok () else .error e)
    | .error e => (t, if t.isDirectory p then .ok () else .error e)

/-- Creates the directory that a path names and all that are missing on the way. Those created
before an error stay. -/
def makeDirectories (t : FileTree) (p : Path) : FileTree × Except FileError Unit :=
  makeDirectoriesWithin p.names.length t p

/-- Finds the file that a path names, or creates it with the text `fresh`. -/
def openForAppending (t : FileTree) (p : Path) (fresh : String) :
    Except FileError (FileTree × Place) :=
  match FileError.ofPath? p with
  | some e => .error e
  | none =>
    match p.names.getLast? with
    | none => .error .isDirectory
    | some name =>
      match t.walk [] (if p.endsInDot then p.names else p.names.dropLast) with
      | .error e => .error e
      | .ok above =>
        if p.endsInDot || p.endsInSlash || name = ".." then .error .isDirectory
        else if Path.nameTooLong name then .error .nameTooLong
        else
          match t.node? (above ++ [name]) with
          | some .directory => .error .isDirectory
          | some (.file _) => .ok (t, above ++ [name])
          | none => .ok (t.add (above ++ [name]) (.file fresh), above ++ [name])

/-- A tree with these files and directories, and the directories that they are in. -/
def ofList (nodes : List (String × Option String)) : FileTree :=
  nodes.foldl
    (fun t (name, text) =>
      let p := Path.ofText name
      match text with
      | none => (t.makeDirectories p).1
      | some text =>
        let t :=
          match p.parent? with
          | none => t
          | some above => (t.makeDirectories above).1
        match t.openForAppending p text with
        | .ok (t, _) => t
        | .error _ => t)
    {}

/-- All files with their texts, and all directories, by path in ascending order. -/
def listing (t : FileTree) : List (String × Option String) :=
  let row (e : Place × FileNode) : String × Option String :=
    ("/".intercalate e.1,
      match e.2 with
      | .file text => some text
      | .directory => none)
  (t.nodes.map row).mergeSort fun a b => !(decide (b.1 < a.1))

end FileTree

end AtomicSet
