/-!
# Paths

A path is read as its segments between slashes. Empty segments and single dots name nothing; the
other ones name a file or a directory, two dots the directory above.

## Main definitions

* `Path` — the segments of a path.
* `Path.names` — the segments that name something.
* `Path.parent?` — the path without its last name.
-/

namespace AtomicSet

/-- The segments of a path between its slashes. -/
structure Path where
  segments : List String
deriving DecidableEq, Repr

namespace Path

/-- Reads a path. -/
def ofText (text : String) : Path :=
  ⟨(text.split '/').toList.map String.Slice.copy⟩

/-- The text of a path. -/
def text (p : Path) : String :=
  "/".intercalate p.segments

/-- Whether a segment names something. -/
def isName (segment : String) : Bool :=
  segment ≠ "" && segment ≠ "."

/-- The segments that name something. -/
def names (p : Path) : List String :=
  p.segments.filter isName

/-- The path up to and including its last name. -/
def trim (p : Path) : Path :=
  ⟨(p.segments.reverse.dropWhile fun s => !isName s).reverse⟩

/-- The path without its last name, if it has one. -/
def parent? (p : Path) : Option Path :=
  if p.names = [] then none else some (trim ⟨p.trim.segments.dropLast⟩)

/-- Whether the text is empty. -/
def isEmpty (p : Path) : Bool :=
  p.segments = [""]

/-- Whether the text ends in a slash. -/
def endsInSlash (p : Path) : Bool :=
  p.segments.getLast? = some "" && 2 ≤ p.segments.length

/-- Whether the last segment, slashes at the end aside, is a single dot. -/
def endsInDot (p : Path) : Bool :=
  (p.segments.filter fun s => s ≠ "").getLast? = some "."

/-- The largest number of bytes in a name. -/
def maxNameBytes : Nat := 255

/-- The largest number of bytes in a path. -/
def maxPathBytes : Nat := 4095

/-- Whether the path holds the character NUL, which ends a path and so cannot be part of one. -/
def holdsNul (p : Path) : Bool :=
  p.segments.any fun s => s.toList.contains (Char.ofNat 0)

/-- Whether a name is too long for a directory. -/
def nameTooLong (name : String) : Bool :=
  maxNameBytes < name.utf8ByteSize

/-- Whether a path is too long to be looked up. -/
def tooLong (p : Path) : Bool :=
  maxPathBytes < p.text.utf8ByteSize

end Path

end AtomicSet
