import AtomicSet.Benchmark.Settings

/-!
# The command line

Options are single letters with a value, which may be attached (`-t4`, `-t=4`) or follow as the next
argument (`-t 4`) unless that begins with a hyphen; a lone hyphen is a value. Flags are the long
names `--print`, `--dry-run` and `--help`, and the letter `h`. There are no other arguments; after
`--` every argument is one too many.

An option is taken in when it is complete: at once if its value is attached, otherwise when the next
option or flag is read or the line ends. So an argument that cannot be understood is reported before
the option in front of it is looked at.

## Convention

What is an option and what its value, what may be left out, and which of several mistakes is
reported are up to the library that parses the command line. That library is no part of the program:
the reader here follows the rules that it documents, as far as these options need them.

## Main definitions

* `ArgumentError` — why a command line is rejected.
* `ValueOption` — the options; `Draft` — the values given so far; `Draft.accept` takes one in.
* `Reader` — the state of reading; `Reader.read` reads one argument.
* `Settings.ofArguments` — reads a whole command line.
-/

namespace AtomicSet

/-- Why a command line is rejected. -/
inductive ArgumentError where
  /-- A value is not one of those possible, or is missing. -/
  | invalidValue
  /-- A value is not a number, or the number is out of range. -/
  | unreadableValue
  /-- There is no such option, or an argument too many. -/
  | unknownArgument
  /-- An option that has to be given is not. -/
  | missingArgument
  /-- An option or flag is given twice. -/
  | repeatedArgument
  /-- A flag is given a value. -/
  | tooManyValues
  /-- Help is asked for. -/
  | helpRequested
deriving DecidableEq, Repr

/-! ### Values -/

/-- The largest number of 64 bits. -/
def maxWord : Nat := 18446744073709551615

/-- The number that a text of decimal digits, and nothing else, stands for. -/
def digitsValue? (digits : List Char) : Option Nat :=
  if digits.isEmpty || !digits.all Char.isDigit then none
  else some (digits.foldl (fun n c => 10 * n + (c.toNat - '0'.toNat)) 0)

/-- Reads a number of 64 bits that is at least `low`; a plus sign may stand before it. -/
def readWord (low : Nat) (text : String) : Except ArgumentError Nat :=
  let digits :=
    match text.toList with
    | '+' :: rest => rest
    | all => all
  match digitsValue? digits with
  | some n => if low ≤ n && n ≤ maxWord then .ok n else .error .unreadableValue
  | none => .error .unreadableValue

/-- Reads a percentage; a sign may stand before it, so that zero may be negative. -/
def readPercentage (text : String) : Except ArgumentError Nat :=
  match text.toList with
  | '-' :: digits => if digitsValue? digits = some 0 then .ok 0 else .error .unreadableValue
  | _ =>
    match readWord 0 text with
    | .ok n => if n ≤ 100 then .ok n else .error .unreadableValue
    | .error e => .error e

/-- Reads the name of an engine, in letters of either case. -/
def readEngine (text : String) : Except ArgumentError Engine :=
  match [Engine.helping, Engine.locking].find? fun e => text.toLower = e.name with
  | some e => .ok e
  | none => .error .invalidValue

/-- Reads a batch size. -/
def readBatchSize (text : String) : Except ArgumentError BatchSize :=
  match [BatchSize.one, BatchSize.four].find? fun b => text = b.text with
  | some b => .ok b
  | none => .error .invalidValue

/-! ### Options -/

/-- The options that take a value. -/
inductive ValueOption where
  | engine
  | threads
  | txnSize
  | keyRange
  | insertRate
  | deleteRate
  | interval
  | samplingPeriod
  | batchSize
  | lockTimeout
  | output
deriving DecidableEq, Repr

namespace ValueOption

/-- The letter of an option. -/
def letter : ValueOption → Char
  | engine => 'd'
  | threads => 't'
  | txnSize => 'z'
  | keyRange => 'r'
  | insertRate => 'p'
  | deleteRate => 'x'
  | interval => 'i'
  | samplingPeriod => 's'
  | batchSize => 'c'
  | lockTimeout => 'l'
  | output => 'o'

/-- All options. -/
def all : List ValueOption :=
  [engine, threads, txnSize, keyRange, insertRate, deleteRate, interval, samplingPeriod, batchSize,
    lockTimeout, output]

/-- The option of a letter. -/
def ofLetter? (c : Char) : Option ValueOption :=
  all.find? fun o => o.letter = c

end ValueOption

/-- The values and flags given so far. -/
structure Draft where
  engine : Option Engine := none
  threads : Option Nat := none
  txnSize : Option Nat := none
  keyRange : Option Nat := none
  insertRate : Option Nat := none
  deleteRate : Option Nat := none
  interval : Option Nat := none
  samplingPeriod : Option Nat := none
  batchSize : Option BatchSize := none
  lockTimeout : Option Nat := none
  output : Option String := none
  print : Bool := false
  dryRun : Bool := false
deriving DecidableEq, Repr

/-- Fills a slot that has to be empty with a value that has to be readable. -/
def fill {α : Type} (slot : Option α) (value : Except ArgumentError α) :
    Except ArgumentError (Option α) :=
  if slot.isSome then .error .repeatedArgument else value.map some

namespace Draft

/-- Takes in an option with its value. -/
def accept (d : Draft) (o : ValueOption) (value : String) : Except ArgumentError Draft :=
  match o with
  | .engine => return { d with engine := ← fill d.engine (readEngine value) }
  | .threads => return { d with threads := ← fill d.threads (readWord 0 value) }
  | .txnSize => return { d with txnSize := ← fill d.txnSize (readWord 0 value) }
  | .keyRange => return { d with keyRange := ← fill d.keyRange (readWord 0 value) }
  | .insertRate => return { d with insertRate := ← fill d.insertRate (readPercentage value) }
  | .deleteRate => return { d with deleteRate := ← fill d.deleteRate (readPercentage value) }
  | .interval => return { d with interval := ← fill d.interval (readWord 1 value) }
  | .samplingPeriod =>
    return { d with samplingPeriod := ← fill d.samplingPeriod (readWord 0 value) }
  | .batchSize => return { d with batchSize := ← fill d.batchSize (readBatchSize value) }
  | .lockTimeout => return { d with lockTimeout := ← fill d.lockTimeout (readWord 0 value) }
  | .output => return { d with output := ← fill d.output (.ok value) }

/-- The settings that the values given amount to; the others have their defaults. -/
def settings (d : Draft) : Except ArgumentError Settings :=
  match d.engine, d.threads with
  | some engine, some threads =>
    let insertRate := d.insertRate.getD 50
    .ok {
      engine, threads, insertRate
      txnSize := d.txnSize.getD 1
      keyRange := d.keyRange.getD 100
      deleteRate := min (d.deleteRate.getD 50) (100 - insertRate)
      interval := d.interval.getD 10
      samplingPeriod := d.samplingPeriod.getD 1
      batchSize := d.batchSize.getD .one
      lockTimeout := d.lockTimeout.getD 100
      output := d.output
      print := d.print
      dryRun := d.dryRun }
  | _, _ => .error .missingArgument

end Draft

/-! ### Reading -/

/-- The state of reading a command line. -/
structure Reader where
  draft : Draft := {}
  /-- The option that is not taken in yet, with its value if that has been read. -/
  pending : Option (ValueOption × Option String) := none
  /-- Whether `--` has been read. -/
  onlyPlain : Bool := false
deriving DecidableEq, Repr

namespace Reader

/-- Takes the pending option in. -/
def settle (r : Reader) : Except ArgumentError Reader :=
  match r.pending with
  | none => .ok r
  | some (_, none) => .error .invalidValue
  | some (o, some value) => return { r with draft := ← r.draft.accept o value, pending := none }

/-- Raises a flag, which must not be up. -/
def raise (up : Bool) : Except ArgumentError Bool :=
  if up then .error .repeatedArgument else .ok true

/-- Reads an argument after two hyphens. -/
def readLong (r : Reader) (argument : List Char) : Except ArgumentError Reader :=
  let name := String.ofList (argument.takeWhile fun c => c ≠ '=')
  if ¬(["help", "print", "dry-run"].contains name) then .error .unknownArgument
  else if argument.contains '=' then .error .tooManyValues
  else do
    let r ← r.settle
    if name = "help" then .error .helpRequested
    else if name = "print" then
      return { r with draft := { r.draft with print := ← raise r.draft.print } }
    else
      return { r with draft := { r.draft with dryRun := ← raise r.draft.dryRun } }

/-- Reads an argument with the letter `c` after one hyphen, and `attached` behind it. -/
def readShort (r : Reader) (c : Char) (attached : List Char) : Except ArgumentError Reader :=
  if c = 'h' then do
    let _ ← r.settle
    .error .helpRequested
  else
    match ValueOption.ofLetter? c with
    | none => .error .unknownArgument
    | some o => do
      let r ← r.settle
      match attached with
      | [] => return { r with pending := some (o, none) }
      | '=' :: value => return { r with draft := ← r.draft.accept o (String.ofList value) }
      | value => return { r with draft := ← r.draft.accept o (String.ofList value) }

/-- Reads an argument that is no option. -/
def readPlain (r : Reader) (argument : String) : Except ArgumentError Reader :=
  match r.pending with
  | some (o, none) => .ok { r with pending := some (o, some argument) }
  | some (_, some _) | none => .error .unknownArgument

/-- Reads one argument. -/
def read (r : Reader) (argument : String) : Except ArgumentError Reader :=
  if r.onlyPlain then .error .unknownArgument
  else
    match argument.toList with
    | ['-', '-'] => .ok { r with onlyPlain := true }
    | '-' :: '-' :: long => r.readLong long
    | '-' :: c :: attached => r.readShort c attached
    | _ => r.readPlain argument

end Reader

/-- Reads the arguments of a command line. -/
def Settings.ofArguments (arguments : List String) : Except ArgumentError Settings := do
  let r ← arguments.foldlM Reader.read {}
  let r ← r.settle
  r.draft.settings

end AtomicSet
