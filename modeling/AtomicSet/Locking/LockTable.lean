/-!
# Locks on keys

One lock for each key, held by at most one holder. Nobody can take a lock that is held, its own
holder included. All who need several locks take them in ascending key order.

## Main definitions

* `LockTable` — who holds which key.
* `LockTable.acquire`, `LockTable.acquireAll`, `LockTable.release`, `LockTable.releaseAll`.
* `ascending` — the distinct keys of a list in ascending order.
-/

namespace AtomicSet

/-- Who holds which key; a key that is not listed is free. -/
structure LockTable (κ η : Type) where
  held : List (κ × η) := []
deriving DecidableEq, Repr

namespace LockTable

variable {κ η : Type}

/-- The keys that a holder holds, in the order in which it took them. -/
def keysOf [DecidableEq η] (t : LockTable κ η) (h : η) : List κ :=
  (t.held.filter fun e => e.2 = h).map Prod.fst

/-- Frees all keys of a holder. -/
def releaseAll [DecidableEq η] (t : LockTable κ η) (h : η) : LockTable κ η :=
  ⟨t.held.filter fun e => e.2 ≠ h⟩

variable [DecidableEq κ]

/-- The holder of a key. -/
def holder? (t : LockTable κ η) (k : κ) : Option η :=
  (t.held.find? fun e => e.1 = k).map Prod.snd

/-- Takes the lock of a key, if it is free. -/
def acquire (t : LockTable κ η) (k : κ) (h : η) : Option (LockTable κ η) :=
  match t.holder? k with
  | some _ => none
  | none => some ⟨t.held ++ [(k, h)]⟩

/-- Takes the locks of the keys in order up to the first one that is not free, and tells whether it
got them all. -/
def acquireAll (t : LockTable κ η) (h : η) : List κ → LockTable κ η × Bool
  | [] => (t, true)
  | k :: ks =>
    match t.acquire k h with
    | none => (t, false)
    | some t' => t'.acquireAll h ks

/-- Frees a key. -/
def release (t : LockTable κ η) (k : κ) : LockTable κ η :=
  ⟨t.held.filter fun e => e.1 ≠ k⟩

/-- Frees a key if `h` holds it, and tells whether it did. -/
def releaseOwn [DecidableEq η] (t : LockTable κ η) (k : κ) (h : η) : LockTable κ η × Bool :=
  if t.holder? k = some h then (t.release k, true) else (t, false)

end LockTable

/-! ### The order of locking -/

variable {κ : Type} [LT κ] [DecidableLT κ]

/-- Adds a key to an ascending list unless it is there. -/
def insertKey (k : κ) : List κ → List κ
  | [] => [k]
  | x :: xs =>
    if k < x then k :: x :: xs
    else if x < k then x :: insertKey k xs
    else x :: xs

/-- The distinct keys of a list in ascending order. -/
def ascending (keys : List κ) : List κ :=
  keys.foldr insertKey []

end AtomicSet
