import AtomicSet.Operation

/-!
# The sequential set

What a transactional set means: a partial map from keys to values, on which a transaction applies
its operations one after another, all or nothing. Neither engine computes with this module; both
are measured against it.

## Main definitions

* `Contents κ υ` — a partial map.
* `Contents.apply` — one operation.
* `Contents.run` — a transaction: the map and the reads after it, or the first operation that fails.
* `Contents.Lists` — a list of entries in strictly ascending key order that lists the map.
-/

namespace AtomicSet

/-- A partial map from keys to values. -/
def Contents (κ υ : Type) : Type := κ → Option υ

namespace Contents

variable {κ υ : Type}

/-- The map without entries. -/
def empty : Contents κ υ := fun _ => none

variable [DecidableEq κ]

/-- The map that holds `held` at `k` and agrees with `m` elsewhere. -/
def set (m : Contents κ υ) (k : κ) (held : Option υ) : Contents κ υ :=
  fun x => if x = k then held else m x

/-- One operation: the map after it and what it read, or `none` if its precondition fails. -/
def apply (m : Contents κ υ) : Operation κ υ → Option (Contents κ υ × Option υ)
  | .find k => (m k).map fun v => (m, some v)
  | .insert k v => if (m k).isSome then none else some (m.set k (some v), none)
  | .delete k => if (m k).isSome then some (m.set k none, none) else none

/-- The operations in order: the map after them and one read each, or the position of the first
one that fails. -/
def run (m : Contents κ υ) : List (Operation κ υ) → Except Nat (Contents κ υ × List (Option υ))
  | [] => .ok (m, [])
  | op :: ops =>
    match m.apply op with
    | none => .error 0
    | some (m', read) =>
      match m'.run ops with
      | .error i => .error (i + 1)
      | .ok (m'', reads) => .ok (m'', read :: reads)

/-- `entries` lists the map `m`: each entry once, in strictly ascending key order. -/
structure Lists [LT κ] (m : Contents κ υ) (entries : List (κ × υ)) : Prop where
  /-- Keys ascend strictly. -/
  ascending : entries.Pairwise (·.1 < ·.1)
  /-- The entries are those of the map. -/
  mem_iff : ∀ k v, (k, v) ∈ entries ↔ m k = some v

end Contents

end AtomicSet
