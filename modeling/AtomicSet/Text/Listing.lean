import AtomicSet.Text.Quoted

/-!
# Listings of keys

A set lists its keys line by line. The non-blocking engine shows every node of its chain and whether
it holds anything; the address of a node is not shown. The lock-based engine has live entries only.

## Main definitions

* `KeyText` — keys that can be shown.
* `surveyLine`, `entryLine` — a line of either listing.
-/

namespace AtomicSet

/-- Keys that can be shown. -/
class KeyText (κ : Type) where
  /-- The text of a key. -/
  keyText : κ → String

/-- Numbers are shown in decimal. -/
instance : KeyText Int where
  keyText := toString

/-- Texts are shown in quotes. -/
instance : KeyText String where
  keyText := Quoted.text

variable {κ υ : Type} [KeyText κ]

/-- The line of a node with its key, and whether it holds anything. -/
def surveyLine (node : κ × Bool) : String :=
  let status := if node.2 then "Exist" else "Inexist"
  s!"Node [_] Key [{KeyText.keyText node.1}] Status [{status}]"

/-- The line of a live entry. -/
def entryLine (entry : κ × υ) : String :=
  s!"Key [{KeyText.keyText entry.1}] Status [Exist]"

end AtomicSet
