import AtomicSet.Text.Unseen

/-!
# Quoted text

A text is shown in double quotes. A quote, a backslash and the common control characters are written
with a backslash and one sign; any other character that would not be seen by itself is written as
its number in lower-case hexadecimal.

## Main definitions

* `Quoted.escape` — one character.
* `Quoted.text` — a text in quotes.
-/

namespace AtomicSet

namespace Quoted

/-- How a character is written between quotes. -/
def escape (c : Char) : List Char :=
  if c = '"' then ['\\', '"']
  else if c = '\\' then ['\\', '\\']
  else if c = '\n' then ['\\', 'n']
  else if c = '\r' then ['\\', 'r']
  else if c = '\t' then ['\\', 't']
  else if c.toNat = 0 then ['\\', '0']
  else if Unseen.unseen c then
    ['\\', 'u', Char.ofNat 0x7b] ++ Nat.toDigits 16 c.toNat ++ [Char.ofNat 0x7d]
  else [c]

/-- A text in quotes. -/
def text (s : String) : String :=
  String.ofList (['"'] ++ s.toList.flatMap escape ++ ['"'])

end Quoted

end AtomicSet
