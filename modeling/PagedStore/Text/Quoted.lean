import PagedStore.Text.Invisible
import PagedStore.Text.Lossy

/-!
# Quoted text

Reports quote keys. Between the quotes stand the characters of the key, with a backslash form for
the quote, the backslash, the usual controls and whatever has no shape of its own.
-/

set_option autoImplicit false

namespace PagedStore.Text

/-- A code point by number, between braces, after a backslash and a `u`. -/
def numbered (c : Char) : List Char :=
  ['\\', 'u', '\x7b'] ++ Nat.toDigits 16 c.toNat ++ ['\x7d']

/-- A character as it stands inside quotes. -/
def quoteChar (c : Char) : List Char :=
  if c = '"' then ['\\', '"']
  else if c = '\\' then ['\\', '\\']
  else if c = '\n' then ['\\', 'n']
  else if c = '\r' then ['\\', 'r']
  else if c = '\t' then ['\\', 't']
  else if c = '\x00' then ['\\', '0']
  else if isInvisible c then numbered c
  else [c]

/-- A text between quotes. -/
def quote (s : String) : String :=
  String.ofList ('"' :: s.toList.flatMap quoteChar ++ ['"'])

/-- A byte string, read as text, between quotes. -/
def quoteBytes (bs : Bytes) : String := quote (decode bs)

end PagedStore.Text
