import ReplicatedTable.Text.Invisible

/-!
# Values in messages

How messages show spans of time and texts. A span of whole milliseconds is written in seconds from one second
on, with as many decimal places as it needs, and in milliseconds below. A text stands between quotation marks,
with every character that would end it or not show escaped, and a list of texts between brackets.
-/
namespace ReplicatedTable.Text

/-! ## Spans of time -/

/-- The decimal places of a thousandth part, without zeros at the end. -/
def thousandths (n : Nat) : String :=
  if n = 0 then ""
  else if n % 100 = 0 then s!".{n / 100}"
  else if n % 10 = 0 then s!".{n / 100}{n / 10 % 10}"
  else s!".{n / 100}{n / 10 % 10}{n % 10}"

/-- The text of a span. -/
def span (ms : Nat) : String :=
  if ms = 0 then "0ns"
  else if ms < 1000 then s!"{ms}ms"
  else s!"{ms / 1000}{thousandths (ms % 1000)}s"

/-! ## Quoted texts -/

/-- A code point in lower-case hexadecimal between braces. -/
def codePoint (c : Char) : List Char :=
  ['\\', 'u', '\x7b'] ++ Nat.toDigits 16 c.toNat ++ ['\x7d']

/-- A character as a quoted text holds it. -/
def quoteChar (c : Char) : List Char :=
  if c = '"' then ['\\', '"']
  else if c = '\\' then ['\\', '\\']
  else if c = '\n' then ['\\', 'n']
  else if c = '\r' then ['\\', 'r']
  else if c = '\t' then ['\\', 't']
  else if c.toNat = 0 then ['\\', '0']
  else if c.toNat < 0x20 then codePoint c
  else if c.toNat < 0x7F then [c]
  else if invisible c then codePoint c
  else [c]

def quoted (s : String) : String :=
  String.ofList ('"' :: s.toList.flatMap quoteChar ++ ['"'])

/-- The quoted texts of a list, between brackets. -/
def quotedList (ss : List String) : String := "[" ++ ", ".intercalate (ss.map quoted) ++ "]"

end ReplicatedTable.Text
