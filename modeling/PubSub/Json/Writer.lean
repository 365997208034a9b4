/-!
# Writing JSON

Values are written without spaces. In strings the quote, the backslash and the control characters
are escaped, and all other characters stand for themselves.
-/

namespace PubSub.Json.Writer

/-- A hexadecimal digit, in lower case. -/
def hexDigit (n : Nat) : Char := Char.ofNat (if n < 10 then 48 + n else 87 + n)

def escape (c : Char) : List Char :=
  if c = '"' then ['\\', '"']
  else if c = '\\' then ['\\', '\\']
  else if c = '\x08' then ['\\', 'b']
  else if c = '\x0c' then ['\\', 'f']
  else if c = '\n' then ['\\', 'n']
  else if c = '\r' then ['\\', 'r']
  else if c = '\t' then ['\\', 't']
  else if c.toNat < 32 then ['\\', 'u', '0', '0', hexDigit (c.toNat / 16), hexDigit (c.toNat % 16)]
  else [c]

def text (s : String) : String := "\"" ++ String.ofList (s.toList.flatMap escape) ++ "\""

/-- Written values with commas between them. -/
def list (xs : List String) : String := String.intercalate "," xs

def array (xs : List String) : String := "[" ++ list xs ++ "]"

/-- A member of an object from its name and its written value. -/
def member (name value : String) : String := text name ++ ":" ++ value

def object (members : List String) : String := "\x7b" ++ list members ++ "\x7d"

end PubSub.Json.Writer
