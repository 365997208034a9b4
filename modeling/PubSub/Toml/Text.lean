import PubSub.Toml.Reader
/-!
# TOML strings

A string stands between two marks on one line, or between two triple marks on any number of lines.
Double quotes allow escapes, single quotes take every character as it is.
-/

namespace PubSub.Toml

def doubleQuote : Char := '"'

def singleQuote : Char := '\x27'

/-! ## Escapes -/

/-- What a hexadecimal digit counts, the letters in either case. -/
def hexDigit? (c : Char) : Option Nat :=
  if '0' ≤ c ∧ c ≤ '9' then some (c.toNat - 48)
  else if 'a' ≤ c ∧ c ≤ 'f' then some (c.toNat - 87)
  else if 'A' ≤ c ∧ c ≤ 'F' then some (c.toNat - 55)
  else none

/-- The number of digits to a base. -/
def numeral (base : Nat) (ds : List Char) : Nat := ds.foldl (fun n c => n * base + (hexDigit? c).getD 0) 0

/-- The character with this number, if there is one. -/
def character? (n : Nat) : Option Char := if n.isValidChar then some (Char.ofNat n) else none

/-- A character given by a number of hexadecimal digits. -/
def codePoint (size : Nat) : Reader Char := fun cs =>
  let ds := cs.take size
  if ds.length = size ∧ ds.all (fun c => (hexDigit? c).isSome) then
    (character? (numeral 16 ds)).map fun c => (c, cs.drop size)
  else none

/-- The character that a one-letter escape stands for. -/
def simpleEscape? (c : Char) : Option Char :=
  match c with
  | 'b' => some '\x08'
  | 't' => some '\t'
  | 'n' => some '\n'
  | 'f' => some '\x0c'
  | 'r' => some '\r'
  | '"' => some '"'
  | '\\' => some '\\'
  | _ => none

/-- An escape after its backslash. -/
def escape : Reader Char := do
  match ← peek with
  | some 'u' => discard; codePoint 4
  | some 'U' => discard; codePoint 8
  | some c => discard; simpleEscape? c
  | none => failure

/-! ## Content -/

/-- A piece of a string's content that is no mark: a plain character or an escape. -/
def piece (mark : Char) (c : Char) : Reader (List Char) := do
  discard
  if c = '\\' ∧ mark = doubleQuote then return [← escape]
  guard (isPlain c)
  return [c]

/-- A string on one line, after its opening mark. -/
def shortContent (mark : Char) : Reader (List Char) := do
  let pieces ← all do
    match ← peek with
    | none => failure
    | some c => if c = mark then return none else return some (← piece mark c)
  discard
  return pieces.flatten

/-- Passes over blanks and line ends. -/
def dropLines : List Char → List Char
  | [] => []
  | '\r' :: '\n' :: rest => dropLines rest
  | c :: rest => if isBlank c ∨ c = '\n' then dropLines rest else c :: rest

/-- A backslash at the end of a line joins the next line to it that is not blank. -/
def joint : Reader Unit := do
  discard
  blanks
  guard (← lineEnd)
  fun cs => some ((), dropLines cs)

/-- Whether a backslash comes next that stands at the end of a line. -/
def jointNext : Reader Bool := fun cs =>
  match cs with
  | '\\' :: c :: _ => some (isBlank c ∨ c = '\n' ∨ c = '\r', cs)
  | _ => some (false, cs)

/-- A piece of a string on many lines: one or two marks, a line end, or what a line may hold. Three
marks or more, or the end of the text, are no piece. -/
def longPiece (mark : Char) : Reader (Option (List Char)) := do
  match ← peek with
  | none => return none
  | some c =>
    if c = mark then fun cs =>
      let marks := cs.takeWhile (· = mark)
      if marks.length < 3 then some (some marks, cs.drop marks.length) else some (none, cs)
    else if ← lineEnd then return some ['\n']
    else if mark = doubleQuote ∧ (← jointNext) then joint; return some []
    else return some (← piece mark c)

/-- A string on many lines, after its three opening marks. A line end right after them does not
count, and up to two marks may stand before the three that close it. -/
def longContent (mark : Char) : Reader (List Char) := do
  let _ ← lineEnd
  let pieces ← all (longPiece mark)
  let marks ← run (· = mark)
  guard (3 ≤ marks.length ∧ marks.length ≤ 5)
  return pieces.flatten ++ marks.drop 3

/-- A string that starts with this mark. -/
def text (mark : Char) : Reader String := fun cs =>
  match cs with
  | a :: b :: c :: rest =>
    if a = mark ∧ b = mark ∧ c = mark then (String.ofList <$> longContent mark : Reader String) rest
    else (expect [mark] *> String.ofList <$> shortContent mark : Reader String) cs
  | _ => (expect [mark] *> String.ofList <$> shortContent mark : Reader String) cs

end PubSub.Toml
