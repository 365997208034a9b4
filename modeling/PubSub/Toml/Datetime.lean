import PubSub.Toml.Reader
/-!
# TOML dates and times

A day of the calendar, a time of day, or both with the offset from universal time if it is known.
They are written in one form: a `T` between date and time, no more digits after the second than count.
-/

namespace PubSub.Toml

structure Date where
  year : Nat
  month : Nat
  day : Nat
  deriving DecidableEq, Repr

/-- A time of day; `fraction` holds the digits after the second, nine at most and no zero last. -/
structure TimeOfDay where
  hour : Nat
  minute : Nat
  second : Nat
  fraction : List Char
  deriving DecidableEq, Repr

/-- How far a clock is from universal time. -/
inductive Offset where
  | none
  | universal
  | minutes (n : Int)
  deriving DecidableEq, Repr

inductive Datetime where
  | date (d : Date)
  | time (t : TimeOfDay)
  | dateTime (d : Date) (t : TimeOfDay) (offset : Offset)
  deriving DecidableEq, Repr

/-! ## Writing -/

/-- A number with zeros in front up to a width. -/
def padded (width n : Nat) : String :=
  let ds := Nat.toDigits 10 n
  String.ofList (List.replicate (width - ds.length) '0' ++ ds)

def Date.text (d : Date) : String := padded 4 d.year ++ "-" ++ padded 2 d.month ++ "-" ++ padded 2 d.day

def TimeOfDay.text (t : TimeOfDay) : String :=
  padded 2 t.hour ++ ":" ++ padded 2 t.minute ++ ":" ++ padded 2 t.second
    ++ (if t.fraction = [] then "" else "." ++ String.ofList t.fraction)

def Offset.text : Offset → String
  | none => ""
  | universal => "Z"
  | minutes n =>
    (if n < 0 then "-" else "+") ++ padded 2 (n.natAbs / 60) ++ ":" ++ padded 2 (n.natAbs % 60)

def Datetime.text : Datetime → String
  | date d => d.text
  | time t => t.text
  | dateTime d t offset => d.text ++ "T" ++ t.text ++ offset.text

/-! ## Reading -/

/-- A number of exactly `size` digits that lies between two bounds. -/
def bounded (size low high : Nat) : Reader Nat := fun cs =>
  let ds := cs.take size
  let n := digitsValue ds
  if ds.length = size ∧ ds.all isDigit ∧ low ≤ n ∧ n ≤ high then some (n, cs.drop size) else none

def isLeapYear (year : Nat) : Bool := year % 4 = 0 ∧ (year % 100 ≠ 0 ∨ year % 400 = 0)

def daysInMonth (year month : Nat) : Nat :=
  if month = 2 then if isLeapYear year then 29 else 28
  else if month ∈ [4, 6, 9, 11] then 30
  else 31

def date : Reader Date := do
  let year ← bounded 4 0 9999
  expect ['-']
  let month ← bounded 2 1 12
  expect ['-']
  let day ← bounded 2 1 (daysInMonth year month)
  return { year, month, day }

/-- Digits after the point: those beyond the ninth do not count, nor zeros at the end. -/
def significant (ds : List Char) : List Char := ((ds.take 9).reverse.dropWhile (· = '0')).reverse

/-- A time of day; a minute may have a leap second. -/
def timeOfDay : Reader TimeOfDay := do
  let hour ← bounded 2 0 23
  expect [':']
  let minute ← bounded 2 0 59
  expect [':']
  let second ← bounded 2 0 60
  if ← passed '.' then
    let ds ← run isDigit
    guard (ds ≠ [])
    return { hour, minute, second, fraction := significant ds }
  else return { hour, minute, second, fraction := [] }

def offset : Reader Offset := do
  let mark ← peek
  if mark = some 'Z' ∨ mark = some 'z' then discard; return .universal
  else if mark = some '+' ∨ mark = some '-' then
    discard
    let hours ← bounded 2 0 23
    expect [':']
    let n := hours * 60 + (← bounded 2 0 59)
    return .minutes (if mark = some '-' then -Int.ofNat n else Int.ofNat n)
  else return .none

/-- Whether a date comes next. -/
def dateNext (cs : List Char) : Bool :=
  match cs with
  | a :: b :: c :: d :: '-' :: _ => [a, b, c, d].all isDigit
  | _ => false

/-- Whether a time of day comes next. -/
def timeNext (cs : List Char) : Bool :=
  match cs with
  | a :: b :: ':' :: _ => isDigit a ∧ isDigit b
  | _ => false

/-- The time after a date, if the mark between them and a time follow. -/
def timeAfterDate (d : Date) : Reader Datetime := fun cs =>
  match cs with
  | mark :: rest =>
    if (mark = 'T' ∨ mark = 't' ∨ mark = ' ') ∧ timeNext rest then
      (do let t ← timeOfDay; return .dateTime d t (← offset) : Reader Datetime) rest
    else some (.date d, cs)
  | [] => some (.date d, cs)

/-- A time of day, or a date with or without one. -/
def datetime : Reader Datetime := fun cs =>
  if timeNext cs then (.time <$> timeOfDay : Reader Datetime) cs
  else (do timeAfterDate (← date) : Reader Datetime) cs

/-- The date and time that a whole text is. -/
def Datetime.ofText? (s : String) : Option Datetime :=
  match datetime s.toList with
  | some (d, []) => some d
  | _ => none

end PubSub.Toml
