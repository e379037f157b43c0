import CodeMend.Config.Data

/-!
# Dates and times

A moment is a date, a time or both, and if it is both it may say how far the clock is ahead of the
standard time.  No setting is a moment, but a moment is seen as a table that holds its text.
-/

namespace CodeMend.Config.Toml

/-- A day of the calendar. -/
structure Date where
  year : Nat
  month : Nat
  day : Nat

/-- A time of the day. -/
structure Time where
  hour : Nat
  minute : Nat
  second : Nat
  /-- The digits of the fraction of a second. -/
  fraction : List Char

/-- How far the clock is ahead of the standard time. -/
inductive Offset where
  /-- Not at all, by name. -/
  | zulu
  | minutes (n : Int)

/-- A date, a time or both. -/
structure Moment where
  date : Option Date := none
  time : Option Time := none
  offset : Option Offset := none

/-! ## Calendar -/

/-- Has the year a day more? -/
def isLeapYear (year : Nat) : Bool := year % 4 == 0 && (year % 100 != 0 || year % 400 == 0)

/-- The number of days of a month. -/
def daysOf (year month : Nat) : Nat :=
  if month == 2 then if isLeapYear year then 29 else 28
  else if [4, 6, 9, 11].contains month then 30
  else 31

/-! ## Reading -/

/-- A number of exactly `size` digits between two bounds, and what follows. -/
def field? (size low high : Nat) (cs : List Char) : Option (Nat × List Char) := do
  let n ← Data.ofDigits? 10 (cs.take size)
  if (cs.take size).length == size && low ≤ n && n ≤ high then some (n, cs.drop size) else none

/-- What follows a character. -/
def after? (c : Char) : List Char → Option (List Char)
  | d :: cs => if c == d then some cs else none
  | [] => none

/-- A date and what follows it. -/
def date? (cs : List Char) : Option (Date × List Char) := do
  let (year, cs) ← field? 4 0 9999 cs
  let (month, cs) ← field? 2 1 12 (← after? '-' cs)
  let (day, cs) ← field? 2 1 (daysOf year month) (← after? '-' cs)
  some (⟨year, month, day⟩, cs)

/-- A time and what follows it: hours and minutes, and maybe seconds and their fraction. -/
def time? (cs : List Char) : Option (Time × List Char) := do
  let (hour, cs) ← field? 2 0 23 cs
  let (minute, cs) ← field? 2 0 59 (← after? ':' cs)
  match cs with
  | ':' :: cs =>
    match ← field? 2 0 60 cs with
    | (second, '.' :: cs) =>
      let (digits, rest) := cs.span Char.isDigit
      if digits.isEmpty then none else some (⟨hour, minute, second, digits⟩, rest)
    | (second, cs) => some (⟨hour, minute, second, []⟩, cs)
  | cs => some (⟨hour, minute, 0, []⟩, cs)

/-- How far the clock is ahead, if that is all there is. -/
def offset? (cs : List Char) : Option Offset :=
  match cs with
  | [c] => if c == 'Z' || c == 'z' then some .zulu else none
  | c :: cs => do
    let sign : Int ← if c == '+' then some 1 else if c == '-' then some (-1) else none
    let (hours, cs) ← field? 2 0 23 cs
    let (minutes, cs) ← field? 2 0 59 (← after? ':' cs)
    if cs.isEmpty then some (.minutes (sign * (60 * hours + minutes))) else none
  | [] => none

/-- A moment, if that is all there is. -/
def moment? (cs : List Char) : Option Moment :=
  match date? cs with
  | some (date, []) => some { date := some date }
  | some (date, c :: cs) =>
    if c == 'T' || c == 't' || c == ' ' then do
      let (time, cs) ← time? cs
      if cs.isEmpty then some { date := some date, time := some time }
      else some { date := some date, time := some time, offset := some (← offset? cs) }
    else none
  | none =>
    match time? cs with
    | some (time, []) => some { time := some time }
    | _ => none

/-! ## Writing -/

/-- A number with zeros before it, of `size` digits at least. -/
def padded (size n : Nat) : String :=
  let digits := Nat.toDigits 10 n
  String.ofList (List.replicate (size - digits.length) '0' ++ digits)

namespace Moment

/-- The text of a date. -/
def dateText (d : Date) : String :=
  padded 4 d.year ++ "-" ++ padded 2 d.month ++ "-" ++ padded 2 d.day

/-- The text of a time, with seconds and with the billionths of a second that are not zero. -/
def timeText (t : Time) : String :=
  let digits := ((t.fraction.take 9).reverse.dropWhile (· == '0')).reverse
  let fraction := if digits.isEmpty then "" else "." ++ String.ofList digits
  padded 2 t.hour ++ ":" ++ padded 2 t.minute ++ ":" ++ padded 2 t.second ++ fraction

/-- The text of an offset. -/
def offsetText : Offset → String
  | .zulu => "Z"
  | .minutes n =>
    (if n < 0 then "-" else "+") ++ padded 2 (n.natAbs / 60) ++ ":" ++ padded 2 (n.natAbs % 60)

/-- The text of a moment. -/
def text (m : Moment) : String :=
  let joint := if m.date.isSome && m.time.isSome then "T" else ""
  (m.date.map dateText).getD "" ++ joint ++ (m.time.map timeText).getD ""
    ++ (m.offset.map offsetText).getD ""

/-- The key under which the text of a moment is seen. -/
def key : String := "$__toml_private_datetime"

/-- A moment as a value. -/
def data (m : Moment) : Data := .table [(key, .text m.text)]

end Moment

end CodeMend.Config.Toml
