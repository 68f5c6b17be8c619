import Numeral.Decimal.Digits
import Numeral.Toml.Scanner
import Numeral.Toml.Value

/-!
# TOML dates and times

A date, a time of the day, or a date with a time and possibly the offset of the time from universal
time.  Dates are checked against the calendar.

A table may stand for a date or time too: one whose first key is the reserved one.  Its value has to
be a text that is a date or time from its first character to its last, and the entries after it do
not count.
-/

namespace Numeral.Toml

open Scanner

/-- Reads a number of a given count of digits, from `min` to `max`. -/
def field (digits min max : Nat) : Scanner Nat := do
  let n := Decimal.readDigits (← count digits Char.isDigit)
  require (min ≤ n && n ≤ max)
  return n

def isLeapYear (year : Nat) : Bool := year % 4 == 0 && (year % 100 != 0 || year % 400 == 0)

def daysIn (year month : Nat) : Nat :=
  if month == 2 then if isLeapYear year then 29 else 28
  else if month == 4 || month == 6 || month == 9 || month == 11 then 30
  else 31

def date : Scanner Unit := do
  let year ← field 4 0 9999
  char '-'
  let month ← field 2 1 12
  char '-'
  let _ ← field 2 1 (daysIn year month)

/-- Reads a time of the day.  A minute may have a leap second. -/
def time : Scanner Unit := do
  let _ ← field 2 0 23
  char ':'
  let _ ← field 2 0 59
  char ':'
  let _ ← field 2 0 60
  let _ ← optional (char '.' *> takeWhile1 Char.isDigit)

/-- Reads the offset of a time from universal time: a sign, hours and minutes, or the letter for
none. -/
def offset : Scanner Unit :=
  (do let _ ← satisfy fun c => c == 'Z' || c == 'z') <|> do
    let _ ← satisfy fun c => c == '+' || c == '-'
    let _ ← field 2 0 23
    char ':'
    let _ ← field 2 0 59

/-- Reads a date, a date with a time and possibly an offset, or a time. -/
def moment : Scanner Unit :=
  (do
    date
    let _ ← optional do
      let _ ← satisfy fun c => c == 'T' || c == 't' || c == ' '
      time
      optional offset) <|> time

/-- Reads a date or time and gives its spelling. -/
def datetime : Scanner String := do
  return String.ofList (← spelling moment)

/-! ## Tables that stand for dates and times -/

/-- Whether the whole of a text is a date or time. -/
def isMoment (s : String) : Bool :=
  ((moment *> atEnd).run s.toList).isSome

/-- The key that makes a table stand for a date or time. -/
def reservedKey : String := "$__toml_private_datetime"

/-- The value under the reserved key, if that is the first key of a table. -/
def Table.reserved? : Table → Option Value
  | (k, v) :: _ => if k = reservedKey then some v else none
  | [] => none

mutual

/-- The value with dates and times for the tables in it that stand for them.  A reserved key without
the text of a date or time is an error. -/
def Value.settle? : Value → Option Value
  | .array items => (settleItems? items).map .array
  | .table entries =>
    match Table.reserved? entries with
    | some v => (v.asString?.filter isMoment).map .datetime
    | none => (settleEntries? entries).map .table
  | v => some v

def settleItems? : List Value → Option (List Value)
  | [] => some []
  | v :: vs => do return (← v.settle?) :: (← settleItems? vs)

def settleEntries? : List (String × Value) → Option (List (String × Value))
  | [] => some []
  | (k, v) :: es => do return (k, ← v.settle?) :: (← settleEntries? es)

end

end Numeral.Toml
