import HookRelay.Toml.Scanner
/-!
Dates and times. They have to name a day of the calendar and a time of the day;
beyond that they are not kept.
-/

namespace HookRelay.Toml

open Scanner

/-- A number of exactly `width` digits within bounds. -/
def bounded (width lo hi : Nat) : Scanner Nat := do
  let n := numberOf 10 (← exactly isDigit width)
  check (lo ≤ n && n ≤ hi)
  return n

def isLeapYear (year : Nat) : Bool :=
  year % 4 = 0 && (year % 100 ≠ 0 || year % 400 = 0)

/-- How many days a month has. -/
def daysIn (year month : Nat) : Nat :=
  if month = 2 then if isLeapYear year then 29 else 28
  else if month = 4 || month = 6 || month = 9 || month = 11 then 30
  else 31

/-- A date. -/
def date : Scanner Unit := do
  let year ← bounded 4 0 9999
  char '-'
  let month ← bounded 2 1 12
  char '-'
  let _ ← bounded 2 1 (daysIn year month)

/-- A time of day. A minute may have a sixty-first second. -/
def timeOfDay : Scanner Unit := do
  let _ ← bounded 2 0 23
  char ':'
  let _ ← bounded 2 0 59
  char ':'
  let _ ← bounded 2 0 60
  let _ ← maybe do
    char '.'
    run1 isDigit

/-- How far a time lies from universal time. -/
def offset : Scanner Unit :=
  (do let _ ← one fun c => c == 'Z' || c == 'z') <|> do
    let _ ← one fun c => c == '+' || c == '-'
    let _ ← bounded 2 0 23
    char ':'
    let _ ← bounded 2 0 59

/-- A date, a time, or both. -/
def moment : Scanner Unit :=
  (do
    date
    let _ ← maybe do
      let _ ← one fun c => c == 'T' || c == 't' || c == ' '
      timeOfDay
      maybe offset) <|> timeOfDay

end HookRelay.Toml
