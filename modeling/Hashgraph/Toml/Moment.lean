import Hashgraph.Toml.Digits

/-! Dates, times of day, and both together with or without an offset. -/

namespace Hashgraph.Toml

open Scanner

structure Date where
  year : Nat
  month : Nat
  day : Nat
deriving DecidableEq, Repr

structure TimeOfDay where
  hour : Nat
  minute : Nat
  second : Nat
  nanosecond : Nat := 0
deriving DecidableEq, Repr

inductive Moment where
  | date (date : Date)
  | time (time : TimeOfDay)
  /-- The offset is in minutes; a moment without one is local. -/
  | dateTime (date : Date) (time : TimeOfDay) (offset : Option Int)
deriving DecidableEq, Repr

def isLeapYear (year : Nat) : Bool := year % 4 = 0 && (year % 100 ≠ 0 || year % 400 = 0)

def daysInMonth (year month : Nat) : Nat :=
  if month = 2 then if isLeapYear year then 29 else 28
  else if month = 4 ∨ month = 6 ∨ month = 9 ∨ month = 11 then 30
  else 31

def date : Scanner Date := do
  let year ← fixedWidth 4 0 9999
  char '-'
  let month ← fixedWidth 2 1 12
  char '-'
  let day ← fixedWidth 2 1 (daysInMonth year month)
  return ⟨year, month, day⟩

/-- The digits of a fraction of a second; what is finer than a nanosecond is dropped. -/
def nanoseconds : Scanner Nat := do
  let digits ← char '.' *> run Char.isDigit
  if digits.isEmpty then failure
  let kept := digits.take 9
  return ofDigits 10 kept * Nat.pow 10 (9 - kept.length)

/-- A time of day, which may lie in a leap second. -/
def timeOfDay : Scanner TimeOfDay := do
  let hour ← fixedWidth 2 0 23
  char ':'
  let minute ← fixedWidth 2 0 59
  char ':'
  let second ← fixedWidth 2 0 60
  return ⟨hour, minute, second, (← option nanoseconds).getD 0⟩

def offset : Scanner Int :=
  (do discard (satisfy fun c => c = 'Z' || c = 'z'); return 0) <|> do
    let mark ← satisfy fun c => c = '+' || c = '-'
    let hours ← fixedWidth 2 0 23
    char ':'
    let minutes ← fixedWidth 2 0 59
    let total : Int := hours * 60 + minutes
    return if mark = '-' then -total else total

def timeAfterDate : Scanner (TimeOfDay × Option Int) := do
  discard (satisfy fun c => c = 'T' || c = 't' || c = ' ')
  return (← timeOfDay, ← option offset)

def moment : Scanner Moment :=
  (do
    let date ← date
    match ← option timeAfterDate with
    | none => return .date date
    | some (time, offset) => return .dateTime date time offset) <|>
  (do return .time (← timeOfDay))

end Hashgraph.Toml
