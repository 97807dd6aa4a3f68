import AtomicCss.Text.Scanner

/-!
# Dates and times

A date, a time of day, or both with or without an offset from universal time. A
date and time is kept as its normal text.

- `DateTime.read`: the normal text of a date or time.
- `DateTime.fraction`: at most nine digits of a second, without zeros at the end.
-/

namespace AtomicCss.Toml.DateTime

open AtomicCss.Text

/-- The natural number of decimal digits. -/
def number (ds : List Char) : Nat := ds.foldl (fun n d => n * 10 + (d.toNat - '0'.toNat)) 0

/-- A number of a fixed width between two bounds, with its digits. -/
def field (width least most : Nat) : Scanner (List Char) := do
  let mut ds := []
  for _ in List.range width do
    ds := ds ++ [← Scanner.expectIf Char.isDigit]
  if number ds < least || most < number ds then Scanner.fail
  return ds

/-- Has the year a leap day? -/
def isLeap (year : Nat) : Bool := year % 4 == 0 && (year % 100 != 0 || year % 400 == 0)

/-- The number of days of a month. -/
def daysOf (year month : Nat) : Nat :=
  if month = 2 then (if isLeap year then 29 else 28)
  else if month = 4 ∨ month = 6 ∨ month = 9 ∨ month = 11 then 30
  else 31

/-- A date. -/
def date : Scanner (List Char) := do
  let year ← field 4 0 9999
  Scanner.expect ['-']
  let month ← field 2 1 12
  Scanner.expect ['-']
  let day ← field 2 1 (daysOf (number year) (number month))
  return year ++ '-' :: month ++ '-' :: day

/-- The digits of a fraction of a second that are kept. -/
def fraction (ds : List Char) : List Char :=
  (((ds.take 9).reverse).dropWhile (· == '0')).reverse

/-- A time of day. -/
def time : Scanner (List Char) := do
  let hour ← field 2 0 23
  Scanner.expect [':']
  let minute ← field 2 0 59
  Scanner.expect [':']
  let second ← field 2 0 60
  let whole := hour ++ ':' :: minute ++ ':' :: second
  if ← Scanner.accept ['.'] then
    let ds := fraction (← Scanner.takeWhile1 Char.isDigit)
    return if ds.isEmpty then whole else whole ++ '.' :: ds
  return whole

/-- An offset in hours and minutes, its sign next. An offset of nothing is written
with a plus sign. -/
def signedOffset : Scanner (List Char) := do
  let sign ← Scanner.next
  let hour ← field 2 0 23
  Scanner.expect [':']
  let minute ← field 2 0 59
  let sign := if number hour = 0 && number minute = 0 then '+' else sign
  return sign :: hour ++ ':' :: minute

/-- An offset, which may be absent. -/
def offset : Scanner (List Char) := do
  match ← Scanner.peek? with
  | some 'Z' | some 'z' =>
    let _ ← Scanner.next
    return ['Z']
  | some '+' | some '-' => signedOffset
  | _ => return []

/-- A date, or a date with a time, or a time. -/
def dateOrTime : Scanner (List Char) := do
  match ← Scanner.opt date with
  | none => time
  | some d =>
    match ← Scanner.peek? with
    | some 'T' | some 't' | some ' ' =>
      let _ ← Scanner.next
      let t ← time
      return d ++ 'T' :: t ++ (← offset)
    | _ => return d

/-- The normal text of a date or time, if the text is one. -/
def read (cs : List Char) : Option String :=
  match dateOrTime.run cs with
  | .ok t => some (String.ofList t)
  | .error _ => none

end AtomicCss.Toml.DateTime
