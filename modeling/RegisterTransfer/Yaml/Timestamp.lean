set_option autoImplicit false

/-!
# Timestamps

A scalar is a timestamp if it is a date `year-month-day`, or a date with a time of day.  The time
follows a `T` or `t` and ends with a zone, or follows blanks and has none.  The year has four digits;
the other numbers have one digit or two.  The day exists in its month.
-/

namespace RegisterTransfer.Yaml.Timestamp

/-- The value of a digit. -/
def digit? (c : Char) : Option Nat := if c.isDigit then some (c.toNat - '0'.toNat) else none

/-- A number of one or two digits at the front of the text. -/
def number? : List Char → Option (Nat × List Char)
  | [] => none
  | a :: rest => do
    let x ← digit? a
    match rest with
    | b :: rest' =>
      match digit? b with
      | some y => some (10 * x + y, rest')
      | none => some (x, rest)
    | [] => some (x, rest)

/-- The text after a given character. -/
def after? (c : Char) : List Char → Option (List Char)
  | d :: rest => if d = c then some rest else none
  | [] => none

/-- Whether a year has a 29th of February. -/
def isLeap (year : Nat) : Bool := year % 4 = 0 && (year % 100 ≠ 0 || year % 400 = 0)

/-- The number of days of a month. -/
def days (year month : Nat) : Nat :=
  if month = 2 then (if isLeap year then 29 else 28)
  else if month = 4 ∨ month = 6 ∨ month = 9 ∨ month = 11 then 30
  else 31

/-- The text after a date. -/
def afterDate? (text : List Char) : Option (List Char) := do
  let digits := text.takeWhile Char.isDigit
  guard (digits.length = 4)
  let year := digits.foldl (fun n c => 10 * n + (c.toNat - '0'.toNat)) 0
  let (month, rest) ← number? (← after? '-' (text.drop 4))
  let (day, rest) ← number? (← after? '-' rest)
  guard (1 ≤ month ∧ month ≤ 12 ∧ 1 ≤ day ∧ day ≤ days year month)
  return rest

/-- The text after a time of day, with or without a fraction of the second. -/
def afterTime? (text : List Char) : Option (List Char) := do
  let (hour, rest) ← number? text
  let (minute, rest) ← number? (← after? ':' rest)
  let (second, rest) ← number? (← after? ':' rest)
  guard (hour < 24 ∧ minute < 60 ∧ second < 60)
  match rest with
  | p :: d :: rest' =>
    if (p = '.' ∨ p = ',') ∧ d.isDigit then return rest'.dropWhile Char.isDigit else return rest
  | _ => return rest

/-- Whether a text is a time zone: `Z`, or a sign, two digits, a colon and two digits. -/
def isZone : List Char → Bool
  | ['Z'] => true
  | [s, a, b, ':', c, d] =>
    (s = '+' || s = '-') && [a, b, c, d].all Char.isDigit
      && 10 * (a.toNat - 48) + (b.toNat - 48) ≤ 24 && 10 * (c.toNat - 48) + (d.toNat - 48) < 60
  | _ => false

/-- Whether a text is a timestamp. -/
def holds (text : List Char) : Bool :=
  match afterDate? text with
  | none => false
  | some [] => true
  | some (c :: rest) =>
    if c = 'T' ∨ c = 't' then
      ((afterTime? rest).map isZone).getD false
    else
      c = ' ' && ((afterTime? (rest.dropWhile (· = ' '))).map List.isEmpty).getD false

end RegisterTransfer.Yaml.Timestamp
