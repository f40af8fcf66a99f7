import BinaryAtlas.Text.Blank
import BinaryAtlas.Timestamp

/-!
Reading points in time. The strict form has as many digits as are written, the relaxed one may have
fewer, a year with a sign, and blanks between the parts. Every reader takes the characters that are
left and gives back those it did not use.
-/

set_option autoImplicit false

namespace BinaryAtlas

namespace Timestamp

def digitValue (c : Char) : Nat := c.toNat - 48

/-- The number that the digits at the front make, of which there must be `least`; it ends before
the first that comes after `most` of them. -/
def readNumber (least most : Nat) (cs : List Char) : Option (Nat × List Char) :=
  let digits := (cs.take most).takeWhile Char.isDigit
  if digits.length < least then none
  else some (digits.foldl (fun n c => 10 * n + digitValue c) 0, cs.drop digits.length)

def readOneOf (allowed : List Char) : List Char → Option (List Char)
  | c :: cs => if allowed.contains c then some cs else none
  | [] => none

def readFraction : List Char → Option (Nat × List Char)
  -- A fraction of a second as nanoseconds, if there is one; digits beyond the ninth do not count.
  | '.' :: cs =>
    let digits := cs.takeWhile Char.isDigit
    if digits.isEmpty then none
    else
      (readNumber 9 9 (digits ++ List.replicate 9 '0')).map fun n =>
        (n.1, cs.dropWhile Char.isDigit)
  | cs => some (0, cs)

/-- How closely a text has to keep to the form. -/
inductive Form where
  | strict
  | relaxed
  deriving DecidableEq

namespace Form

def skip : Form → List Char → List Char
  | strict, cs => cs
  | relaxed, cs => trimLeft cs

/-- A year: four digits, or in the relaxed form fewer, or any number of them behind a sign. -/
def readYear : Form → List Char → Option (Int × List Char)
  | strict, cs => (readNumber 4 4 cs).map fun (n, r) => ((n : Int), r)
  | relaxed, cs =>
    match trimLeft cs with
    | '-' :: rest => (readNumber 1 rest.length rest).map fun (n, r) => (-(n : Int), r)
    | '+' :: rest => (readNumber 1 rest.length rest).map fun (n, r) => ((n : Int), r)
    | rest => (readNumber 1 4 rest).map fun (n, r) => ((n : Int), r)

def readPart (form : Form) (cs : List Char) : Option (Nat × List Char) :=
  readNumber (if form = strict then 2 else 1) 2 (form.skip cs)

def readNext (form : Form) (mark : Char) (cs : List Char) : Option (Nat × List Char) := do
  form.readPart (← readOneOf [mark] (form.skip cs))

def skipColon : Form → List Char → Option (List Char)
  | strict, cs => readOneOf [':'] cs
  | relaxed, cs => some (cs.dropWhile fun c => c = ':' || isBlank c)

def readOffset (form : Form) (sign : Int) (cs : List Char) : Option (Int × List Char) := do
  let (hours, cs) ← readNumber 2 2 cs
  let (minutes, cs) ← readNumber 2 2 (← form.skipColon cs)
  if 23 < hours || 59 < minutes then none
  else pure (sign * (hours * 3600 + minutes * 60), cs)

def readZone (form : Form) (cs : List Char) : Option (Int × List Char) :=
  match cs with
  | 'Z' :: rest | 'z' :: rest => some (0, rest)
  | '+' :: rest => form.readOffset 1 rest
  | '-' :: rest | '−' :: rest => form.readOffset (-1) rest
  | _ =>
    if form = relaxed ∧ (cs.take 3).map Char.toUpper = ['U', 'T', 'C'] then some (0, cs.drop 3)
    else none

end Form

def isLeap (year : Int) : Bool := year % 4 == 0 && (year % 100 != 0 || year % 400 == 0)

def daysInMonth (year : Int) (month : Nat) : Nat :=
  if month = 2 then (if isLeap year then 29 else 28)
  else if month = 4 ∨ month = 6 ∨ month = 9 ∨ month = 11 then 30 else 31

def isDate (year : Int) (month day : Nat) : Bool :=
  1 ≤ month && month ≤ 12 && 1 ≤ day && day ≤ daysInMonth year month

def isYear (year : Int) : Bool := -262143 ≤ year && year ≤ 262142

def parse? (form : Form) (text : String) : Option Timestamp := do
  let (year, cs) ← form.readYear text.toList
  let (month, cs) ← form.readNext '-' cs
  let (day, cs) ← form.readNext '-' cs
  let (hour, cs) ← form.readPart (← readOneOf ['T', 't', ' '] cs)
  let (minute, cs) ← form.readNext ':' cs
  let (second, cs) ← form.readNext ':' cs
  let (fraction, cs) ← readFraction cs
  let (ahead, cs) ← form.readZone (form.skip cs)
  if form.skip cs != [] || !isYear year || !isDate year month day || 23 < hour || 59 < minute ||
      60 < second then none
  else
    let ofDay : Int := hour * 3600 + minute * 60 + min second 59
    let seconds := daysOfDate year month day * 86400 + ofDay - ahead
    if isYear (dateOfDays (seconds / 86400)).1 then
      pure ⟨seconds, fraction + if second = 60 then 1000000000 else 0⟩
    else none

end Timestamp

end BinaryAtlas
