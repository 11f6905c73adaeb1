import AssignmentSearch.Datum.Convert
import AssignmentSearch.Markup.Cursor

/-!
# Dates and times

A date has the form year-month-day; a time of day with an optional offset may follow. Only their
validity matters: no rule looks into a date.
-/

namespace AssignmentSearch

namespace Markup

/-- A time of day with millionths of a second, and its offset from universal time in seconds. -/
structure DayTime where
  hour : Nat
  minute : Nat
  second : Nat
  micros : Nat
  offset : Option Int
  deriving DecidableEq, Repr

structure Stamp where
  year : Nat
  month : Nat
  day : Nat
  time : Option DayTime
  deriving DecidableEq, Repr

namespace Stamp

def numberOf (cs : List Char) : Nat := cs.foldl (fun n c => 10 * n + (c.toNat - 48)) 0

/-- The millionths that the digits of a fraction write; further digits do not count. -/
def microsOf (cs : List Char) : Nat := numberOf ((cs ++ List.replicate 6 '0').take 6)

/-- Reads a run of at least `least` and at most `most` digits. -/
def digits? (least most : Nat) (cs : List Char) : Option (Nat × List Char) :=
  let run := (cs.take most).takeWhile Char.isDigit
  if least ≤ run.length then some (numberOf run, cs.drop run.length) else none

def mark? (c : Char) : List Char → Option (List Char)
  | d :: rest => if c = d then some rest else none
  | [] => none

def offset? (cs : List Char) : Option (Option Int) :=
  match cs.dropWhile fun c => c = ' ' || c = '\t' with
  | [] => if cs.isEmpty then some none else none
  | ['Z'] => some (some 0)
  | sign :: rest => do
    guard (sign = '+' || sign = '-')
    let (hours, rest) ← digits? 1 2 rest
    let minutes ← match rest with
      | [] => some 0
      | ':' :: rest => do
        let (minutes, rest) ← digits? 2 2 rest
        guard rest.isEmpty
        some minutes
      | _ => none
    let seconds : Int := 3600 * hours + 60 * minutes
    some (some (if sign = '-' then -seconds else seconds))

/-- Reads the time after a date: a letter T or blanks, hour, minute, second, and a fraction. -/
def time? (cs : List Char) : Option DayTime := do
  let rest := match cs with
    | 'T' :: rest | 't' :: rest => rest
    | _ => cs.dropWhile fun c => c = ' ' || c = '\t'
  guard (rest.length < cs.length)
  let (hour, rest) ← digits? 1 2 rest
  let (minute, rest) ← digits? 2 2 (← mark? ':' rest)
  let (second, rest) ← digits? 2 2 (← mark? ':' rest)
  let (micros, rest) := match rest with
    | '.' :: fraction =>
      (microsOf (fraction.takeWhile Char.isDigit), fraction.dropWhile Char.isDigit)
    | _ => (0, rest)
  return ⟨hour, minute, second, micros, ← offset? rest⟩

def withoutBreak (cs : List Char) : List Char :=
  if cs.getLast? = some '\n' then cs.dropLast else cs

/-- Reads a date that nothing follows. -/
def ofChars? (cs : List Char) : Option Stamp := do
  let (year, rest) ← digits? 4 4 cs
  let (month, rest) ← digits? 1 2 (← mark? '-' rest)
  let (day, rest) ← digits? 1 2 (← mark? '-' rest)
  match rest with
  | [] => return ⟨year, month, day, none⟩
  | _ => return ⟨year, month, day, some (← time? rest)⟩

/-- Whether a plain text is taken for a date; one without a time has two digits for month and
day. -/
def isPlain (s : String) : Bool :=
  match ofChars? s.toList with
  | some t => t.time.isSome || s.length = 10
  | none => false

def isLeap (year : Nat) : Bool := year % 4 = 0 && (year % 100 ≠ 0 || year % 400 = 0)

def daysIn (year month : Nat) : Nat :=
  if month = 2 then if isLeap year then 29 else 28
  else if [4, 6, 9, 11].contains month then 30 else 31

def outOfRange? (t : Stamp) : Option CalendarPart :=
  match t.time with
  | some ⟨_, _, _, _, some offset⟩ =>
    if 86400 ≤ offset.natAbs then some (.offset offset) else rest t
  | _ => rest t
where
  /-- Date first, then time of day. -/
  rest (t : Stamp) : Option CalendarPart :=
    if t.year = 0 then some (.year 0)
    else if t.month = 0 ∨ 12 < t.month then some .month
    else if t.day = 0 ∨ daysIn t.year t.month < t.day then some .day
    else match t.time with
      | none => none
      | some time =>
        if 23 < time.hour then some .hour
        else if 59 < time.minute then some .minute
        else if 59 < time.second then some .second
        else none

/-- The number of days before a year, as if the calendar had always been the present one. -/
def daysBefore (year : Nat) : Nat :=
  let y := year - 1
  365 * y + y / 4 - y / 100 + y / 400

/-- The number of days up to and with a date. -/
def ordinal (t : Stamp) : Nat :=
  let months := List.range (t.month - 1)
  months.foldl (fun days m => days + daysIn t.year (m + 1)) (daysBefore t.year) + t.day

/-- What equal dates share: a date is its day, a time without an offset its place in that calendar,
and a time with one its instant. -/
def token (t : Stamp) : String :=
  match t.time with
  | none => "day " ++ toString t.ordinal
  | some time =>
    let seconds : Int := 86400 * t.ordinal + 3600 * time.hour + 60 * time.minute + time.second
    match time.offset with
    | none => "local " ++ toString (1000000 * seconds + time.micros)
    | some offset => "instant " ++ toString (1000000 * (seconds - offset) + time.micros)

def value (t : Stamp) : Except Trouble Datum :=
  match t.outOfRange? with
  | some part => .error (.fault (.calendar part))
  | none =>
    .ok (.other (if t.time.isSome then "datetime.datetime" else "datetime.date") t.token)

/-- The value of a text, which a line break may end; one that is no date is a fault. -/
def ofText (s : String) : Except Trouble Datum :=
  match ofChars? (withoutBreak s.toList) with
  | some t => t.value
  | none => .error (.fault .noDate)

end Stamp

end Markup

end AssignmentSearch
