import Cypher.Temporal.Basic
import Cypher.Text.Basic

/-!
# Reading dates and times

Dates and times are read field by field. Blank characters may stand before every number, before the
separators and at the end, but not around the point of a fraction. A year without a sign has at most
four digits, every other number at most two; second 60 is a leap second.
-/

namespace Cypher.Temporal

-- powers are those of the core library, whatever algebra is in scope
attribute [local instance (high)] instPowNat

/-- A reader consumes the front of a text and gives what it read and what is left. -/
abbrev Reader (α : Type) := List Char → Option (α × List Char)

/-- At least one digit and at most `most` of them. -/
def digitsUpTo (most : Nat) : Reader Nat := fun cs =>
  let ds := (cs.take most).takeWhile Char.isDigit
  if ds.isEmpty then none else some (Decimal.valueOf ds, cs.drop ds.length)

/-- A number of one or two digits, after blank characters. -/
def field : Reader Nat := fun cs => digitsUpTo 2 (Text.trimStart cs)

/-- A separator, after blank characters. -/
def separator (c : Char) : Reader Unit := fun cs =>
  match Text.trimStart cs with
  | d :: rest => if d = c then some ((), rest) else none
  | [] => none

/-- A year, after blank characters: at most four digits, or a sign and any number of them. -/
def year : Reader Int := fun cs =>
  match Text.trimStart cs with
  | '-' :: rest => (digitsUpTo rest.length rest).map fun (n, after) => (-(n : Int), after)
  | '+' :: rest => (digitsUpTo rest.length rest).map fun (n, after) => ((n : Int), after)
  | rest => (digitsUpTo 4 rest).map fun (n, after) => ((n : Int), after)

/-- A fraction of a second in nanoseconds, if the text starts with a point. Digits after the ninth
are dropped. -/
def fraction : Reader Nat := fun cs =>
  match cs with
  | '.' :: rest =>
    let ds := rest.takeWhile Char.isDigit
    if ds.isEmpty then none
    else
      let kept := ds.take 9
      some (Decimal.valueOf kept * 10 ^ (9 - kept.length), rest.drop ds.length)
  | _ => some (0, cs)

def date : Reader Date := fun cs => do
  let (y, cs) ← year cs
  let (_, cs) ← separator '-' cs
  let (m, cs) ← field cs
  let (_, cs) ← separator '-' cs
  let (d, cs) ← field cs
  let date ← Date.ofFields? y m d
  return (date, cs)

/-- The time with the given fields as written, where second 60 is a leap second. -/
def timeOfFields? (hour minute second nanos : Nat) : Option TimeOfDay :=
  if second = 60 then TimeOfDay.ofFields? hour minute 59 (nanosPerSecond + nanos)
  else TimeOfDay.ofFields? hour minute second nanos

def seconds : Reader (Nat × Nat) := fun cs => do
  let (_, cs) ← separator ':' cs
  let (s, cs) ← field cs
  let (n, cs) ← fraction cs
  return ((s, n), cs)

def hourMinute : Reader (Nat × Nat) := fun cs => do
  let (h, cs) ← field cs
  let (_, cs) ← separator ':' cs
  let (m, cs) ← field cs
  return ((h, m), cs)

/-- Reads a whole text: what follows the reader may only be blank. -/
def whole {α : Type} (reader : Reader α) (cs : List Char) : Option α := do
  let (a, rest) ← reader cs
  if rest.all Text.isBlank then some a else none

def fullTime : Reader TimeOfDay := fun cs => do
  let ((h, m), cs) ← hourMinute cs
  let ((s, n), cs) ← seconds cs
  let time ← timeOfFields? h m s n
  return (time, cs)

def time : Reader TimeOfDay := fun cs => do
  let ((h, m), cs) ← hourMinute cs
  match seconds cs with
  | some ((s, n), cs) => return (← timeOfFields? h m s n, cs)
  | none => return (← timeOfFields? h m 0 0, cs)

/-- A date and a time with seconds, separated by the letter T. -/
def dateTime : Reader DateTime := fun cs => do
  let (date, cs) ← date cs
  let (_, cs) ← separator 'T' cs
  let (time, cs) ← fullTime cs
  return (⟨date, time⟩, cs)

def readDate : List Char → Option Date := whole date

def readTime : List Char → Option TimeOfDay := whole time

def readDateTime : List Char → Option DateTime := whole dateTime

end Cypher.Temporal
