import NotePublisher.Toml.Digits
import NotePublisher.Toml.Table

namespace NotePublisher

/-!
# TOML literals

A literal is a value written without quotes or brackets: a truth value, an
integer, a float, or a date or time. Integers must fit into 128 bits, signed
or unsigned; a float must not be so large that it rounds to infinity; a date
must exist.
-/

namespace Toml

/-- The digits of a decimal number, which has no zero in front of other digits. -/
def decimalDigits? (text : Text) : Option Text :=
  (groupedDigits? 10 text).filter fun digits =>
    digits.length = 1 || digits.head? ≠ some '0'

/-- Whether a text has a minus sign in front, and what follows its sign. -/
def splitSign (text : Text) : Bool × Text :=
  match text with
  | '-' :: rest => (true, rest)
  | '+' :: rest => (false, rest)
  | _ => (false, text)

/-- The number with a sign. -/
def withSign
    (negative : Bool)
    (size : Nat) :
    Int :=
  if negative then -(size : Int) else size

/-- Whether an integer fits into 128 bits, signed or unsigned. -/
def isRepresentable (number : Int) : Bool :=
  -Int.ofNat (Nat.pow 2 127) ≤ number && number < Int.ofNat (Nat.pow 2 128)

/-- The integer that a literal stands for, of whatever size. -/
def anyInteger? (literal : Text) : Option Int :=
  match literal with
  | '0' :: 'x' :: digits => (groupedDigits? 16 digits).map fun all => numberOfDigits 16 all
  | '0' :: 'o' :: digits => (groupedDigits? 8 digits).map fun all => numberOfDigits 8 all
  | '0' :: 'b' :: digits => (groupedDigits? 2 digits).map fun all => numberOfDigits 2 all
  | _ =>
      let (negative, digits) := splitSign literal
      (decimalDigits? digits).map fun all => withSign negative (numberOfDigits 10 all)

/-- The integer that a literal stands for. -/
def integer? (literal : Text) : Option Int :=
  (anyInteger? literal).filter isRepresentable

/-- The parts of a float: its digits, how many of them follow the point, and its exponent. -/
structure FloatParts where
  digits : Text
  places : Nat
  exponent : Int
  deriving DecidableEq, Repr

namespace FloatParts

/--
Whether the nearest floating-point number of double precision is infinite:
this begins halfway between the greatest finite number and `2 ^ 1024`.
-/
def isTooLarge (parts : FloatParts) : Bool :=
  let size := numberOfDigits 10 parts.digits
  let shift := parts.exponent - parts.places
  let bound := (Nat.pow 2 54 - 1) * Nat.pow 2 970
  if size = 0 then
    false
  else if 400 < shift then
    true
  else if shift < -(parts.digits.length : Int) then
    false
  else if 0 ≤ shift then
    bound ≤ size * Nat.pow 10 shift.toNat
  else
    bound * Nat.pow 10 (-shift).toNat ≤ size

end FloatParts

/-- The exponent written behind its letter. -/
def exponent? (text : Text) : Option Int :=
  let (negative, digits) := splitSign text
  (groupedDigits? 10 digits).map fun all => withSign negative (numberOfDigits 10 all)

/-- The parts of a float without a sign; it has a fraction, an exponent or both. -/
def floatParts? (text : Text) : Option FloatParts :=
  let isLetter (char : Char) : Bool := char = 'e' || char = 'E'
  let mantissa := text.takeWhile (!isLetter ·)
  let whole := mantissa.takeWhile (· != '.')
  let fraction := mantissa.dropWhile (· != '.')
  let power := text.dropWhile (!isLetter ·)
  match decimalDigits? whole, fraction, power with
  | none, _, _ => none
  | some _, [], [] => none
  | some front, [], _ :: shift =>
      (exponent? shift).map fun exponent => ⟨front, 0, exponent⟩
  | some front, _ :: places, [] =>
      (groupedDigits? 10 places).map fun behind => ⟨front ++ behind, behind.length, 0⟩
  | some front, _ :: places, _ :: shift =>
      (groupedDigits? 10 places).bind fun behind =>
        (exponent? shift).map fun exponent => ⟨front ++ behind, behind.length, exponent⟩

/-- Whether a literal is a float. -/
def isFloat (literal : Text) : Bool :=
  let (_, unsigned) := splitSign literal
  if unsigned = ['i', 'n', 'f'] || unsigned = ['n', 'a', 'n'] then
    true
  else
    match floatParts? unsigned with
    | none => false
    | some parts => !parts.isTooLarge

/-- The number of a fixed count of digits at the front of a text, and what follows. -/
def fixedNumber?
    (count : Nat)
    (text : Text) :
    Option (Nat × Text) :=
  let digits := text.take count
  if digits.length = count && isDigits 10 digits then
    some (numberOfDigits 10 digits, text.drop count)
  else
    none

/-- The number of days of a month. -/
def daysOfMonth (year month : Nat) : Nat :=
  if month = 2 then
    if year % 4 = 0 && (year % 100 ≠ 0 || year % 400 = 0) then 29 else 28
  else if month = 4 || month = 6 || month = 9 || month = 11 then
    30
  else
    31

/-- What follows a date at the front of a text. -/
def afterDate? (text : Text) : Option Text := do
  let (year, text) ← fixedNumber? 4 text
  let text ← Text.dropStart? ['-'] text
  let (month, text) ← fixedNumber? 2 text
  let text ← Text.dropStart? ['-'] text
  let (day, text) ← fixedNumber? 2 text
  if 1 ≤ month && month ≤ 12 && 1 ≤ day && day ≤ daysOfMonth year month then
    some text
  else
    none

/-- What follows the hours and minutes at the front of a text. -/
def afterMinutes? (text : Text) : Option Text := do
  let (hour, text) ← fixedNumber? 2 text
  let text ← Text.dropStart? [':'] text
  let (minute, text) ← fixedNumber? 2 text
  if hour ≤ 23 && minute ≤ 59 then some text else none

/-- What follows a fraction of a second at the front of a text, if there is one. -/
def afterFraction? (text : Text) : Option Text :=
  match text with
  | '.' :: rest =>
      if (rest.takeWhile Char.isDigit).isEmpty then
        none
      else
        some (rest.dropWhile Char.isDigit)
  | _ => some text

/-- What follows a time at the front of a text. The seconds may be missing. -/
def afterTime? (text : Text) : Option Text := do
  let text ← afterMinutes? text
  match text with
  | ':' :: rest =>
      let (second, rest) ← fixedNumber? 2 rest
      if second ≤ 60 then afterFraction? rest else none
  | _ => some text

/-- What follows the distance from universal time at the front of a text, if there is one. -/
def afterZone? (text : Text) : Option Text :=
  match text with
  | 'Z' :: rest => some rest
  | 'z' :: rest => some rest
  | '+' :: rest => afterMinutes? rest
  | '-' :: rest => afterMinutes? rest
  | _ => some text

/-- Whether a literal is a date, a time, or a date and a time. -/
def isMoment (literal : Text) : Bool :=
  match afterDate? literal with
  | none => afterTime? literal = some []
  | some [] => true
  | some (between :: time) =>
      (between = 'T' || between = 't' || between = ' ') &&
        (afterTime? time).bind afterZone? = some []

/-- The value that a literal stands for. -/
def literal? (literal : Text) : Option Node :=
  if literal = ['t', 'r', 'u', 'e'] then
    some (.boolean true)
  else if literal = ['f', 'a', 'l', 's', 'e'] then
    some (.boolean false)
  else
    match integer? literal with
    | some number => some (.integer number)
    | none =>
        if isFloat literal then some (.float literal)
        else if isMoment literal then some (.moment literal)
        else none

end Toml

end NotePublisher
