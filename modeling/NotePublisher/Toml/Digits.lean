import NotePublisher.Text.Basic

namespace NotePublisher

/-!
# Digits

Digits of bases up to sixteen and the numbers they stand for. Single
underscores may stand between the digits of a number.
-/

namespace Toml

/-- The value of a digit in a base up to sixteen. -/
def digitIn?
    (base : Nat)
    (char : Char) :
    Option Nat :=
  let value? :=
    if '0' ≤ char && char ≤ '9' then some (char.toNat - '0'.toNat)
    else if 'a' ≤ char && char ≤ 'f' then some (char.toNat - 'a'.toNat + 10)
    else if 'A' ≤ char && char ≤ 'F' then some (char.toNat - 'A'.toNat + 10)
    else none
  value?.filter (· < base)

/-- Whether a text consists of digits of a base, and of at least one. -/
def isDigits
    (base : Nat)
    (text : Text) :
    Bool :=
  !text.isEmpty && text.all fun char => (digitIn? base char).isSome

/-- The number that digits stand for. -/
def numberOfDigits
    (base : Nat)
    (digits : Text) :
    Nat :=
  digits.foldl (fun number digit => number * base + (digitIn? base digit).getD 0) 0

/-- The digits of a text in which single underscores may stand between digits. -/
def groupedDigits?
    (base : Nat)
    (text : Text) :
    Option Text :=
  if (text.splitOn '_').all (isDigits base) then
    some (text.filter (· != '_'))
  else
    none

end Toml

end NotePublisher
