/-!
# Decimal numerals of bounded size

Reading a numeral as a number below a bound, and the three reasons for which a text is not one.
-/

set_option autoImplicit false

namespace Parley.Text

/-- Why a text is not the numeral of a number below a bound. -/
inductive NumeralFault
  | empty
  | invalidDigit
  | tooLarge
  deriving DecidableEq, Repr

namespace NumeralFault

def message : NumeralFault → String
  | empty => "cannot parse integer from empty string"
  | invalidDigit => "invalid digit found in string"
  | tooLarge => "number too large to fit in target type"

end NumeralFault

def digitValue (c : Char) : Nat := c.toNat - '0'.toNat

/-- The digits read from the left; the first fault met is the one reported. -/
def readDigits (bound : Nat) (value : Nat) : List Char → Except NumeralFault Nat
  | [] => .ok value
  | c :: cs =>
    if c.isDigit then
      let next := value * 10 + digitValue c
      if next < bound then readDigits bound next cs else .error .tooLarge
    else .error .invalidDigit

/-- The number below `bound` that `s` denotes: decimal digits, after a plus sign or not. -/
def readNumeral (bound : Nat) (s : String) : Except NumeralFault Nat :=
  match s.toList with
  | [] => .error .empty
  | ['+'] => .error .invalidDigit
  | '+' :: cs => readDigits bound 0 cs
  | cs => readDigits bound 0 cs

end Parley.Text
