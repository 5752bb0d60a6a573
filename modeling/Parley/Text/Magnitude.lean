/-!
# Large numbers

Numbers with a fraction or an exponent are held with 53 binary digits and an exponent below 1024.
`nearest` is the number with so many digits that is nearest to an integer; `overflowBound` is the
least number that has none.
-/

set_option autoImplicit false

namespace Parley.Text

/-- The number with 53 binary digits that is nearest to an integer; of two the even one. -/
def nearest (n : Nat) : Nat :=
  let unit := Nat.pow 2 (n.log2 + 1 - 53)
  let below := n / unit
  let rest := n % unit
  if unit < 2 * rest || (unit = 2 * rest && below % 2 = 1) then (below + 1) * unit
  else below * unit

/-- The least number that counts as infinite: half a unit above the greatest one that has 53 binary
digits and an exponent below 1024. -/
def overflowBound : Nat := Nat.pow 2 1024 - Nat.pow 2 970

end Parley.Text
