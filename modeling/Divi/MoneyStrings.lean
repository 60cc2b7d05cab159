/-
Amounts as text: `FormatMoney` and `ParseMoney`.

The negation of the lowest 64-bit amount, which overflows, is not modelled.  Nothing else overflows:
ten digits are multiplied by `COIN`.
-/
import Divi.Spork

namespace Divi

def CENT : Int := 1000000

/-- The loop that trims zeros, on the reversed text: two characters always stay. -/
def trimZeros : StdString → StdString
  | c :: b :: a :: str =>
    if c = '0' ∧ a.isDigit then trimZeros (b :: a :: str) else c :: b :: a :: str
  | str => str

/-- `FormatMoney`: coins with at least two decimals. -/
def formatMoney (n : Int) (fPlus : Bool := false) : StdString :=
  let n_abs := if n > 0 then n else -n
  let str := Decimal.render (n_abs.tdiv COIN) ++ '.' ::
    (Decimal.render (n_abs.tmod COIN)).leftpad 8 '0'
  let str := (trimZeros str.reverse).reverse
  if n < 0 then '-' :: str
  else if fPlus ∧ n > 0 then '+' :: str
  else str

/-- In the C locale. -/
def isspace (c : Char) : Bool :=
  c = ' ' ∨ '\t' ≤ c ∧ c ≤ '\r'

/-- The loop over the decimals: the units, and what is left of the text. -/
def parseUnits : StdString → Int → Int → Int × StdString
  | [], _, nUnits => (nUnits, [])
  | c :: p, nMult, nUnits =>
    if c.isDigit ∧ nMult > 0 then
      parseUnits p (nMult.tdiv 10) (nUnits + nMult * (c.toNat - '0'.toNat : Nat))
    else (nUnits, c :: p)

/-- The loop over the text: the digits before the point, the units and the rest. -/
def parseWhole : StdString → StdString → Option (StdString × Int × StdString)
  | [], strWhole => some (strWhole, 0, [])
  | c :: p, strWhole =>
    if c = '.' then some (strWhole, parseUnits p (CENT * 10) 0)
    else if isspace c then some (strWhole, 0, c :: p)
    else if !c.isDigit then none
    else parseWhole p (strWhole ++ [c])

/-- The C string of a text ends at its first zero. -/
def parseMoney (str : StdString) : Option Int := do
  let (strWhole, nUnits, p) ← parseWhole ((str.takeWhile (· ≠ '\x00')).dropWhile isspace) []
  if ¬ p.all isspace ∨ strWhole.length > 10 ∨ nUnits < 0 ∨ nUnits > COIN then none
  else some (Nat.ofDigitChars 10 strWhole 0 * COIN + nUnits)

end Divi
