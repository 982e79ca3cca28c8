import SqlTree.Number.Binary64

namespace SqlTree

/-- The decimal `digits · 10^exponent`. -/
structure Decimal where
  digits : Nat
  exponent : Int
  deriving DecidableEq

/-- What reads back as a number, in quarters of its unit `2^exponent`: all values from `low` to
`high`, the ends included where the tie goes to the number. -/
structure Rounding where
  low : Nat
  value : Nat
  high : Nat
  exponent : Int
  closed : Bool

/-- Below a power of two the neighbour is only half as far away. -/
def Binary64.rounding (x : Binary64) : Rounding :=
  let (m, e) := x.decode
  let low := if m = Binary64.fractionCount ∧ -1074 < e then 4 * m - 1 else 4 * m - 2
  ⟨low, 4 * m, 4 * m + 2, e - 2, m % 2 == 0⟩

namespace Rounding

/-- A point of the grid `10^t` and a number of quarter units, brought to a common unit. -/
def pointFactor (r : Rounding) (t : Int) : Nat :=
  Nat.pow 10 t.toNat * Nat.pow 2 (-r.exponent).toNat

def quarterFactor (r : Rounding) (t : Int) : Nat :=
  Nat.pow 10 (-t).toNat * Nat.pow 2 r.exponent.toNat

/-- Whether `digits · 10^t` reads back. -/
def admits (r : Rounding) (t : Int) (digits : Nat) : Bool :=
  let point := digits * r.pointFactor t
  let low := r.low * r.quarterFactor t
  let high := r.high * r.quarterFactor t
  if r.closed then low ≤ point && point ≤ high else low < point && point < high

/-- The nearest point of the grid `10^t` that reads back, if one does. The value's two
neighbours on the grid are enough to look at; a tie goes to the even one. -/
def nearest? (r : Rounding) (t : Int) : Option Nat :=
  let value := r.value * r.quarterFactor t
  let unit := r.pointFactor t
  let below := value / unit
  match r.admits t below, r.admits t (below + 1) with
  | true, true =>
    let rest := 2 * (value % unit)
    if rest < unit || (rest == unit && below % 2 == 0) then some below else some (below + 1)
  | true, false => some below
  | false, true => some (below + 1)
  | false, false => none

/-- Tries ever finer grids. -/
def search (r : Rounding) : Nat → Int → Decimal
  | 0, t => ⟨0, t⟩
  | tries + 1, t =>
    match r.nearest? t with
    | some digits => ⟨digits, t⟩
    | none => search r tries (t - 1)

end Rounding

namespace Binary64

/-- The decimal with the fewest digits that reads back as `x`, the nearest one of those. The
first grid tried is coarser than `x` and the last one holds `x` itself. -/
def shortest (x : Binary64) : Decimal :=
  if x.bits = 0 then ⟨0, 0⟩
  else
    let r := x.rounding
    let first := (r.exponent + 56) * 30103 / 100000 + 1
    r.search 400 first

end Binary64

namespace Decimal

/-- Written with a point for leading digits from `10^-5` to `10^15`, else with an exponent, which
always has a sign. A whole number keeps a zero behind the point. -/
def text (d : Decimal) : String :=
  let digits := Nat.toDigits 10 d.digits
  let size : Int := digits.length
  let point := size + d.exponent
  let zeros (n : Int) := List.replicate n.toNat '0'
  let chars :=
    if 0 ≤ d.exponent ∧ point ≤ 16 then digits ++ zeros d.exponent ++ ['.', '0']
    else if 0 < point ∧ point ≤ 16 then
      digits.take point.toNat ++ ['.'] ++ digits.drop point.toNat
    else if -5 < point ∧ point ≤ 0 then ['0', '.'] ++ zeros (-point) ++ digits
    else
      let fraction := if digits.length ≤ 1 then [] else '.' :: digits.drop 1
      let sign := if point ≤ 0 then '-' else '+'
      digits.take 1 ++ fraction ++ 'e' :: sign :: (toString (point - 1).natAbs).toList
  String.ofList chars

end Decimal

end SqlTree
