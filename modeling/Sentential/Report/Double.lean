/-!
# Doubles

A finite double is an integer times a power of two.

* `Double.parts`         the integer and the exponent;
* `Double.roundToEven`   a fraction as the nearest integer, a half as the even one;
* `Double.integer`       a double as an integer;
* `Double.nearest?`      the double nearest to a fraction, a tie as the one whose last bit is zero.

The bits of a double that is not negative, read as a number, grow with the double: behind the
exponent `q` of the last bit they count on through the integers `c` of `c * 2 ^ q`.  So
`Double.nearest?` adds the two, and a `c` that is rounded up to the next power of two carries into
the exponent by itself.
-/

namespace Sentential.Double

/-- a finite double as `m * 2 ^ q` -/
def parts (x : Float) : Int × Int :=
  let bits := x.toBits
  let e := ((bits >>> 52) &&& 0x7FF).toNat
  let f := (bits &&& 0xFFFFFFFFFFFFF).toNat
  let m : Int := if e = 0 then f else f + 0x10000000000000
  let q : Int := if e = 0 then -1074 else (e : Int) - 1075
  (if bits >>> 63 = 0 then m else -m, q)

/-- `m / d` as the nearest integer, a half as the even one -/
def roundToEven (m : Int) (d : Nat) : Int :=
  let q := m.fdiv d
  let r := 2 * (m - q * d)
  if r < d then q
  else if r = d then (if q % 2 = 0 then q else q + 1)
  else q + 1

theorem roundToEven_near (m : Int) (d : Nat) (h : 0 < d) :
    2 * m - d ≤ 2 * (roundToEven m d * d) ∧ 2 * (roundToEven m d * d) ≤ 2 * m + d := by
  have e : m.fdiv d = m / d := Int.fdiv_eq_ediv_of_nonneg m (Int.natCast_nonneg d)
  have lo : 0 ≤ m % d := Int.emod_nonneg m (by omega)
  have hi : m % d < d := Int.emod_lt_of_pos m (by omega)
  have s : m / d * d + m % d = m := Int.ediv_mul_add_emod m d
  have t : (m / d + 1) * d = m / d * d + d := by rw [Int.add_mul, Int.one_mul]
  simp only [roundToEven, e]
  split
  · omega
  · split
    · split <;> omega
    · omega

/-- a double as an integer, by a way to divide integers -/
def integer (divide : Int → Nat → Int) (x : Float) : Int :=
  let (m, q) := parts x
  if 0 ≤ q then m * Nat.pow 2 q.toNat else divide m (Nat.pow 2 (-q).toNat)

/-- the fraction `n / d` divided by `2 ^ q`, as a fraction -/
def scaled (n d : Nat) (q : Int) : Nat × Nat :=
  if 0 ≤ q then (n, d * Nat.pow 2 q.toNat) else (n * Nat.pow 2 (-q).toNat, d)

/-- the exponent of the last bit, where `n / d` has fifty-three bits, or the least one -/
def lastBit (n d : Nat) : Int :=
  let q : Int := (n.log2 : Int) - (d.log2 : Int) - 52
  let (a, b) := scaled n d (q + 52)
  max (if b ≤ a then q else q - 1) (-1074)

/-- the double nearest to `m / d`, unless that is beyond all doubles -/
def nearest? (m : Int) (d : Nat) : Option Float :=
  if m = 0 then some 0.0
  else
    let q := lastBit m.natAbs d
    let (a, b) := scaled m.natAbs d q
    let bits := (q + 1074).toNat * 0x10000000000000 + (roundToEven a b).toNat
    if bits < 0x7FF0000000000000 then
      some (Float.ofBits (UInt64.ofNat (if m < 0 then 0x8000000000000000 + bits else bits)))
    else none

end Sentential.Double
