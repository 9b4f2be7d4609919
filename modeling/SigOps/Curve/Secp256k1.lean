import SigOps.Curve.Ladder

namespace SigOps.Curve

def fieldPrime : Nat := 0xfffffffffffffffffffffffffffffffffffffffffffffffffffffffefffffc2f

-- The number of points on the curve, which is a prime as well.
def groupOrder : Nat := 0xfffffffffffffffffffffffffffffffebaaedce6af48a03bbfd25e8cd0364141

-- Numerals of `Fin` look for these two.
instance : @NeZero Nat Zero.ofOfNat0 fieldPrime := ⟨by decide⟩

instance : @NeZero Nat Zero.ofOfNat0 groupOrder := ⟨by decide⟩

-- Coordinates of points.
abbrev Coordinate := Fin fieldPrime

-- Multipliers of points.
abbrev Scalar := Fin groupOrder

-- Both moduli have this many binary digits.
def width : Nat := 256

-- Exponents have at most `width` digits.
def power {modulus : Nat} (base : Fin modulus) (exponent : Nat) : Fin modulus :=
  ladder ⟨1 % modulus, Nat.mod_lt 1 base.pos⟩ (fun value => value * value) (· * base) width exponent

-- Modulo a prime the inverse is a power. Zero goes to zero.
def inverse {modulus : Nat} (value : Fin modulus) : Fin modulus :=
  power value (modulus - 2)

-- The prime is 3 modulo 4, so a square has this power among its roots.
def squareRoot? (square : Coordinate) : Option Coordinate :=
  let root := power square ((fieldPrime + 1) / 4)
  if root * root = square then some root else none

-- A root and its opposite differ in parity, the prime being odd.
def isOdd (coordinate : Coordinate) : Bool := coordinate.val % 2 = 1

-- The cubic whose square roots are the y coordinates at `x`.
def cubic (x : Coordinate) : Coordinate := x * x * x + 7

-- The curve is y² = x³ + 7.
def OnCurve (x y : Coordinate) : Prop := y * y = cubic x

instance (x y : Coordinate) : Decidable (OnCurve x y) :=
  inferInstanceAs (Decidable (y * y = cubic x))

def generatorX : Coordinate :=
  0x79be667ef9dcbbac55a06295ce870b07029bfcdb2dce28d959f2815b16f81798

def generatorY : Coordinate :=
  0x483ada7726a3c4655da4fbfc0e1108a8fd17b448a68554199c47d08ffb10d4b8

end SigOps.Curve
