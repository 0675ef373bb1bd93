import Mathlib.Algebra.Ring.Int.Defs
import Mathlib.Algebra.Ring.Nat

/-!
# Binary floating point

Numbers of an IEEE 754 binary format. A finite number is a sign and a magnitude, counted
in units of the smallest subnormal, so that a sum is exact in that unit and a product or a
quotient is a ratio of natural numbers. Every operation computes its exact result and
rounds it once, to nearest with ties to even.

`cast` is a conversion to an integer type: towards zero, saturating, and zero for a NaN.
`parse` reads the decimal notation of the programming languages.
-/

namespace BarryOS.Lib

structure Format where
  /-- Bits of the significand, the leading one included. -/
  precision : Nat
  /-- The smallest subnormal is two to the power of minus this. -/
  unit : Nat
  /-- The magnitudes, in units, are below two to the power of this. -/
  top : Nat

def binary32 : Format := ⟨24, 149, 277⟩

def binary64 : Format := ⟨53, 1074, 2098⟩

inductive Binary (f : Format) where
  | nan
  | inf (neg : Bool)
  | fin (neg : Bool) (mag : Nat)
  deriving DecidableEq, Repr

namespace Binary

variable {f : Format}

/-- The integer nearest to `n / d`, the even one of two. -/
def nearest (n d : Nat) : Nat :=
  let k := n / d
  let r := n % d
  if 2 * r < d then k else if d < 2 * r then k + 1 else k + k % 2

/-- The number nearest to `n / d` units. -/
def round (neg : Bool) (n d : Nat) : Binary f :=
  let shift := (n / d).log2 + 1 - f.precision
  let mag := nearest n (d * 2 ^ shift) * 2 ^ shift
  if mag < 2 ^ f.top then .fin neg mag else .inf neg

def zero : Binary f := .fin false 0

/-- The number nearest to an integer. -/
def ofInt (i : Int) : Binary f := round (decide (i < 0)) (i.natAbs * 2 ^ f.unit) 1

def ofNat (n : Nat) : Binary f := ofInt n

def isFinite : Binary f → Bool
  | fin .. => true
  | _ => false

def neg : Binary f → Binary f
  | nan => nan
  | inf s => inf !s
  | fin s m => fin (!s) m

/-- The units of a finite number, with their sign. -/
def signed (neg : Bool) (mag : Nat) : Int := if neg then -mag else mag

def add : Binary f → Binary f → Binary f
  | fin s m, fin t n =>
    let sum := signed s m + signed t n
    -- an exact zero is positive unless both summands are negative
    if sum = 0 then fin (s && t) 0 else round (decide (sum < 0)) sum.natAbs 1
  | inf s, inf t => if s = t then inf s else nan
  | inf s, fin .. | fin .., inf s => inf s
  | nan, _ | _, nan => nan

def sub (x y : Binary f) : Binary f := x.add y.neg

def mul : Binary f → Binary f → Binary f
  | fin s m, fin t n => round (s != t) (m * n) (2 ^ f.unit)
  | inf s, fin t n | fin t n, inf s => if n = 0 then nan else inf (s != t)
  | inf s, inf t => inf (s != t)
  | nan, _ | _, nan => nan

def div : Binary f → Binary f → Binary f
  | fin s m, fin t n =>
    if n = 0 then if m = 0 then nan else inf (s != t) else round (s != t) (m * 2 ^ f.unit) n
  | inf s, fin t _ => inf (s != t)
  | fin s _, inf t => fin (s != t) 0
  | inf _, inf _ => nan
  | nan, _ | _, nan => nan

def lt : Binary f → Binary f → Bool
  | fin s m, fin t n => signed s m < signed t n
  | inf s, fin .. => s
  | fin .., inf t => !t
  | inf s, inf t => s && !t
  | nan, _ | _, nan => false

/-- Equality of numbers: the zeros are equal, and a NaN equals nothing. -/
def eq : Binary f → Binary f → Bool
  | fin s m, fin t n => signed s m = signed t n
  | inf s, inf t => s = t
  | _, _ => false

def le (x y : Binary f) : Bool := x.lt y || x.eq y

/-- The integer part between `lo` and `hi`. -/
def cast (lo hi : Int) : Binary f → Int
  | nan => 0
  | inf s => if s then lo else hi
  | fin s m => max lo (min hi (signed s (m / 2 ^ f.unit)))

/-- The same number in another format, rounded. -/
def convert {g : Format} : Binary f → Binary g
  | nan => nan
  | inf s => inf s
  | fin s m => round s (m * 2 ^ g.unit) (2 ^ f.unit)

/-! ## Decimal notation -/

/-- The number nearest to `n * 10 ^ e`. -/
def ofDecimal (neg : Bool) (n : Nat) (e : Int) : Binary f :=
  round neg (n * 10 ^ e.toNat * 2 ^ f.unit) (10 ^ (-e).toNat)

def digitsValue (ds : List Char) : Nat := ds.foldl (fun n c => 10 * n + (c.toNat - '0'.toNat)) 0

/-- The sign in front of a number. -/
def takeSign : List Char → Bool × List Char
  | '-' :: rest => (true, rest)
  | '+' :: rest => (false, rest)
  | rest => (false, rest)

/-- What may follow the digits of a number: nothing, or an exponent. -/
def parseExponent : List Char → Option Int
  | [] => some 0
  | c :: rest =>
    let signed := takeSign rest
    if (c = 'e' || c = 'E') && signed.2 ≠ [] && signed.2.all Char.isDigit then
      some (if signed.1 then -digitsValue signed.2 else digitsValue signed.2)
    else none

/-- The fraction behind the digits before the point, and the rest. -/
def takeFraction : List Char → List Char × List Char
  | '.' :: rest => (rest.takeWhile Char.isDigit, rest.dropWhile Char.isDigit)
  | rest => ([], rest)

def parse (s : List Char) : Option (Binary f) :=
  let signed := takeSign s
  let word := String.ofList (signed.2.map Char.toLower)
  if word = "nan" then some nan
  else if word = "inf" || word = "infinity" then some (inf signed.1)
  else
    let whole := signed.2.takeWhile Char.isDigit
    let fraction := takeFraction (signed.2.dropWhile Char.isDigit)
    if whole = [] && fraction.1 = [] then none
    else (parseExponent fraction.2).map fun e =>
      ofDecimal signed.1 (digitsValue (whole ++ fraction.1)) (e - fraction.1.length)

end Binary

end BarryOS.Lib
