/-!
Decimal texts of binary floating point numbers: the fewest digits that read back as the same
number, written without an exponent where the decimal point stands near them.
-/

namespace ComponentDoc.Json

structure Scientific where
  digits : Nat
  exponent : Int
deriving Repr, DecidableEq, Inhabited

/--
The quotient of two positive numbers with one of the two nearest grid points, `up` or down.
-/
def gridPoint (num den : Nat) (up : Bool) : Nat :=
  if up then num / den + 1 else num / den

def digitCount (n : Nat) : Nat :=
  (Nat.repr n).length

/--
The shortest decimal inside the rounding interval of `mantissa * 2 ^ exponent`. The interval
reaches half way to both neighbours and holds its ends when the mantissa is even.
-/
def shortest (mantissa : Nat) (exponent : Int) : Scientific :=
  -- The value and the ends of its interval, as numerators over one denominator.
  let lowGap := if mantissa == Nat.pow 2 52 then 1 else 2
  let scale : Nat := if exponent < 2 then Nat.pow 2 (2 - exponent).toNat else 1
  let unit : Nat := if exponent < 2 then 1 else Nat.pow 2 (exponent - 2).toNat
  let value := 4 * mantissa * unit
  let low := (4 * mantissa - lowGap) * unit
  let high := (4 * mantissa + 2) * unit
  let even := mantissa % 2 == 0
  let inside (n d : Nat) : Bool :=
    -- `n / d` against the interval over `scale`.
    let p := n * scale
    if even then low * d ≤ p && p ≤ high * d else low * d < p && p < high * d
  let integral := value / scale
  let magnitude : Int :=
    if integral > 0 then digitCount integral
    else 1 - (digitCount (scale / value) : Int)
  let candidate (count : Nat) : Option Scientific :=
    let power : Int := magnitude - count
    let num := if power < 0 then value * Nat.pow 10 (-power).toNat else value
    let den := if power < 0 then scale else scale * Nat.pow 10 power.toNat
    let check (d : Nat) : Bool :=
      if power < 0 then inside d (Nat.pow 10 (-power).toNat)
      else inside (d * Nat.pow 10 power.toNat) 1
    let down := gridPoint num den false
    let up := gridPoint num den true
    let nearer := if 2 * (num % den) < den then down else up
    if check nearer then some ⟨nearer, power⟩
    else if check down then some ⟨down, power⟩
    else if check up then some ⟨up, power⟩
    else none
  ((List.range 18).findSome? (fun count => candidate (count + 1))).getD ⟨mantissa, 0⟩

def Scientific.normalize (s : Scientific) : Scientific :=
  let digits := (Nat.repr s.digits).toList.reverse
  let zeros := (digits.takeWhile (· == '0')).length
  ⟨s.digits / Nat.pow 10 zeros, s.exponent + zeros⟩

/--
The text of a positive decimal. The point is written out from five places before the digits to
sixteen places behind the first one; a whole number keeps one zero behind the point.
-/
def Scientific.text (s : Scientific) : String :=
  let digits := Nat.repr s.digits
  let length := digits.length
  let point : Int := length + s.exponent
  if 0 ≤ s.exponent && point ≤ 16 then
    digits ++ String.ofList (List.replicate s.exponent.toNat '0') ++ ".0"
  else if 0 < point && point ≤ 16 then
    String.ofList (digits.toList.take point.toNat) ++ "."
      ++ String.ofList (digits.toList.drop point.toNat)
  else if -5 < point && point ≤ 0 then
    "0." ++ String.ofList (List.replicate (-point).toNat '0') ++ digits
  else
    let power := point - 1
    let sign := if power < 0 then "-" else "+"
    let head := String.ofList (digits.toList.take 1)
    let tail := String.ofList (digits.toList.drop 1)
    let fraction := if tail.isEmpty then "" else "." ++ tail
    head ++ fraction ++ "e" ++ sign ++ Nat.repr power.natAbs

def floatText (f : Float) : String :=
  let bits := f.toBits.toNat
  let sign := if bits ≥ Nat.pow 2 63 then "-" else ""
  let biased : Nat := bits / Nat.pow 2 52 % Nat.pow 2 11
  let fraction : Nat := bits % Nat.pow 2 52
  -- A biased exponent of zero marks a number below the normal ones, without the leading bit.
  if biased == 0 && fraction == 0 then
    sign ++ "0.0"
  else
    let mantissa := if biased == 0 then fraction else fraction + Nat.pow 2 52
    let exponent : Int := if biased == 0 then -1074 else (biased : Int) - 1075
    sign ++ (shortest mantissa exponent).normalize.text

end ComponentDoc.Json
