/-
Numbers in JSON texts (`json_lex_number` of `lib/json.c`). The digits go into a 64-bit significand as long as it is at
most `ULLONG_MAX / 10`, those left over raise the power of ten, and at the end the power is brought to zero where that
is possible. A literal whose leading digits are those of 2^64 or of one of the three numbers after it wraps the
significand around; the others are read exactly, as far as the exponent and the power of ten stay in range.
-/
import LinkerOvs.Lib.Decimal
import LinkerOvs.Lib.SignedWord

namespace LinkerOvs.Json

open Decimal (Digit value)

/-! ## The lexer -/

def byte (c : Char) : UInt8 := UInt8.ofNat c.toNat

def isDigit (c : UInt8) : Bool := byte '0' ≤ c && c ≤ byte '9'

/-- `c - '0'`. -/
def digit (c : UInt8) : Nat := c.toNat - (byte '0').toNat

/-- `isdigit(*cp)`. The text ends with a null byte. -/
def startsDigit : List UInt8 → Bool
  | [] => false
  | c :: _ => isDigit c

/-- The type and the value of `struct json_token`. -/
inductive Token (δ : Type)
  | beginArray
  | endArray
  | beginObject
  | endObject
  | nameSeparator
  | valueSeparator
  | false
  | null
  | true
  | integer (i : Int)
  | real (x : δ)
  | string (s : List UInt8)
deriving DecidableEq

/-- Why there is no token: the message of `json_error`, or an `int` that overflows. -/
inductive Stop
  | overflow
  | error (message : String)
deriving DecidableEq

/-- The numbers of type `double`: `str_to_double`, the comparison with zero, and zero. -/
structure Doubles (δ : Type) where
  ofText : List UInt8 → Option δ
  isZero : δ → Bool
  zero : δ

/-- The values of type `int`. -/
def FitsInt (z : Int) : Prop := -2 ^ 31 ≤ z ∧ z < 2 ^ 31

instance (z : Int) : Decidable (FitsInt z) := inferInstanceAs (Decidable (_ ∧ _))

def int (z : Int) : Except Stop Int := if FitsInt z then .ok z else .error .overflow

def ullongMax : Nat := 2 ^ 64 - 1

def scanDigits {σ : Type} (step : σ → UInt8 → Except Stop σ) : σ → List UInt8 → Except Stop (σ × List UInt8)
  | s, [] => .ok (s, [])
  | s, c :: cp =>
    if isDigit c then do
      let s ← step s c
      scanDigits step s cp
    else .ok (s, c :: cp)

/-- The local variables of `json_lex_number`. -/
structure Scan where
  significand : Nat
  pow10 : Int
  imprecise : Bool
deriving DecidableEq

def integerDigit (s : Scan) (c : UInt8) : Except Stop Scan :=
  if s.significand ≤ ullongMax / 10 then .ok { s with significand := (s.significand * 10 + digit c) % 2 ^ 64 }
  else do
    let pow10 ← int (s.pow10 + 1)
    .ok { s with pow10 := pow10, imprecise := s.imprecise || c != byte '0' }

def fractionDigit (s : Scan) (c : UInt8) : Except Stop Scan :=
  if s.significand ≤ ullongMax / 10 then do
    let pow10 ← int (s.pow10 - 1)
    .ok { s with significand := (s.significand * 10 + digit c) % 2 ^ 64, pow10 := pow10 }
  else .ok { s with imprecise := s.imprecise || c != byte '0' }

def exponentDigit (exponent : Int) (c : UInt8) : Except Stop Int :=
  if (2 ^ 31 - 1) / 10 ≤ exponent then .error (.error "exponent outside valid range")
  else int (exponent * 10 + digit c)

/-- The digits before the point, of which only a single one may be a zero at the front. -/
def integerPart : List UInt8 → Except Stop (Scan × List UInt8)
  | [] => .error (.error "'-' must be followed by digit")
  | c :: cp =>
    if c = byte '0' then
      if startsDigit cp then .error (.error "leading zeros not allowed") else .ok (⟨0, 0, false⟩, cp)
    else if isDigit c then scanDigits integerDigit ⟨0, 0, false⟩ (c :: cp)
    else .error (.error "'-' must be followed by digit")

def fractionPart (s : Scan) : List UInt8 → Except Stop (Scan × List UInt8)
  | [] => .ok (s, [])
  | c :: cp =>
    if c = byte '.' then
      if startsDigit cp then scanDigits fractionDigit s cp
      else .error (.error "decimal point must be followed by digit")
    else .ok (s, c :: cp)

/-- The sign of an exponent: whether it is negative, and the text after it. -/
def exponentSign : List UInt8 → Bool × List UInt8
  | [] => (false, [])
  | c :: cp => if c = byte '+' then (false, cp) else if c = byte '-' then (true, cp) else (false, c :: cp)

def exponentPart (s : Scan) : List UInt8 → Except Stop (Scan × List UInt8)
  | [] => .ok (s, [])
  | c :: cp =>
    if c = byte 'e' ∨ c = byte 'E' then
      if startsDigit (exponentSign cp).2 then do
        let (exponent, rest) ← scanDigits exponentDigit 0 (exponentSign cp).2
        let pow10 ← int (if (exponentSign cp).1 then s.pow10 - exponent else s.pow10 + exponent)
        .ok ({ s with pow10 := pow10 }, rest)
      else .error (.error "exponent must contain at least one digit")
    else .ok (s, c :: cp)

/-- The loop that multiplies the significand while the power of ten is positive. -/
def scaleUp : Nat → Nat → Nat × Nat
  | 0, significand => (0, significand)
  | pow10 + 1, significand =>
    if significand < ullongMax / 10 then scaleUp pow10 (significand * 10 % 2 ^ 64) else (pow10 + 1, significand)

/-- The loop that divides the significand while the power of ten, here without its sign, is negative. -/
def scaleDown : Nat → Nat → Nat × Nat
  | 0, significand => (0, significand)
  | pow10 + 1, significand =>
    if significand % 10 = 0 then scaleDown pow10 (significand / 10) else (pow10 + 1, significand)

/-- The power of ten that is left, without its sign, and the significand. -/
def rescale : Int → Nat → Nat × Nat
  | .ofNat pow10, significand => scaleUp pow10 significand
  | .negSucc pow10, significand => scaleDown (pow10 + 1) significand

/-- The largest significand of an integer. -/
def integerBound (negative : Bool) : Nat := if negative then 2 ^ 63 else 2 ^ 63 - 1

/-- `negative ? -significand : significand`, as a `long long int`. -/
def toInteger (negative : Bool) (significand : Nat) : Int :=
  (if negative then -BitVec.ofNat 64 significand else BitVec.ofNat 64 significand).toInt

section Doubles

variable {δ : Type} (D : Doubles δ)

def finishNumber (buffer : List UInt8) (negative : Bool) (s : Scan) : Except Stop (Token δ) :=
  if s.significand = 0 then .ok (.integer 0)
  else
    let (pow10, significand) := rescale s.pow10 s.significand
    if !s.imprecise ∧ pow10 = 0 ∧ significand ≤ integerBound negative then
      .ok (.integer (toInteger negative significand))
    else
      match D.ofText buffer with
      | none => .error (.error "number outside valid range")
      | some x => .ok (.real (if D.isZero x then D.zero else x))

def leadingMinus : List UInt8 → Bool × List UInt8
  | [] => (false, [])
  | c :: cp => if c = byte '-' then (true, cp) else (false, c :: cp)

def jsonLexNumber (buffer : List UInt8) : Except Stop (Token δ) := do
  let (s, cp) ← integerPart (leadingMinus buffer).2
  let (s, cp) ← fractionPart s cp
  let (s, cp) ← exponentPart s cp
  if cp ≠ [] then .error (.error "syntax error in number")
  else finishNumber D buffer (leadingMinus buffer).1 s

end Doubles

/-! ## Literals -/

/-- An exponent of the grammar: the letter, the sign and at least one digit. -/
structure Exponent where
  upper : Bool
  sign : Option Bool
  digits : List Digit
  digits_ne : digits ≠ []

/-- A number of the grammar: an optional minus, an integer without a zero at the front, an optional fraction, which is
there when it has digits, and an optional exponent. -/
structure Literal where
  negative : Bool
  integer : List Digit
  fraction : List Digit
  exponent : Option Exponent
  integer_ne : integer ≠ []
  leading : integer.head? = some 0 → integer = [0]

def digitByte (d : Digit) : UInt8 := UInt8.ofNat (48 + d)

def digitBytes (ds : List Digit) : List UInt8 := ds.map digitByte

def Exponent.text (e : Exponent) : List UInt8 :=
  byte (if e.upper then 'E' else 'e') ::
    (match e.sign with
      | none => []
      | some negative => [byte (if negative then '-' else '+')]) ++ digitBytes e.digits

variable (lit : Literal)

def Literal.fractionText : List UInt8 :=
  match lit.fraction with
  | [] => []
  | ds => byte '.' :: digitBytes ds

def Literal.exponentText : List UInt8 :=
  match lit.exponent with
  | none => []
  | some e => e.text

def Literal.text : List UInt8 :=
  (if lit.negative then [byte '-'] else []) ++
    (digitBytes lit.integer ++ (lit.fractionText ++ lit.exponentText))

def Exponent.toInt (e : Exponent) : Int :=
  if e.sign = some true then -(value e.digits : Int) else value e.digits

def Literal.power : Int :=
  match lit.exponent with
  | none => 0
  | some e => e.toInt

def Literal.digits : List Digit := lit.integer ++ lit.fraction

def Literal.value (lit : Literal) : ℚ :=
  (if lit.negative then -1 else 1) *
    (Decimal.value lit.digits * (10 : ℚ) ^ (lit.power - lit.fraction.length))

/-- An integer token is made exactly for the integers of 64 bits, with their value, and no `int` overflows. -/
structure Literal.ReadExactly {δ : Type} (D : Doubles δ) (lit : Literal) : Prop where
  safe : jsonLexNumber D lit.text ≠ .error .overflow
  exact (v : Int) : jsonLexNumber D lit.text = .ok (.integer v) ↔ lit.value = v ∧ SignedWord.Fits v

end LinkerOvs.Json
