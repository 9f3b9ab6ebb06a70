import Ns3Blockchain.Model.Machine

/-! # `internal/itoa.h`

The functions return the characters they store before `end`.  None of their
divisions and shifts leaves the range of its type, so the values are naturals.
-/

namespace Ns3Blockchain

/-- `int64_t`. -/
abbrev CInt64 := Library.BoundedInt (-9223372036854775808) 9223372036854775807

/-- Conversion of an unsigned 64-bit value to `int64_t`, modulo `2^64`. -/
def CInt64.ofUInt64 (n : UInt64) : CInt64 :=
  if small : n.toNat ≤ 9223372036854775807 then
    ⟨n.toNat, by omega, by omega⟩
  else
    ⟨(n.toNat : Int) - 18446744073709551616, by omega, by have := n.toNat_lt; omega⟩

namespace Rapidjson

/-- `GetDigitsLut()`. -/
def digitsLut : List Char :=
  [
    '0', '0', '0', '1', '0', '2', '0', '3', '0', '4',
    '0', '5', '0', '6', '0', '7', '0', '8', '0', '9',
    '1', '0', '1', '1', '1', '2', '1', '3', '1', '4',
    '1', '5', '1', '6', '1', '7', '1', '8', '1', '9',
    '2', '0', '2', '1', '2', '2', '2', '3', '2', '4',
    '2', '5', '2', '6', '2', '7', '2', '8', '2', '9',
    '3', '0', '3', '1', '3', '2', '3', '3', '3', '4',
    '3', '5', '3', '6', '3', '7', '3', '8', '3', '9',
    '4', '0', '4', '1', '4', '2', '4', '3', '4', '4',
    '4', '5', '4', '6', '4', '7', '4', '8', '4', '9',
    '5', '0', '5', '1', '5', '2', '5', '3', '5', '4',
    '5', '5', '5', '6', '5', '7', '5', '8', '5', '9',
    '6', '0', '6', '1', '6', '2', '6', '3', '6', '4',
    '6', '5', '6', '6', '6', '7', '6', '8', '6', '9',
    '7', '0', '7', '1', '7', '2', '7', '3', '7', '4',
    '7', '5', '7', '6', '7', '7', '7', '8', '7', '9',
    '8', '0', '8', '1', '8', '2', '8', '3', '8', '4',
    '8', '5', '8', '6', '8', '7', '8', '8', '8', '9',
    '9', '0', '9', '1', '9', '2', '9', '3', '9', '4',
    '9', '5', '9', '6', '9', '7', '9', '8', '9', '9'
  ]

/-- `cDigitsLut[i]`. -/
def lut (i : Nat) : Char := digitsLut.getD i '0'

/-- `if (value >= bound) *buffer++ = c`. -/
def putFrom (bound value : Nat) (c : Char) : Str := if bound ≤ value then [c] else []

/-- The eight stores of a `v` below `10^8`, which stand in `u32toa` once and in
    `u64toa` three times. -/
def putEight (v : Nat) : Str :=
  let b := v / 10000
  let c := v % 10000
  let d1 := (b / 100) <<< 1
  let d2 := (b % 100) <<< 1
  let d3 := (c / 100) <<< 1
  let d4 := (c % 100) <<< 1
  [lut d1, lut (d1 + 1), lut d2, lut (d2 + 1), lut d3, lut (d3 + 1), lut d4, lut (d4 + 1)]

/-- The first two branches of `u32toa`, which stand in `u64toa` again. -/
def putSmall (value : Nat) : Str :=
  if value < 10000 then
    let d1 := (value / 100) <<< 1
    let d2 := (value % 100) <<< 1
    putFrom 1000 value (lut d1) ++ putFrom 100 value (lut (d1 + 1)) ++
      putFrom 10 value (lut d2) ++ [lut (d2 + 1)]
  else
    -- value = bbbbcccc
    let b := value / 10000
    let c := value % 10000
    let d1 := (b / 100) <<< 1
    let d2 := (b % 100) <<< 1
    let d3 := (c / 100) <<< 1
    let d4 := (c % 100) <<< 1
    putFrom 10000000 value (lut d1) ++ putFrom 1000000 value (lut (d1 + 1)) ++
      putFrom 100000 value (lut d2) ++ [lut (d2 + 1)] ++
      [lut d3, lut (d3 + 1), lut d4, lut (d4 + 1)]

/-- `static_cast<char>('0' + static_cast<char>(a))`. -/
def asciiDigit (a : Nat) : Char := Char.ofNat (48 + a)

def u32toa (value : UInt32) : Str :=
  let value := value.toNat
  if value < 100000000 then
    putSmall value
  else
    -- value = aabbbbcccc in decimal
    let a := value / 100000000
    let value := value % 100000000
    let i := a <<< 1
    (if 10 ≤ a then [lut i, lut (i + 1)] else [asciiDigit a]) ++ putEight value

def i32toa (value : CInt) : Str :=
  let u := UInt32.ofInt value.val
  if value.val < 0 then '-' :: u32toa (~~~u + 1) else u32toa u

def u64toa (value : UInt64) : Str :=
  let kTen8 := 100000000
  let kTen16 := kTen8 * kTen8
  let value := value.toNat
  if value < kTen8 then
    putSmall value
  else if value < kTen16 then
    let v0 := value / kTen8
    let v1 := value % kTen8
    let b0 := v0 / 10000
    let c0 := v0 % 10000
    let d1 := (b0 / 100) <<< 1
    let d2 := (b0 % 100) <<< 1
    let d3 := (c0 / 100) <<< 1
    let d4 := (c0 % 100) <<< 1
    putFrom (kTen8 * 10000000) value (lut d1) ++ putFrom (kTen8 * 1000000) value (lut (d1 + 1)) ++
      putFrom (kTen8 * 100000) value (lut d2) ++ putFrom (kTen8 * 10000) value (lut (d2 + 1)) ++
      putFrom (kTen8 * 1000) value (lut d3) ++ putFrom (kTen8 * 100) value (lut (d3 + 1)) ++
      putFrom (kTen8 * 10) value (lut d4) ++ [lut (d4 + 1)] ++ putEight v1
  else
    let a := value / kTen16
    let value := value % kTen16
    let leading :=
      if a < 10 then
        [asciiDigit a]
      else if a < 100 then
        let i := a <<< 1
        [lut i, lut (i + 1)]
      else if a < 1000 then
        let i := (a % 100) <<< 1
        [asciiDigit (a / 100), lut i, lut (i + 1)]
      else
        let i := (a / 100) <<< 1
        let j := (a % 100) <<< 1
        [lut i, lut (i + 1), lut j, lut (j + 1)]
    leading ++ putEight (value / kTen8) ++ putEight (value % kTen8)

def i64toa (value : CInt64) : Str :=
  let u := UInt64.ofInt value.val
  if value.val < 0 then '-' :: u64toa (~~~u + 1) else u64toa u

end Rapidjson

end Ns3Blockchain
