import SeaTunnel.Cdc.TiDbDecoder
import SeaTunnel.Lib.Checked
import SeaTunnel.Lib.Utf8

namespace SeaTunnel.Cdc.TiDb

open Lib Lib.Checked

inductive ColumnFlag
  | varint | uvarint | float32 | float64 | bytes | compactBytes | decimal | varintCompat | uvarintCompat | json | null
  | bytesLenEncoded
  deriving DecidableEq

namespace ColumnFlag

def all : List ColumnFlag :=
  [.varint, .uvarint, .float32, .float64, .bytes, .compactBytes, .decimal, .varintCompat, .uvarintCompat, .json, .null,
    .bytesLenEncoded]

def code : ColumnFlag → UInt8
  | .varint => 1
  | .uvarint => 2
  | .float32 => 3
  | .float64 => 4
  | .bytes => 5
  | .compactBytes => 6
  | .decimal => 8
  | .varintCompat => 9
  | .uvarintCompat => 10
  | .json => 11
  | .null => 12
  | .bytesLenEncoded => 13

def ofByte? (b : UInt8) : Option ColumnFlag := all.find? fun flag ↦ flag.code = b

theorem ofByte?_code (flag : ColumnFlag) : ofByte? flag.code = some flag := by
  cases flag <;> rfl

theorem code_of_ofByte? {b : UInt8} {flag : ColumnFlag} (h : ofByte? b = some flag) : flag.code = b := by
  have hcode := List.find?_some h
  exact of_decide_eq_true hcode

end ColumnFlag

section Chunk

/-- `bytes[start..]`. -/
def sliceFrom (bytes : List UInt8) (start : ℕ) : Checked (List UInt8) := ofRange (slice bytes start bytes.length)

/-- A sum of two `usize`. -/
def addUsize (n m : ℕ) : Checked ℕ := ofRange (if n + m < 2 ^ 64 then some (n + m) else none)

/-- The negation of an `i64`. -/
def negate (v : Int64) : Checked Int64 := ofRange (if v = Int64.minValue then none else some (-v))

def decodeUvarint : List UInt8 → Checked (UInt64 × ℕ)
  | [] => refuse "empty uvarint"
  | first :: rest =>
    if first = 252 then
      if rest.length < 2 then refuse "truncated uvarint len" else pure (fromBeBytes (rest.take 2), 3)
    else if first = 253 then
      if rest.length < 4 then refuse "truncated uvarint len" else pure (fromBeBytes (rest.take 4), 5)
    else if first = 254 then do
      let digits ← ofRange (slice (first :: rest) 1 9)
      pure (fromBeBytes digits, 9)
    else if first ≤ 250 then pure (first.toUInt64, 1)
    else refuse ("unsupported uvarint prefix " ++ toString first.toNat)

/-- Behind `0xFF` is the magnitude of a negative number. -/
def decodeVarint : List UInt8 → Checked (Int64 × ℕ)
  | [] => refuse "empty varint"
  | first :: rest =>
    if first = 0xFF then do
      let (u, n) ← decodeUvarint rest
      let v ← negate u.toInt64
      pure (v, n + 1)
    else do
      let (u, n) ← decodeUvarint (first :: rest)
      pure (u.toInt64, n)

/-- The bits of an `f64` that are the value of those of an `f32`. -/
def widenFloat (bits : UInt64) : UInt64 :=
  let sign := bits >>> 31 <<< 63
  let exponent := (bits >>> 23 &&& 0xFF).toNat
  let mantissa := (bits &&& 0x7FFFFF).toNat
  let magnitude :=
    if exponent = 0xFF then 0x7FF * 2 ^ 52 + mantissa * 2 ^ 29
    else if exponent ≠ 0 then (exponent + 896) * 2 ^ 52 + mantissa * 2 ^ 29
    else if mantissa = 0 then 0
    -- a subnormal number is normal in the wider format
    else (mantissa.log2 + 874) * 2 ^ 52 + (mantissa - 2 ^ mantissa.log2) * 2 ^ (52 - mantissa.log2)
  sign ||| UInt64.ofNat magnitude

variable (body : List UInt8) (i : ℕ)

def readBytes (truncated : String) : Checked (List UInt8 × ℕ) := do
  let (len, consumed) ← decodeUvarint (← sliceFrom body i)
  let stop ← addUsize (i + consumed) len.toNat
  if body.length < stop then refuse truncated
  else do
    let data ← ofRange (slice body (i + consumed) stop)
    pure (data, consumed + len.toNat)

def readFloat (width : ℕ) (truncated : String) : Checked (UInt64 × ℕ) :=
  if body.length < i + width then refuse truncated
  else do
    let digits ← ofRange (slice body i (i + width))
    pure (fromBeBytes digits, width)

def readColumn : ColumnFlag → Checked (ColumnValue × ℕ)
  | .null => pure (.null, 0)
  | .varint | .varintCompat => do
    let (v, consumed) ← decodeVarint (← sliceFrom body i)
    pure (.int v, consumed)
  | .uvarint | .uvarintCompat => do
    let (v, consumed) ← decodeUvarint (← sliceFrom body i)
    pure (.uint v, consumed)
  | .float32 => do
    let (bits, consumed) ← readFloat body i 4 "truncated float32"
    pure (.float (widenFloat bits), consumed)
  | .float64 => do
    let (bits, consumed) ← readFloat body i 8 "truncated float64"
    pure (.float bits, consumed)
  | .bytes | .compactBytes | .bytesLenEncoded => do
    let (data, consumed) ← readBytes body i "truncated bytes"
    pure (.bytes data, consumed)
  | .decimal =>
    if body.length ≤ i then refuse "truncated decimal"
    else do
      let (data, consumed) ← readBytes body i "truncated decimal data"
      pure (.text (String.ofList (Utf8.lossy data)), consumed)
  | .json => do
    let (data, consumed) ← readBytes body i "truncated json"
    pure (.json (String.ofList (Utf8.lossy data)), consumed)

def hexByte (b : UInt8) : String :=
  String.ofList (Nat.digitChar (b.toNat / 16) :: [Nat.digitChar (b.toNat % 16)])

def readRow (body : List UInt8) (i : ℕ) (columns : List ColumnValue) : Checked (List ColumnValue) :=
  if hi : i < body.length then
    match ColumnFlag.ofByte? body[i] with
    | some flag => do
      let (v, consumed) ← readColumn body (i + 1) flag
      readRow body (i + 1 + consumed) (columns ++ [v])
    | none => refuse ("unknown column flag " ++ hexByte body[i])
  else pure columns
termination_by body.length - i
decreasing_by omega

def decodeRowValue : List UInt8 → Checked (List ColumnValue)
  | [] => refuse "empty row value"
  | version :: body =>
    if version = 0x00 then readRow body 0 []
    else if version = 0x01 then do
      let (_, consumed) ← decodeVarint body
      let body ← sliceFrom body consumed
      readRow body 0 []
    else refuse ("unknown row version " ++ hexByte version)

end Chunk

example : Option.map Except.toOption (decodeRowValue [0, 12, 1, 0xFF, 7, 10, 252, 1, 2, 3, 0, 0, 0, 1, 11, 2, 0x7b, 0x7d]) =
    some (some [.null, .int (-7), .uint 258, .float 0x36A0000000000000, .json "\x7b\x7d"]) := by decide +kernel

end SeaTunnel.Cdc.TiDb
