import SeaTunnel.Jdbc.Dialect
import SeaTunnel.Lib.Calendar
import SeaTunnel.Lib.Utf8

namespace SeaTunnel.Jdbc.Value

open Lib Calendar
open Text (toBytes parseSigned parseUnsigned)
open Utf8 (lossy)

variable {Dec J : Type}

/-- A value of a row; floats by their bits, decimals and JSON documents as they are kept elsewhere. -/
inductive Field (Dec J : Type)
  | null
  | bool (b : Bool)
  | int8 (v : Int8) | int16 (v : Int16) | int32 (v : Int32) | int64 (v : Int64)
  | uint8 (v : UInt8) | uint16 (v : UInt16) | uint32 (v : UInt32) | uint64 (v : UInt64)
  | float32 (bits : UInt32) | float64 (bits : UInt64)
  | decimal (d : Dec)
  | string (s : String)
  | bytes (b : List UInt8)
  | json (j : J)
  | date (d : NaiveDate)
  | time (t : NaiveTime)
  | dateTime (dt : NaiveDateTime)
  | timestampTz (utc : NaiveDateTime)
  | duration (ns : Int64)
  | array (items : List (Field Dec J))
  | row (fields : List (Field Dec J))

inductive SqlValue
  | null
  | bool (b : Bool)
  | int (v : Int64)
  | uint (v : UInt64)
  | float (bits : UInt64)
  | str (s : String)
  | bytes (b : List UInt8)
  | date (d : NaiveDate)
  | time (t : NaiveTime)
  | dateTime (dt : NaiveDateTime)
  | timestampTz (utc : NaiveDateTime)
  deriving DecidableEq

inductive MysqlValue
  | null
  | bytes (b : List UInt8)
  | int (v : Int64)
  | uint (v : UInt64)
  | float (bits : UInt32)
  | double (bits : UInt64)
  | date (year : UInt16) (month day hour minute second : UInt8) (micro : UInt32)
  | time (negative : Bool) (days : UInt32) (hour minute second : UInt8) (micro : UInt32)

/-- Conversions of floats, and the texts of decimals, documents, times and debug output. -/
structure Conversions (Dec J : Type) where
  f32ToF64 : UInt32 → UInt64
  f64ToF32 : UInt64 → UInt32
  i64ToF32 : Int64 → UInt32
  i64ToF64 : Int64 → UInt64
  decimalText : Dec → String
  jsonText : J → String
  debugText : Field Dec J → String
  /-- An array of texts and nulls. -/
  scalarsText : List (Option String) → String
  toLowercase : String → String
  parseF32 : String → Option UInt32
  parseF64 : String → Option UInt64
  parseDecimal : String → Option Dec
  parseJson : String → Option J
  parseDate : String → Option NaiveDate
  /-- `%H:%M:%S%.f`, and `%H:%M:%S` behind it. -/
  parseTime : String → Option NaiveTime
  /-- A date and a time, or a date at midnight. -/
  parseNaiveDatetime : String → Option NaiveDateTime
  parseRfc3339 : String → Option NaiveDateTime

section ToSql

variable (conversions : Conversions Dec J)

def fieldToJsonScalar : Field Dec J → Option String
  | .null | .row _ | .array _ => none
  | other => some (conversions.debugText other)

def fieldToSqlValue : Field Dec J → SqlValue
  | .null => .null
  | .bool b => .bool b
  | .int8 v => .int v.toInt64
  | .int16 v => .int v.toInt64
  | .int32 v => .int v.toInt64
  | .int64 v => .int v
  | .uint8 v => .uint v.toUInt64
  | .uint16 v => .uint v.toUInt64
  | .uint32 v => .uint v.toUInt64
  | .uint64 v => .uint v
  | .float32 v => .float (conversions.f32ToF64 v)
  | .float64 v => .float v
  | .decimal d => .str (conversions.decimalText d)
  | .string s => .str s
  | .bytes b => .bytes b
  | .json j => .str (conversions.jsonText j)
  | .date d => .date d
  | .time t => .time t
  | .dateTime dt => .dateTime dt
  | .timestampTz ts => .timestampTz ts
  | .duration ns => .int ns
  | .array items => .str (conversions.scalarsText (items.map (fieldToJsonScalar conversions)))
  | .row fields => .str (conversions.scalarsText (fields.map (fieldToJsonScalar conversions)))

end ToSql

section OfSql

variable (conversions : Conversions Dec J)

def signedOr (width : ℕ) (make : ℤ → Field Dec J) (s : String) : Field Dec J :=
  ((parseSigned width s.toList).map make).getD (.string s)

def unsignedOr (width : ℕ) (make : ℕ → Field Dec J) (s : String) : Field Dec J :=
  ((parseUnsigned width s.toList).map make).getD (.string s)

def parseBool (s : String) : Field Dec J :=
  if conversions.toLowercase s ∈ ["true", "t", "1", "yes"] then .bool true
  else if conversions.toLowercase s ∈ ["false", "f", "0", "no"] then .bool false
  else .string s

def parseTextToField (s : String) : ColumnType → Field Dec J
  | .bool => parseBool conversions s
  | .int8 => signedOr 8 (.int8 ∘ Int8.ofInt) s
  | .int16 => signedOr 16 (.int16 ∘ Int16.ofInt) s
  | .int32 => signedOr 32 (.int32 ∘ Int32.ofInt) s
  | .int64 => signedOr 64 (.int64 ∘ Int64.ofInt) s
  | .uint8 => unsignedOr 8 (.uint8 ∘ UInt8.ofNat) s
  | .uint16 => unsignedOr 16 (.uint16 ∘ UInt16.ofNat) s
  | .uint32 => unsignedOr 32 (.uint32 ∘ UInt32.ofNat) s
  | .uint64 => unsignedOr 64 (.uint64 ∘ UInt64.ofNat) s
  | .float32 => ((conversions.parseF32 s).map .float32).getD (.string s)
  | .float64 => ((conversions.parseF64 s).map .float64).getD (.string s)
  | .decimal _ _ => ((conversions.parseDecimal s).map .decimal).getD (.string s)
  | .json => ((conversions.parseJson s).map .json).getD (.string s)
  | .date => ((conversions.parseDate s).map .date).getD (.string s)
  | .time => ((conversions.parseTime s).map .time).getD (.string s)
  | .dateTime => ((conversions.parseNaiveDatetime s).map .dateTime).getD (.string s)
  | .timestampTz =>
    (((conversions.parseRfc3339 s).or (conversions.parseNaiveDatetime s)).map .timestampTz).getD (.string s)
  | .duration => signedOr 64 (.duration ∘ Int64.ofInt) s
  | .array _ | .map _ _ => .string s
  | .string | .bytes | .nullable _ => .string s

def intToField (v : Int64) : ColumnType → Field Dec J
  | .int8 => .int8 v.toInt8
  | .int16 => .int16 v.toInt16
  | .int32 => .int32 v.toInt32
  | .uint8 => .uint8 v.toUInt64.toUInt8
  | .uint16 => .uint16 v.toUInt64.toUInt16
  | .uint32 => .uint32 v.toUInt64.toUInt32
  | .uint64 => .uint64 v.toUInt64
  | .float32 => .float32 (conversions.i64ToF32 v)
  | .float64 => .float64 (conversions.i64ToF64 v)
  | _ => .int64 v

def sqlValueToField (value : SqlValue) (columnType : ColumnType) : Field Dec J :=
  match value with
  | .null => .null
  | .bool b => .bool b
  | .int v => intToField conversions v columnType
  | .uint v => .uint64 v
  | .float v => if columnType = .float32 then .float32 (conversions.f64ToF32 v) else .float64 v
  | .bytes b => if columnType = .string then .string (String.ofList (lossy b)) else .bytes b
  | .date d => .date d
  | .time t => .time t
  | .dateTime dt => .dateTime dt
  | .timestampTz ts => .timestampTz ts
  | .str s => parseTextToField conversions s columnType

end OfSql

section Mysql

def mysqlDateTime (dt : NaiveDateTime) : MysqlValue :=
  .date (UInt16.ofNat dt.date.year.natAbs) (UInt8.ofNat dt.date.month) (UInt8.ofNat dt.date.day)
    (UInt8.ofNat dt.time.hour) (UInt8.ofNat dt.time.minute) (UInt8.ofNat dt.time.second)
    (UInt32.ofNat (dt.time.nanosecond / 1000))

def toMysql : SqlValue → MysqlValue
  | .null => .null
  | .bool b => .int (if b then 1 else 0)
  | .int v => .int v
  | .uint v => .uint v
  | .float v => .double v
  | .str s => .bytes (toBytes s.toList)
  | .bytes b => .bytes b
  | .date d => .date (UInt16.ofNat d.year.natAbs) (UInt8.ofNat d.month) (UInt8.ofNat d.day) 0 0 0 0
  | .time t =>
    .time false 0 (UInt8.ofNat t.hour) (UInt8.ofNat t.minute) (UInt8.ofNat t.second) (UInt32.ofNat (t.nanosecond / 1000))
  | .dateTime dt => mysqlDateTime dt
  | .timestampTz utc => mysqlDateTime utc

variable (conversions : Conversions Dec J)

def mysqlValueToSql : MysqlValue → SqlValue
  | .null => .null
  | .int v => .int v
  | .uint v => .uint v
  | .float v => .float (conversions.f32ToF64 v)
  | .double v => .float v
  | .bytes b => .bytes b
  | .date y m d h mi s us =>
    match NaiveDate.fromYmdOpt y.toNat m.toNat d.toNat with
    | some date =>
      let time := (NaiveTime.fromHmsMicroOpt h.toNat mi.toNat s.toNat us.toNat).getD .midnight
      if (h, mi, s, us) = (0, 0, 0, 0) then .date date else .dateTime ⟨date, time⟩
    | none => .null
  | .time neg d h m s us =>
    let totalSecs := d.toUInt64 * 86400 + h.toUInt64 * 3600 + m.toUInt64 * 60 + s.toUInt64
    if neg then .int (-totalSecs.toInt64 * 1000000000 - us.toUInt64.toInt64 * 1000)
    else .time ((NaiveTime.fromHmsMicroOpt h.toNat m.toNat s.toNat us.toNat).getD .midnight)

end Mysql

end SeaTunnel.Jdbc.Value
