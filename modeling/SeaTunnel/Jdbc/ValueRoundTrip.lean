import SeaTunnel.Jdbc.Value

namespace SeaTunnel.Jdbc.Value

open Lib Calendar
open Text (toBytes)
open Utf8 (lossy)

variable {Dec J : Type}

section Types

/-- The values of the scalar types, other than the floats: times in microseconds, in years of four digits. -/
inductive HasBase : ColumnType → Field Dec J → Prop
  | bool (b : Bool) : HasBase .bool (.bool b)
  | int8 (v : Int8) : HasBase .int8 (.int8 v)
  | int16 (v : Int16) : HasBase .int16 (.int16 v)
  | int32 (v : Int32) : HasBase .int32 (.int32 v)
  | int64 (v : Int64) : HasBase .int64 (.int64 v)
  | uint8 (v : UInt8) : HasBase .uint8 (.uint8 v)
  | uint16 (v : UInt16) : HasBase .uint16 (.uint16 v)
  | uint32 (v : UInt32) : HasBase .uint32 (.uint32 v)
  | uint64 (v : UInt64) : HasBase .uint64 (.uint64 v)
  | string (s : String) : HasBase .string (.string s)
  | bytes (b : List UInt8) : HasBase .bytes (.bytes b)
  | date (d : NaiveDate) (hd : 0 ≤ d.year ∧ d.year ≤ 9999) : HasBase .date (.date d)
  | time (t : NaiveTime) (ht : t.Microseconds) : HasBase .time (.time t)
  | dateTime (dt : NaiveDateTime) (hd : 0 ≤ dt.date.year ∧ dt.date.year ≤ 9999) (ht : dt.time.Microseconds) :
    HasBase .dateTime (.dateTime dt)
  | duration (ns : Int64) : HasBase .duration (.duration ns)

/-- A value of the type, or null where the type is nullable. -/
def HasType (columnType : ColumnType) (f : Field Dec J) : Prop :=
  HasBase columnType.unnested f ∨ (∃ inner, columnType = .nullable inner) ∧ f = .null

/-- The value comes back from its SQL value, and from its SQL value by way of the MySQL client. -/
structure RoundTrips (conversions : Conversions Dec J) (columnType : ColumnType) (f : Field Dec J) : Prop where
  direct : sqlValueToField conversions (fieldToSqlValue conversions f) columnType = f
  mysql : sqlValueToField conversions (mysqlValueToSql conversions (toMysql (fieldToSqlValue conversions f)))
    columnType = f

/-- Small signed integers and texts of types that are not nullable, integers of 64 bits, bytes, dates, times, and
dates with a time that is not midnight. -/
def Kept (columnType : ColumnType) : Field Dec J → Prop
  | .null | .int64 _ | .uint64 _ | .bytes _ | .date _ | .time _ => True
  | .int8 _ => columnType = .int8
  | .int16 _ => columnType = .int16
  | .int32 _ => columnType = .int32
  | .string _ => columnType = .string
  | .dateTime dt => dt.time ≠ .midnight
  | _ => False

end Types

section Client

variable (conversions : Conversions Dec J)

theorem fromYmdOpt_casts {d : NaiveDate} (hd : 0 ≤ d.year ∧ d.year ≤ 9999) :
    NaiveDate.fromYmdOpt (UInt16.ofNat d.year.natAbs).toNat (UInt8.ofNat d.month).toNat (UInt8.ofNat d.day).toNat =
      some d := by
  have hmonth := d.month_le
  have hday := d.day_le
  have hyear : ((d.year.natAbs % 2 ^ 16 : ℕ) : ℤ) = d.year := by omega
  rw [UInt16.toNat_ofNat', UInt8.toNat_ofNat', UInt8.toNat_ofNat', hyear, Nat.mod_eq_of_lt (by omega),
    Nat.mod_eq_of_lt (by omega), NaiveDate.fromYmdOpt_self]

theorem fromHmsMicroOpt_casts {t : NaiveTime} (ht : t.Microseconds) :
    NaiveTime.fromHmsMicroOpt (UInt8.ofNat t.hour).toNat (UInt8.ofNat t.minute).toNat (UInt8.ofNat t.second).toNat
      (UInt32.ofNat (t.nanosecond / 1000)).toNat = some t := by
  have hhour := t.valid.hour_lt
  have hminute := t.valid.minute_lt
  have hsecond := t.valid.second_lt
  have hnano := t.valid.nanosecond_lt
  rw [UInt8.toNat_ofNat', UInt8.toNat_ofNat', UInt8.toNat_ofNat', UInt32.toNat_ofNat', Nat.mod_eq_of_lt (by omega),
    Nat.mod_eq_of_lt (by omega), Nat.mod_eq_of_lt (by omega), Nat.mod_eq_of_lt (by omega),
    NaiveTime.fromHmsMicroOpt_self ht]

theorem mysql_date {d : NaiveDate} (hd : 0 ≤ d.year ∧ d.year ≤ 9999) :
    mysqlValueToSql conversions (toMysql (.date d)) = .date d := by
  simp only [toMysql, mysqlValueToSql, fromYmdOpt_casts hd, if_true]

theorem mysql_time {t : NaiveTime} (ht : t.Microseconds) :
    mysqlValueToSql conversions (toMysql (.time t)) = .time t := by
  simp only [toMysql, mysqlValueToSql, Bool.false_eq_true, if_false, fromHmsMicroOpt_casts ht, Option.getD_some]

theorem mysql_dateTime {dt : NaiveDateTime} (hd : 0 ≤ dt.date.year ∧ dt.date.year ≤ 9999) (ht : dt.time.Microseconds) :
    mysqlValueToSql conversions (toMysql (.dateTime dt)) =
      if dt.time = .midnight then .date dt.date else .dateTime dt := by
  have hhour := dt.time.valid.hour_lt
  have hminute := dt.time.valid.minute_lt
  have hsecond := dt.time.valid.second_lt
  have hnano := dt.time.valid.nanosecond_lt
  have hzero : (UInt8.ofNat dt.time.hour, UInt8.ofNat dt.time.minute, UInt8.ofNat dt.time.second,
      UInt32.ofNat (dt.time.nanosecond / 1000)) = (0, 0, 0, 0) ↔ dt.time = .midnight := by
    rw [NaiveTime.eq_midnight_iff ht, Prod.mk.injEq, Prod.mk.injEq, Prod.mk.injEq, ← UInt8.toNat_inj,
      ← UInt8.toNat_inj, ← UInt8.toNat_inj, ← UInt32.toNat_inj, UInt8.toNat_ofNat', UInt8.toNat_ofNat',
      UInt8.toNat_ofNat', UInt32.toNat_ofNat', Nat.mod_eq_of_lt (by omega), Nat.mod_eq_of_lt (by omega),
      Nat.mod_eq_of_lt (by omega), Nat.mod_eq_of_lt (by omega)]
    rfl
  simp only [toMysql, mysqlDateTime, mysqlValueToSql, fromYmdOpt_casts hd, fromHmsMicroOpt_casts ht, hzero,
    Option.getD_some]

theorem mysql_string (s : String) (columnType : ColumnType) :
    sqlValueToField conversions (mysqlValueToSql conversions (toMysql (.str s))) columnType =
      if columnType = .string then .string s else .bytes (toBytes s.toList) := by
  simp only [toMysql, mysqlValueToSql, sqlValueToField, Utf8.lossy_toBytes, String.ofList_toList]

end Client

section RoundTrip

variable {conversions : Conversions Dec J} {columnType : ColumnType} {f : Field Dec J}

theorem small_iff {v : Int64} {base : ColumnType} (hsql : fieldToSqlValue conversions f = .int v)
    (hread : intToField conversions v base = f) (hsmall : f ≠ .int64 v) (hbase : ∀ inner, base ≠ .nullable inner)
    (hct : columnType = base ∨ ∃ inner, columnType = .nullable inner) :
    RoundTrips conversions columnType f ↔ columnType = base := by
  constructor
  · intro h
    obtain hct | ⟨inner, rfl⟩ := hct
    · exact hct
    · have hdirect := h.direct
      rw [hsql] at hdirect
      exact absurd hdirect.symm hsmall
  · rintro rfl
    constructor
    · rw [hsql]
      exact hread
    · rw [hsql]
      exact hread

theorem base_roundTrips_iff {base : ColumnType} (hbase : HasBase base f)
    (hct : columnType = base ∨ ∃ inner, columnType = .nullable inner) :
    RoundTrips conversions columnType f ↔ Kept columnType f := by
  cases hbase with
  | bool b =>
    -- the client has no flags, and an integer is read as one
    refine iff_of_false (fun h ↦ ?_) id
    obtain rfl | ⟨inner, rfl⟩ := hct
    · cases h.mysql
    · cases h.mysql
  | int8 v => exact small_iff rfl (by rw [intToField, Int8.toInt8_toInt64]) nofun nofun hct
  | int16 v => exact small_iff rfl (by rw [intToField, Int16.toInt16_toInt64]) nofun nofun hct
  | int32 v => exact small_iff rfl (by rw [intToField, Int32.toInt32_toInt64]) nofun nofun hct
  | int64 v =>
    obtain rfl | ⟨inner, rfl⟩ := hct
    · exact iff_of_true ⟨rfl, rfl⟩ trivial
    · exact iff_of_true ⟨rfl, rfl⟩ trivial
  | uint8 v => exact iff_of_false (fun h ↦ by cases h.direct) id
  | uint16 v => exact iff_of_false (fun h ↦ by cases h.direct) id
  | uint32 v => exact iff_of_false (fun h ↦ by cases h.direct) id
  | uint64 v => exact iff_of_true ⟨rfl, rfl⟩ trivial
  | string s =>
    have hmysql := mysql_string conversions s columnType
    constructor
    · intro h
      by_contra hne
      have hneq : columnType ≠ .string := hne
      have hback := h.mysql
      rw [fieldToSqlValue, hmysql, if_neg hneq] at hback
      cases hback
    · rintro rfl
      exact ⟨rfl, hmysql.trans (if_pos rfl)⟩
  | bytes b =>
    have hread : columnType ≠ .string := by
      obtain rfl | ⟨inner, rfl⟩ := hct
      · nofun
      · nofun
    exact iff_of_true ⟨if_neg hread, if_neg hread⟩ trivial
  | date d hd =>
    refine iff_of_true ⟨rfl, ?_⟩ trivial
    rw [fieldToSqlValue, mysql_date conversions hd, sqlValueToField]
  | time t ht =>
    refine iff_of_true ⟨rfl, ?_⟩ trivial
    rw [fieldToSqlValue, mysql_time conversions ht, sqlValueToField]
  | dateTime dt hd ht =>
    have hmysql := mysql_dateTime conversions hd ht
    constructor
    · intro h hmidnight
      have hback := h.mysql
      rw [fieldToSqlValue, hmysql, if_pos hmidnight, sqlValueToField] at hback
      cases hback
    · intro hday
      refine ⟨rfl, ?_⟩
      rw [fieldToSqlValue, hmysql, if_neg hday, sqlValueToField]
  | duration ns =>
    refine iff_of_false (fun h ↦ ?_) id
    obtain rfl | ⟨inner, rfl⟩ := hct
    · cases h.direct
    · cases h.direct

theorem roundTrips_iff (conversions : Conversions Dec J) (columnType : ColumnType) (f : Field Dec J)
    (h : HasType columnType f) : RoundTrips conversions columnType f ↔ Kept columnType f := by
  obtain hbase | ⟨-, rfl⟩ := h
  · exact base_roundTrips_iff hbase columnType.eq_or_nullable
  · exact iff_of_true ⟨rfl, rfl⟩ trivial

end RoundTrip

section Example

def noConversions : Conversions Unit Unit where
  f32ToF64 _ := 0
  f64ToF32 _ := 0
  i64ToF32 _ := 0
  i64ToF64 _ := 0
  decimalText _ := ""
  jsonText _ := ""
  debugText _ := ""
  scalarsText _ := ""
  toLowercase s := s
  parseF32 _ := none
  parseF64 _ := none
  parseDecimal _ := none
  parseJson _ := none
  parseDate _ := none
  parseTime _ := none
  parseNaiveDatetime _ := none
  parseRfc3339 _ := none

def newYear : NaiveDateTime := ⟨⟨2024, 1, 1, by decide⟩, .midnight⟩

def noon : NaiveDateTime := ⟨newYear.date, ⟨12, 0, 0, 0, by decide⟩⟩

theorem noon_kept : RoundTrips noConversions .dateTime (.dateTime noon) :=
  (roundTrips_iff noConversions .dateTime (.dateTime noon) (.inl (.dateTime noon (by decide) rfl))).mpr
    (show noon.time ≠ .midnight by decide)

/-- A date with a time at midnight comes back as a date, and a small unsigned number as one of 64 bits. -/
theorem midnight_lost :
    HasType (.dateTime) (.dateTime newYear : Field Unit Unit) ∧ ¬RoundTrips noConversions .dateTime (.dateTime newYear) ∧
      HasType .uint8 (.uint8 1 : Field Unit Unit) ∧
      sqlValueToField noConversions (fieldToSqlValue noConversions (.uint8 1)) .uint8 = .uint64 1 := by
  refine ⟨.inl (.dateTime _ (by decide) rfl), fun h ↦ ?_, .inl (.uint8 1), rfl⟩
  cases h.mysql

end Example

end SeaTunnel.Jdbc.Value
