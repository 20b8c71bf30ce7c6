import Mathlib.Data.Int.Notation
import Mathlib.Data.List.Basic

namespace SeaTunnel.Lib.Calendar

section Dates

def isLeap (year : ℤ) : Bool := year % 4 = 0 ∧ (year % 100 ≠ 0 ∨ year % 400 = 0)

def daysInMonth (year : ℤ) (month : ℕ) : ℕ :=
  if month = 2 then if isLeap year then 29 else 28
  else if month ∈ [4, 6, 9, 11] then 30 else 31

structure ValidDate (year : ℤ) (month day : ℕ) : Prop where
  year_mem : -262143 ≤ year ∧ year ≤ 262142
  month_mem : 1 ≤ month ∧ month ≤ 12
  day_mem : 1 ≤ day ∧ day ≤ daysInMonth year month

instance (year : ℤ) (month day : ℕ) : Decidable (ValidDate year month day) :=
  decidable_of_iff ((-262143 ≤ year ∧ year ≤ 262142) ∧ (1 ≤ month ∧ month ≤ 12) ∧ 1 ≤ day ∧ day ≤ daysInMonth year month)
    ⟨fun h ↦ ⟨h.1, h.2.1, h.2.2⟩, fun h ↦ ⟨h.year_mem, h.month_mem, h.day_mem⟩⟩

structure NaiveDate where
  year : ℤ
  month : ℕ
  day : ℕ
  valid : ValidDate year month day
  deriving DecidableEq

def NaiveDate.fromYmdOpt (year : ℤ) (month day : ℕ) : Option NaiveDate :=
  if h : ValidDate year month day then some ⟨year, month, day, h⟩ else none

theorem NaiveDate.fromYmdOpt_self (d : NaiveDate) : fromYmdOpt d.year d.month d.day = some d := dif_pos d.valid

theorem NaiveDate.month_le (d : NaiveDate) : d.month ≤ 12 := d.valid.month_mem.2

theorem NaiveDate.day_le (d : NaiveDate) : d.day ≤ 31 := by
  have hdays : daysInMonth d.year d.month ≤ 31 := by
    unfold daysInMonth
    split_ifs <;> decide
  exact Nat.le_trans d.valid.day_mem.2 hdays

end Dates

section Times

structure ValidTime (hour minute second nanosecond : ℕ) : Prop where
  hour_lt : hour < 24
  minute_lt : minute < 60
  second_lt : second < 60
  nanosecond_lt : nanosecond < 2000000000
  leap : 1000000000 ≤ nanosecond → second = 59

instance (hour minute second nanosecond : ℕ) : Decidable (ValidTime hour minute second nanosecond) :=
  decidable_of_iff (hour < 24 ∧ minute < 60 ∧ second < 60 ∧ nanosecond < 2000000000 ∧
      (1000000000 ≤ nanosecond → second = 59))
    ⟨fun h ↦ ⟨h.1, h.2.1, h.2.2.1, h.2.2.2.1, h.2.2.2.2⟩, fun h ↦ ⟨h.hour_lt, h.minute_lt, h.second_lt, h.nanosecond_lt, h.leap⟩⟩

structure NaiveTime where
  hour : ℕ
  minute : ℕ
  second : ℕ
  nanosecond : ℕ
  valid : ValidTime hour minute second nanosecond
  deriving DecidableEq

namespace NaiveTime

def midnight : NaiveTime := ⟨0, 0, 0, 0, by decide⟩

def fromHmsMicroOpt (hour minute second micro : ℕ) : Option NaiveTime :=
  if h : ValidTime hour minute second (micro * 1000) then some ⟨hour, minute, second, micro * 1000, h⟩ else none

variable (t : NaiveTime)

/-- The time has no parts of a microsecond. -/
def Microseconds : Prop := t.nanosecond % 1000 = 0

variable {t}

theorem fromHmsMicroOpt_self (h : t.Microseconds) :
    fromHmsMicroOpt t.hour t.minute t.second (t.nanosecond / 1000) = some t := by
  have hnano : t.nanosecond / 1000 * 1000 = t.nanosecond := Nat.div_mul_cancel (Nat.dvd_of_mod_eq_zero h)
  have hvalid : ValidTime t.hour t.minute t.second (t.nanosecond / 1000 * 1000) := hnano.symm ▸ t.valid
  rw [fromHmsMicroOpt, dif_pos hvalid]
  simp only [hnano]

theorem eq_midnight_iff (h : t.Microseconds) :
    t = midnight ↔ t.hour = 0 ∧ t.minute = 0 ∧ t.second = 0 ∧ t.nanosecond / 1000 = 0 := by
  obtain ⟨hour, minute, second, nanosecond, hvalid⟩ := t
  unfold Microseconds at h
  simp only [midnight, mk.injEq] at h ⊢
  omega

end NaiveTime

structure NaiveDateTime where
  date : NaiveDate
  time : NaiveTime
  deriving DecidableEq

end Times

end SeaTunnel.Lib.Calendar
