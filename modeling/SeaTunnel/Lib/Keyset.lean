import Mathlib.Data.List.Nodup
import SeaTunnel.Lib.SortedBy

namespace SeaTunnel.Lib.Keyset

variable {κ ν : Type} [LinearOrder κ]

section Paging

variable (key : ν → κ) (cursorOf : ν → Option κ) (size : ℕ) (values : List ν)

inductive Paged : κ → List ν → Prop
  | done (cursor : κ) (hnone : (values.filter fun v ↦ cursor < key v) = []) : Paged cursor []
  | more (cursor : κ) (last : ν) (rest : List ν)
      (hlast : ((values.filter fun v ↦ cursor < key v).take size).getLast? = some last)
      (hrest : Paged ((cursorOf last).getD cursor) rest) :
      Paged cursor ((values.filter fun v ↦ cursor < key v).take size ++ rest)

/-- The cursor that is taken from a value parts the values up to it from those behind it. -/
def Parts (v : ν) : Prop := ∃ cursor, cursorOf v = some cursor ∧ ∀ w ∈ values, cursor < key w ↔ key v < key w

/-- The last value of each page, from the `start` on, parts the values. -/
def PartsFrom (start : ℕ) : Prop :=
  ∀ i (hi : i < values.length), start ≤ i → (size ∣ i + 1 ∨ i + 1 = values.length) → Parts key cursorOf values values[i]

end Paging

section Sorted

variable {key : ν → κ} {cursorOf : ν → Option κ} {size start : ℕ} {values : List ν} {cursor : κ}
  (hsorted : values.Pairwise fun v w ↦ key v < key w)
include hsorted

theorem exists_drop (cursor : κ) : ∃ j, (values.filter fun v ↦ cursor < key v) = values.drop j := by
  induction hsorted with
  | nil => exact ⟨0, rfl⟩
  | @cons v values hv hsorted ih =>
    by_cases hlt : cursor < key v
    · refine ⟨0, List.filter_eq_self.mpr fun w hw ↦ decide_eq_true ?_⟩
      rcases List.mem_cons.mp hw with rfl | hw
      · exact hlt
      · exact hlt.trans (hv w hw)
    · obtain ⟨j, hj⟩ := ih
      refine ⟨j + 1, ?_⟩
      rw [List.filter_cons_of_neg (by simpa using hlt), hj, List.drop_succ_cons]

theorem drop_eq_of_head {j : ℕ} {v : ν} (hj : (values.drop j).head? = some v) (hstart : (values.drop start).head? = some v) :
    values.drop j = values.drop start := by
  rw [List.head?_drop] at hj hstart
  obtain ⟨hjlt, rfl⟩ := List.getElem?_eq_some_iff.mp hj
  obtain ⟨hslt, heq⟩ := List.getElem?_eq_some_iff.mp hstart
  have hnodup : values.Nodup := hsorted.imp fun h heq ↦ (heq ▸ h).false
  rw [hnodup.getElem_inj_iff.mp heq]

theorem filter_eq_drop_succ {i : ℕ} (hi : i < values.length) :
    (values.filter fun w ↦ key values[i] < key w) = values.drop (i + 1) := by
  refine (SortedBy.drop_eq_filter hsorted ?_).symm
  rw [List.getLast?_eq_getElem?, List.length_take, Nat.min_eq_left (by omega), Nat.add_sub_cancel,
    List.getElem?_take_of_lt (Nat.lt_succ_self i), List.getElem?_eq_getElem hi]

theorem parts_iff {i : ℕ} (hi : i < values.length) :
    Parts key cursorOf values values[i] ↔
      ∃ cursor, cursorOf values[i] = some cursor ∧ (values.filter fun w ↦ cursor < key w) = values.drop (i + 1) := by
  refine exists_congr fun cursor ↦ and_congr_right fun _ ↦ ?_
  rw [← filter_eq_drop_succ hsorted hi]
  constructor
  · exact fun h ↦ List.filter_congr fun w hw ↦ decide_eq_decide.mpr (h w hw)
  · intro heq w hw
    have hmem := congrArg (w ∈ ·) heq
    simpa [hw] using hmem

end Sorted

section Pages

variable {size start stop : ℕ} {values : List ν} {v : ν}

theorem page_end (hstart : size ∣ start ∨ start = values.length) (hstop : stop = min (start + size) values.length)
    {i : ℕ} (hi : i < values.length) (hle : start ≤ i) (hend : size ∣ i + 1 ∨ i + 1 = values.length) :
    i + 1 = stop ∨ stop ≤ i := by
  rcases hstart with ⟨a, rfl⟩ | rfl
  · rcases hend with ⟨b, hb⟩ | hend
    · have hab : a < b := by
        by_contra hge
        have hmul := Nat.mul_le_mul_left size (Nat.le_of_not_lt hge)
        omega
      have hmul := Nat.mul_le_mul_left size (Nat.succ_le_of_lt hab)
      rw [Nat.mul_succ] at hmul
      omega
    · omega
  · omega

theorem page_start (hstart : size ∣ start ∨ start = values.length) (hstop : stop = min (start + size) values.length) :
    size ∣ stop ∨ stop = values.length := by
  rcases hstart with hdvd | rfl
  · by_cases hlt : start + size ≤ values.length
    · obtain rfl : stop = start + size := by omega
      exact .inl ((Nat.dvd_add_right hdvd).mpr (Nat.dvd_refl size))
    · exact .inr (by omega)
  · exact .inr (by omega)

theorem take_append_page (hstop : stop = min (start + size) values.length) :
    (values.drop start).take size ++ values.drop stop = values.drop start := by
  have hrest : values.drop stop = (values.drop start).drop size := by
    rw [List.drop_drop]
    by_cases hlt : start + size ≤ values.length
    · rw [hstop, Nat.min_eq_left hlt]
    · rw [hstop, Nat.min_eq_right (by omega), List.drop_length, List.drop_eq_nil_of_le (by omega)]
  rw [hrest, List.take_append_drop]

theorem getLast_page (hsize : 0 < size) (hle : start < values.length)
    (hstop : stop = min (start + size) values.length) :
    ((values.drop start).take size).getLast? = values[stop - 1]? := by
  rw [List.getLast?_eq_getElem?, List.length_take, List.length_drop, List.getElem?_take_of_lt (by omega),
    List.getElem?_drop]
  congr 1
  omega

end Pages

section Sorted

variable {key : ν → κ} {cursorOf : ν → Option κ} {size : ℕ} {values : List ν} {cursor : κ}
  (hsorted : values.Pairwise fun v w ↦ key v < key w) (hsize : 0 < size)
include hsorted hsize

theorem Paged.parts {rest : List ν} (h : Paged key cursorOf size values cursor rest) :
    ∀ start ≤ values.length, (size ∣ start ∨ start = values.length) → rest = values.drop start →
      (values.filter fun v ↦ cursor < key v) = values.drop start ∧ PartsFrom key cursorOf size values start := by
  induction h with
  | done cursor hnone =>
    intro start hle hstart hrest
    rw [hnone]
    refine ⟨hrest, fun i hi hge _ ↦ ?_⟩
    have hlength := congrArg List.length hrest
    rw [List.length_nil, List.length_drop] at hlength
    omega
  | more cursor last rest hlast hpaged ih =>
    intro start hle hstart hrest
    -- the page begins where the values that are left begin
    obtain ⟨j, hj⟩ := exists_drop hsorted cursor
    have hfilter : (values.filter fun v ↦ cursor < key v) = values.drop start := by
      rw [hj] at hlast hrest ⊢
      cases hpage : values.drop j with
      | nil =>
        rw [hpage, List.take_nil] at hlast
        cases hlast
      | cons v page =>
        rw [hpage, show size = size - 1 + 1 by omega, List.take_succ_cons, List.cons_append] at hrest
        rw [← hpage]
        exact drop_eq_of_head hsorted (v := v) (by rw [hpage]; rfl) (by rw [← hrest]; rfl)
    refine ⟨hfilter, ?_⟩
    rw [hfilter] at hlast hrest
    obtain ⟨stop, hstop⟩ : ∃ stop, stop = min (start + size) values.length := ⟨_, rfl⟩
    have hlt : start < values.length := by
      by_contra hge
      rw [List.drop_eq_nil_of_le (by omega), List.take_nil] at hlast
      cases hlast
    have hlater : rest = values.drop stop := List.append_cancel_left (hrest.trans (take_append_page hstop).symm)
    obtain ⟨hnext, hparts⟩ := ih stop (by omega) (page_start hstart hstop) hlater
    intro i hi hge hend
    rcases page_end hstart hstop hi hge hend with hi' | hi'
    · rw [getLast_page hsize hlt hstop, ← hi', Nat.add_sub_cancel, List.getElem?_eq_getElem hi, Option.some.injEq] at hlast
      refine (parts_iff hsorted hi).mpr ?_
      rw [hlast, hi', ← hnext]
      cases hcursor : cursorOf last with
      | some c => exact ⟨c, rfl, rfl⟩
      | none =>
        -- a cursor that stays does not get behind the page
        rw [hcursor, Option.getD_none, hfilter] at hnext
        have hlength := congrArg List.length hnext
        rw [List.length_drop, List.length_drop] at hlength
        omega
    · exact hparts i hi hi' hend

theorem PartsFrom.paged {start : ℕ} (hle : start ≤ values.length) (hstart : size ∣ start ∨ start = values.length)
    (hfilter : (values.filter fun v ↦ cursor < key v) = values.drop start)
    (hparts : PartsFrom key cursorOf size values start) : Paged key cursorOf size values cursor (values.drop start) := by
  induction hleft : values.length - start using Nat.strongRecOn generalizing start cursor with
  | _ left ih =>
    subst hleft
    by_cases hlt : start < values.length
    · obtain ⟨stop, hstop⟩ : ∃ stop, stop = min (start + size) values.length := ⟨_, rfl⟩
      have hlast := getLast_page hsize hlt hstop
      rw [List.getElem?_eq_getElem (by omega), ← hfilter] at hlast
      have hend := page_start hstart hstop
      obtain ⟨c, hc, hnext⟩ := (parts_iff hsorted (by omega)).mp
        (hparts (stop - 1) (by omega) (by omega) (by rwa [Nat.sub_add_cancel (by omega)]))
      rw [Nat.sub_add_cancel (by omega)] at hnext
      have hrest := ih (values.length - stop) (by omega) (by omega) hend hnext
        (fun i hi hge ↦ hparts i hi (by omega)) rfl
      have hnextPage : Paged key cursorOf size values ((cursorOf values[stop - 1]).getD cursor) (values.drop stop) := by
        rwa [hc]
      have hpage := Paged.more cursor values[stop - 1] (values.drop stop) hlast hnextPage
      rwa [hfilter, take_append_page hstop] at hpage
    · rw [List.drop_eq_nil_of_le (Nat.le_of_not_lt hlt)] at hfilter ⊢
      exact .done cursor hfilter

theorem paged_iff : Paged key cursorOf size values cursor values ↔
    (∀ v ∈ values, cursor < key v) ∧ PartsFrom key cursorOf size values 0 := by
  constructor
  · intro h
    obtain ⟨hfilter, hparts⟩ := h.parts hsorted hsize 0 (Nat.zero_le _) (.inl (Nat.dvd_zero size)) rfl
    exact ⟨fun v hv ↦ of_decide_eq_true (List.filter_eq_self.mp hfilter v hv), hparts⟩
  · rintro ⟨hfirst, hparts⟩
    have hfilter := List.filter_eq_self.mpr fun v hv ↦ decide_eq_true (hfirst v hv)
    exact hparts.paged hsorted hsize (Nat.zero_le _) (.inl (Nat.dvd_zero size)) hfilter

end Sorted

end SeaTunnel.Lib.Keyset
