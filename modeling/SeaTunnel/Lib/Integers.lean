import Mathlib.Data.Nat.Bitwise
import Mathlib.Tactic.Ring

namespace SeaTunnel.Lib.Integers

section LittleEndian

/-- The lowest `width` bytes of a number, the lowest first. -/
def toLeBytes : ℕ → ℕ → List UInt8
  | 0, _ => []
  | width + 1, n => UInt8.ofNat n :: toLeBytes width (n / 256)

def fromLeBytes : List UInt8 → ℕ
  | [] => 0
  | b :: bytes => b.toNat + 256 * fromLeBytes bytes

theorem length_toLeBytes (width n : ℕ) : (toLeBytes width n).length = width := by
  induction width generalizing n with
  | zero => rfl
  | succ width ih => rw [toLeBytes, List.length_cons, ih]

theorem fromLeBytes_toLeBytes (width n : ℕ) : fromLeBytes (toLeBytes width n) = n % 256 ^ width := by
  induction width generalizing n with
  | zero => rw [toLeBytes, fromLeBytes, Nat.pow_zero, Nat.mod_one]
  | succ width ih =>
    rw [toLeBytes, fromLeBytes, ih, UInt8.toNat_ofNat', Nat.pow_succ' (n := width)]
    exact (Nat.mod_mul (x := n) (a := 256) (b := 256 ^ width)).symm

theorem toLeBytes_fromLeBytes (bytes : List UInt8) : toLeBytes bytes.length (fromLeBytes bytes) = bytes := by
  induction bytes with
  | nil => rfl
  | cons b bytes ih =>
    have hb := b.toNat_lt
    have hlow : UInt8.ofNat (b.toNat + 256 * fromLeBytes bytes) = b := by
      apply UInt8.toNat_inj.mp
      rw [UInt8.toNat_ofNat']
      omega
    have hhigh : (b.toNat + 256 * fromLeBytes bytes) / 256 = fromLeBytes bytes := by omega
    rw [List.length_cons, fromLeBytes, toLeBytes, hlow, hhigh, ih]

theorem fromLeBytes_lt (bytes : List UInt8) : fromLeBytes bytes < 256 ^ bytes.length := by
  induction bytes with
  | nil => exact Nat.one_pos
  | cons b bytes ih =>
    have hb := b.toNat_lt
    rw [fromLeBytes, List.length_cons, Nat.pow_succ]
    omega

end LittleEndian

section Bytes

theorem toNat_and_low (b : UInt8) : (b &&& 0x7F).toNat = b.toNat % 128 := by
  rw [UInt8.toNat_and]
  exact Nat.and_two_pow_sub_one_eq_mod b.toNat 7

theorem and_top_eq_zero_iff (b : UInt8) : b &&& 0x80 = 0 ↔ b.toNat < 128 := by
  have htop : (b &&& 0x80).toNat = (b.toNat.testBit 7).toNat * 2 ^ 7 := by
    rw [UInt8.toNat_and]
    exact Nat.and_two_pow b.toNat 7
  have hb := b.toNat_lt
  rw [← UInt8.toNat_inj, htop, Nat.testBit_eq_decide_div_mod_eq]
  change (decide (b.toNat / 128 % 2 = 1)).toNat * 128 = 0 ↔ _
  by_cases hlow : b.toNat < 128
  · have hzero : ¬b.toNat / 128 % 2 = 1 := by omega
    simp [hzero, hlow]
  · have hone : b.toNat / 128 % 2 = 1 := by omega
    simp [hone, hlow]

theorem toNat_low_or_top (val : UInt64) : ((val &&& 0x7F).toUInt8 ||| 0x80).toNat = val.toNat % 128 + 128 := by
  have hlow : (val &&& 0x7F).toUInt8.toNat = val.toNat % 128 := by
    have hmod : (val &&& 0x7F).toNat = val.toNat % 128 := by
      rw [UInt64.toNat_and]
      exact Nat.and_two_pow_sub_one_eq_mod val.toNat 7
    rw [UInt64.toNat_toUInt8, hmod]
    omega
  have hor := Nat.two_pow_add_eq_or_of_lt (Nat.mod_lt val.toNat (Nat.two_pow_pos 7)) 1
  rw [UInt8.toNat_or, hlow, Nat.or_comm]
  exact hor.symm.trans (Nat.add_comm _ _)

theorem toNat_shiftRight_seven (val : UInt64) : (val >>> 7).toNat = val.toNat / 128 := by
  rw [UInt64.toNat_shiftRight, Nat.shiftRight_eq_div_pow]
  rfl

theorem toNat_or_shiftLeft {result shift : UInt64} {b : UInt8} (hshift : shift.toNat < 64)
    (hresult : result.toNat < 2 ^ shift.toNat) (hfits : b.toNat % 128 * 2 ^ shift.toNat < 2 ^ 64) :
    (result ||| ((b &&& 0x7F).toUInt64 <<< shift)).toNat = result.toNat + b.toNat % 128 * 2 ^ shift.toNat := by
  rw [UInt64.toNat_or, UInt64.toNat_shiftLeft, UInt8.toNat_toUInt64, toNat_and_low, Nat.mod_eq_of_lt hshift,
    Nat.shiftLeft_eq, Nat.mod_eq_of_lt hfits, Nat.or_comm, Nat.mul_comm,
    ← Nat.two_pow_add_eq_or_of_lt hresult, Nat.add_comm]

end Bytes

def writeVarint (val : UInt64) : List UInt8 :=
  if 0x7F < val then ((val &&& 0x7F).toUInt8 ||| 0x80) :: writeVarint (val >>> 7)
  else [val.toUInt8]
termination_by val.toNat
decreasing_by
  have hval : (0x7F : UInt64).toNat < val.toNat := UInt64.lt_iff_toNat_lt.mp ‹_›
  change 127 < val.toNat at hval
  rw [toNat_shiftRight_seven]
  omega

def readVarintFrom : List UInt8 → UInt64 → UInt64 → ℕ → Option (UInt64 × ℕ)
  | [], _, _, _ => none
  | b :: bytes, result, shift, consumed =>
    let result := result ||| ((b &&& 0x7F).toUInt64 <<< shift)
    if b &&& 0x80 = 0 then some (result, consumed + 1)
    else readVarintFrom bytes result (shift + 7) (consumed + 1)

def readVarint (bytes : List UInt8) : Option (UInt64 × ℕ) := readVarintFrom bytes 0 0 0

theorem writeVarint_ne_nil (val : UInt64) : writeVarint val ≠ [] := by
  rw [writeVarint]
  split_ifs <;> simp

theorem readVarintFrom_writeVarint (val : UInt64) {result shift : UInt64} (consumed : ℕ) (rest : List UInt8)
    (hshift : shift.toNat < 64) (hresult : result.toNat < 2 ^ shift.toNat)
    (hfits : val.toNat * 2 ^ shift.toNat < 2 ^ 64) :
    readVarintFrom (writeVarint val ++ rest) result shift consumed =
      some (UInt64.ofNat (result.toNat + val.toNat * 2 ^ shift.toNat), consumed + (writeVarint val).length) := by
  induction val using writeVarint.induct generalizing result shift consumed with
  | case1 val hval ih =>
    have hmany : 127 < val.toNat := UInt64.lt_iff_toNat_lt.mp hval
    have hpow := Nat.two_pow_pos shift.toNat
    -- the rest of the bits fits above the seven of this byte
    have hsplit : val.toNat * 2 ^ shift.toNat =
        val.toNat % 128 * 2 ^ shift.toNat + val.toNat / 128 * 2 ^ (shift.toNat + 7) := by
      have hdiv := Nat.mod_add_div val.toNat 128
      calc val.toNat * 2 ^ shift.toNat = (val.toNat % 128 + 128 * (val.toNat / 128)) * 2 ^ shift.toNat := by rw [hdiv]
        _ = _ := by ring
    have hshift' : shift.toNat + 7 < 64 := by
      by_contra hge
      have hle : 2 ^ 64 ≤ 2 ^ (shift.toNat + 7) := Nat.pow_le_pow_right (by omega) (by omega)
      have hone : 1 * 2 ^ (shift.toNat + 7) ≤ val.toNat / 128 * 2 ^ (shift.toNat + 7) :=
        Nat.mul_le_mul_right _ (by omega)
      omega
    have hnext : (shift + 7).toNat = shift.toNat + 7 := by
      rw [UInt64.toNat_add]
      change (shift.toNat + 7) % 2 ^ 64 = _
      omega
    have hlow : ((val &&& 0x7F).toUInt8 ||| 0x80).toNat % 128 = val.toNat % 128 := by
      rw [toNat_low_or_top]
      omega
    have hor := toNat_or_shiftLeft (b := (val &&& 0x7F).toUInt8 ||| 0x80) hshift hresult (by rw [hlow]; omega)
    rw [hlow] at hor
    have hmore : ¬((val &&& 0x7F).toUInt8 ||| 0x80) &&& 0x80 = 0 := by
      rw [and_top_eq_zero_iff, toNat_low_or_top]
      omega
    have hless : (result ||| ((((val &&& 0x7F).toUInt8 ||| 0x80) &&& 0x7F).toUInt64 <<< shift)).toNat <
        2 ^ (shift + 7).toNat := by
      rw [hor, hnext, Nat.pow_add]
      have hle : val.toNat % 128 * 2 ^ shift.toNat ≤ 127 * 2 ^ shift.toNat := Nat.mul_le_mul_right _ (by omega)
      omega
    have hrest := ih (consumed + 1) (by rw [hnext]; exact hshift') hless
      (by rw [hnext, toNat_shiftRight_seven]; omega)
    rw [hor, hnext, toNat_shiftRight_seven, Nat.add_assoc, ← hsplit] at hrest
    rw [writeVarint, if_pos hval, List.cons_append, readVarintFrom, if_neg hmore, hrest,
      List.length_cons]
    congr 2
    omega
  | case2 val hval =>
    have hfew : val.toNat < 128 := by
      by_contra hge
      refine hval (UInt64.lt_iff_toNat_lt.mpr ?_)
      change 127 < val.toNat
      omega
    have hbyte : val.toUInt8.toNat = val.toNat := by
      rw [UInt64.toNat_toUInt8]
      omega
    have hlow : val.toUInt8.toNat % 128 = val.toNat := by omega
    have hor := toNat_or_shiftLeft (b := val.toUInt8) hshift hresult (by rwa [hlow])
    rw [hlow] at hor
    rw [writeVarint, if_neg hval, List.singleton_append, readVarintFrom,
      if_pos ((and_top_eq_zero_iff _).mpr (by omega)), ← hor, UInt64.ofNat_toNat, List.length_singleton]

theorem readVarint_writeVarint (val : UInt64) (rest : List UInt8) :
    readVarint (writeVarint val ++ rest) = some (val, (writeVarint val).length) := by
  have hread : readVarintFrom (writeVarint val ++ rest) 0 0 0 =
      some (UInt64.ofNat ((0 : UInt64).toNat + val.toNat * 2 ^ (0 : UInt64).toNat), 0 + (writeVarint val).length) :=
    readVarintFrom_writeVarint val 0 rest (by decide) (by decide) (by simpa using val.toNat_lt)
  simpa [readVarint] using hread

end SeaTunnel.Lib.Integers
