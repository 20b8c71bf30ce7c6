import SeaTunnel.Cdc.TiDbChunkRow
import SeaTunnel.Cdc.TiDbRowLayout

namespace SeaTunnel.Cdc.TiDb

open Lib Lib.Checked

section Stored

inductive StoredUvarint : List UInt8 → UInt64 → Prop
  | inline {first : UInt8} (hfirst : first ≤ 250) : StoredUvarint [first] first.toUInt64
  | extended {first : UInt8} {digits : List UInt8}
      (hwidth : (first, digits.length) ∈ [((252 : UInt8), 2), (253, 4), (254, 8)]) :
      StoredUvarint (first :: digits) (fromBeBytes digits)

inductive StoredVarint : List UInt8 → Prop
  | positive {bytes : List UInt8} {u : UInt64} (h : StoredUvarint bytes u) : StoredVarint bytes
  | negative {bytes : List UInt8} {u : UInt64} (h : StoredUvarint bytes u) (hu : u.toNat ≠ 2 ^ 63) :
      StoredVarint (0xFF :: bytes)

/-- The prefix of eight digits is there, and they are not. -/
def CutUvarint (bytes : List UInt8) : Prop := ∃ digits, bytes = 254 :: digits ∧ digits.length < 8

/-- Digits are missing, or the magnitude of a negative number is that of the least one. -/
def FaultyVarint (bytes : List UInt8) : Prop :=
  CutUvarint bytes ∨ ∃ rest, bytes = 0xFF :: rest ∧
    (CutUvarint rest ∨ ∃ digits rest' u, rest = digits ++ rest' ∧ StoredUvarint digits u ∧ u.toNat = 2 ^ 63)

end Stored

section Numbers

variable {bytes : List UInt8} {u : UInt64} {n : ℕ}

theorem slice_eq_some {data bytes : List UInt8} {start stop : ℕ} :
    slice data start stop = some bytes ↔
      start ≤ stop ∧ ∃ before rest, data = before ++ (bytes ++ rest) ∧ before.length = start ∧
        bytes.length = stop - start := by
  rw [slice, Option.ite_none_right_eq_some]
  constructor
  · rintro ⟨⟨hle, hstop⟩, hbytes⟩
    obtain rfl := Option.some.inj hbytes
    refine ⟨hle, data.take start, (data.drop start).drop (stop - start), ?_, ?_, ?_⟩
    · rw [List.take_append_drop, List.take_append_drop]
    · rw [List.length_take]
      omega
    · rw [List.length_take, List.length_drop]
      omega
  · rintro ⟨hle, before, rest, rfl, hbefore, hbytes⟩
    have hfits : stop ≤ (before ++ (bytes ++ rest)).length := by
      rw [List.length_append, List.length_append]
      omega
    refine ⟨⟨hle, hfits⟩, ?_⟩
    rw [List.drop_left' hbefore, ← hbytes, List.take_left]

theorem digits_eq_some {first : UInt8} {rest digits : List UInt8} :
    slice (first :: rest) 1 9 = some digits ↔ digits.length = 8 ∧ ∃ rest', rest = digits ++ rest' := by
  rw [slice_eq_some]
  constructor
  · rintro ⟨-, before, rest', heq, hbefore, hdigits⟩
    obtain ⟨b, rfl⟩ := List.length_eq_one_iff.mp hbefore
    exact ⟨hdigits, rest', (List.cons.inj heq).2⟩
  · rintro ⟨hdigits, rest', rfl⟩
    exact ⟨by decide, [first], rest', rfl, rfl, hdigits⟩

theorem digits_eq_none {first : UInt8} {rest : List UInt8} : slice (first :: rest) 1 9 = none ↔ rest.length < 8 := by
  rw [slice, ite_eq_right_iff, List.length_cons]
  constructor
  · intro h
    by_contra hlong
    cases h ⟨by decide, by omega⟩
  · rintro hshort ⟨-, hlong⟩
    omega

theorem decodeUvarint_outOfRange : (decodeUvarint bytes).OutOfRange ↔ CutUvarint bytes := by
  have hother {first : UInt8} {rest : List UInt8} (hne : first ≠ 254) : ¬CutUvarint (first :: rest) := by
    rintro ⟨digits, heq, -⟩
    exact hne (List.cons.inj heq).1
  cases bytes with
  | nil => exact iff_of_false not_outOfRange_refuse nofun
  | cons first rest =>
    rw [decodeUvarint]
    split_ifs with h252 hlen h253 hlen h254 h250
    · exact iff_of_false not_outOfRange_refuse (hother (by rw [h252]; decide))
    · exact iff_of_false not_outOfRange_pure (hother (by rw [h252]; decide))
    · exact iff_of_false not_outOfRange_refuse (hother (by rw [h253]; decide))
    · exact iff_of_false not_outOfRange_pure (hother (by rw [h253]; decide))
    · rw [outOfRange_bind_pure, outOfRange_ofRange, digits_eq_none]
      constructor
      · intro hshort
        exact ⟨rest, by rw [h254], hshort⟩
      · rintro ⟨digits, heq, hshort⟩
        obtain ⟨-, rfl⟩ := List.cons.inj heq
        exact hshort
    · exact iff_of_false not_outOfRange_pure (hother h254)
    · exact iff_of_false not_outOfRange_refuse (hother h254)

theorem decodeUvarint_stored {digits : List UInt8} (h : StoredUvarint digits u) (rest : List UInt8) :
    (decodeUvarint (digits ++ rest)).Gives (u, digits.length) := by
  cases h with
  | @inline first hfirst =>
    have hne (b : UInt8) (hb : 250 < b) : first ≠ b := by
      rintro rfl
      exact absurd hfirst (UInt8.not_le.mpr hb)
    rw [List.singleton_append, decodeUvarint, if_neg (hne 252 (by decide)), if_neg (hne 253 (by decide)),
      if_neg (hne 254 (by decide)), if_pos hfirst]
    exact gives_pure.mpr rfl
  | @extended first digits hwidth =>
    simp only [List.mem_cons, Prod.mk.injEq, List.not_mem_nil, or_false] at hwidth
    rw [List.cons_append, decodeUvarint]
    rcases hwidth with ⟨rfl, hlen⟩ | ⟨rfl, hlen⟩ | ⟨rfl, hlen⟩
    · have hlong : ¬(digits ++ rest).length < 2 := by
        rw [List.length_append]
        omega
      rw [if_pos rfl, if_neg hlong, ← hlen, List.take_left, List.length_cons, hlen]
      exact gives_pure.mpr rfl
    · have hlong : ¬(digits ++ rest).length < 4 := by
        rw [List.length_append]
        omega
      rw [if_neg (by decide), if_pos rfl, if_neg hlong, ← hlen, List.take_left, List.length_cons, hlen]
      exact gives_pure.mpr rfl
    · rw [if_neg (by decide), if_neg (by decide), if_pos rfl, List.length_cons, hlen]
      refine gives_bind.mpr ⟨digits, gives_ofRange.mpr (digits_eq_some.mpr ⟨hlen, rest, rfl⟩), gives_pure.mpr rfl⟩

theorem decodeUvarint_gives :
    (decodeUvarint bytes).Gives (u, n) ↔
      ∃ digits rest, bytes = digits ++ rest ∧ StoredUvarint digits u ∧ n = digits.length := by
  have hextended {first : UInt8} {digits rest : List UInt8} {width : ℕ} (hlen : digits.length = width)
      (hwidth : (first, width) ∈ [((252 : UInt8), 2), (253, 4), (254, 8)])
      (h : (pure (fromBeBytes digits, width + 1) : Checked (UInt64 × ℕ)).Gives (u, n)) :
      ∃ digits' rest', first :: (digits ++ rest) = digits' ++ rest' ∧ StoredUvarint digits' u ∧ n = digits'.length := by
    obtain ⟨rfl, rfl⟩ := Prod.mk.inj (gives_pure.mp h)
    subst hlen
    exact ⟨first :: digits, rest, rfl, .extended hwidth, rfl⟩
  constructor
  · intro h
    cases bytes with
    | nil => exact absurd h not_gives_refuse
    | cons first rest =>
      rw [decodeUvarint] at h
      split_ifs at h with h252 hlen h253 hlen h254 h250
      · exact absurd h not_gives_refuse
      · rw [← List.take_append_drop 2 rest]
        exact hextended (List.length_take_of_le (not_lt.mp hlen)) (by simp [h252]) h
      · exact absurd h not_gives_refuse
      · rw [← List.take_append_drop 4 rest]
        exact hextended (List.length_take_of_le (not_lt.mp hlen)) (by simp [h253]) h
      · obtain ⟨digits, hdigits, hvalue⟩ := gives_bind.mp h
        obtain ⟨hlen, rest', rfl⟩ := digits_eq_some.mp (gives_ofRange.mp hdigits)
        exact hextended hlen (by simp [h254]) hvalue
      · obtain ⟨rfl, rfl⟩ := Prod.mk.inj (gives_pure.mp h)
        exact ⟨[first], rest, rfl, .inline h250, rfl⟩
      · exact absurd h not_gives_refuse
  · rintro ⟨digits, rest, rfl, hstored, rfl⟩
    exact decodeUvarint_stored hstored rest

theorem toInt64_eq_minValue : u.toInt64 = Int64.minValue ↔ u.toNat = 2 ^ 63 := by
  have hmin : Int64.minValue = (UInt64.ofNat (2 ^ 63)).toInt64 := by decide
  have hpow : (UInt64.ofNat (2 ^ 63)).toNat = 2 ^ 63 := UInt64.toNat_ofNat_of_lt' (by decide)
  rw [hmin, ← hpow, UInt64.toNat_inj]
  constructor
  · intro h
    exact UInt64.toBitVec_inj.mp (congrArg Int64.toBitVec h)
  · exact congrArg UInt64.toInt64

theorem negate_outOfRange : (negate u.toInt64).OutOfRange ↔ u.toNat = 2 ^ 63 := by
  rw [negate, outOfRange_ofRange, ite_eq_left_iff, ← toInt64_eq_minValue]
  constructor
  · intro h
    by_contra hne
    cases h hne
  · exact fun h hne ↦ absurd h hne

theorem negate_gives (hu : u.toNat ≠ 2 ^ 63) : (negate u.toInt64).Gives (-u.toInt64) :=
  gives_ofRange.mpr (if_neg fun h ↦ hu (toInt64_eq_minValue.mp h))

theorem StoredUvarint.not_marker {digits rest : List UInt8} (h : StoredUvarint digits u) (heq : digits = 0xFF :: rest) :
    False := by
  cases h with
  | @inline first hfirst =>
    obtain ⟨rfl, -⟩ := List.cons.inj heq
    exact absurd hfirst (by decide)
  | extended hwidth =>
    obtain ⟨rfl, -⟩ := List.cons.inj heq
    simp at hwidth

theorem StoredUvarint.length_pos {digits : List UInt8} (h : StoredUvarint digits u) : 0 < digits.length := by
  cases h with
  | inline hfirst => exact Nat.zero_lt_succ _
  | extended hwidth => exact Nat.zero_lt_succ _

theorem decodeVarint_outOfRange : (decodeVarint bytes).OutOfRange ↔ FaultyVarint bytes := by
  cases bytes with
  | nil =>
    refine iff_of_false not_outOfRange_refuse ?_
    rintro (⟨digits, heq, -⟩ | ⟨rest, heq, -⟩)
    · cases heq
    · cases heq
  | cons first rest =>
    rw [decodeVarint]
    split_ifs with hmarker
    · have hnot : ¬CutUvarint (first :: rest) := by
        rintro ⟨digits, heq, -⟩
        exact absurd (hmarker.symm.trans (List.cons.inj heq).1) (by decide)
      rw [outOfRange_bind, decodeUvarint_outOfRange, FaultyVarint, or_iff_right hnot]
      constructor
      · rintro (hcut | ⟨⟨u, n⟩, hgives, hnegate⟩)
        · exact ⟨rest, by rw [hmarker], .inl hcut⟩
        · rw [outOfRange_bind_pure, negate_outOfRange] at hnegate
          obtain ⟨digits, rest', hrest, hstored, -⟩ := decodeUvarint_gives.mp hgives
          exact ⟨rest, by rw [hmarker], .inr ⟨digits, rest', u, hrest, hstored, hnegate⟩⟩
      · rintro ⟨rest', heq, hcut | ⟨digits, rest'', u, hrest, hstored, hu⟩⟩
        · obtain ⟨-, rfl⟩ := List.cons.inj heq
          exact .inl hcut
        · obtain ⟨-, rfl⟩ := List.cons.inj heq
          refine .inr ⟨(u, digits.length), decodeUvarint_gives.mpr ⟨digits, rest'', hrest, hstored, rfl⟩, ?_⟩
          exact outOfRange_bind_pure.mpr (negate_outOfRange.mpr hu)
    · rw [outOfRange_bind_pure, decodeUvarint_outOfRange, FaultyVarint]
      refine (or_iff_left ?_).symm
      rintro ⟨rest', heq, -⟩
      exact hmarker (List.cons.inj heq).1

theorem decodeVarint_gives :
    (∃ v, (decodeVarint bytes).Gives (v, n)) ↔
      ∃ digits rest, bytes = digits ++ rest ∧ StoredVarint digits ∧ n = digits.length := by
  constructor
  · rintro ⟨v, h⟩
    cases bytes with
    | nil => exact absurd h not_gives_refuse
    | cons first rest =>
      rw [decodeVarint] at h
      split_ifs at h with hmarker
      · obtain ⟨⟨u, n'⟩, hu, hv⟩ := gives_bind.mp h
        obtain ⟨v', hnegate, hpure⟩ := gives_bind.mp hv
        obtain ⟨-, rfl⟩ := Prod.mk.inj (gives_pure.mp hpure)
        obtain ⟨digits, rest', rfl, hstored, rfl⟩ := decodeUvarint_gives.mp hu
        refine ⟨0xFF :: digits, rest', by rw [hmarker]; rfl, .negative hstored fun hleast ↦ ?_, rfl⟩
        exact hnegate.not_outOfRange (negate_outOfRange.mpr hleast)
      · obtain ⟨⟨u, n'⟩, hu, hpure⟩ := gives_bind.mp h
        obtain ⟨-, rfl⟩ := Prod.mk.inj (gives_pure.mp hpure)
        obtain ⟨digits, rest', heq, hstored, hn⟩ := decodeUvarint_gives.mp hu
        exact ⟨digits, rest', heq, .positive hstored, hn⟩
  · rintro ⟨digits, rest, rfl, hstored, rfl⟩
    cases hstored with
    | @positive _ u h =>
      obtain ⟨first, digits, rfl⟩ := List.exists_cons_of_length_pos h.length_pos
      have hmarker : first ≠ 0xFF := fun heq ↦ h.not_marker (by rw [heq])
      rw [List.cons_append, decodeVarint, if_neg hmarker]
      exact ⟨u.toInt64, gives_bind.mpr ⟨_, decodeUvarint_stored h rest, gives_pure.mpr rfl⟩⟩
    | @negative digits u h hu =>
      rw [List.cons_append, decodeVarint, if_pos rfl]
      refine ⟨-u.toInt64, gives_bind.mpr ⟨_, decodeUvarint_stored h rest, ?_⟩⟩
      exact gives_bind.mpr ⟨_, negate_gives hu, gives_pure.mpr rfl⟩

end Numbers

inductive Payload
  | nothing | varint | uvarint | digits (width : ℕ) | bytes

def ColumnFlag.payload : ColumnFlag → Payload
  | .null => .nothing
  | .varint | .varintCompat => .varint
  | .uvarint | .uvarintCompat => .uvarint
  | .float32 => .digits 4
  | .float64 => .digits 8
  | .bytes | .compactBytes | .bytesLenEncoded | .decimal | .json => .bytes

namespace Payload

inductive Stored : Payload → List UInt8 → Prop
  | nothing : Stored .nothing []
  | varint {digits : List UInt8} (h : StoredVarint digits) : Stored .varint digits
  | uvarint {digits : List UInt8} {u : UInt64} (h : StoredUvarint digits u) : Stored .uvarint digits
  | digits {digits : List UInt8} {width : ℕ} (h : digits.length = width) : Stored (.digits width) digits
  | bytes {digits data : List UInt8} {len : UInt64} (h : StoredUvarint digits len) (hdata : data.length = len.toNat) :
      Stored .bytes (digits ++ data)

/-- Behind a place, a number is cut or is the least negative one, or a length leads out of all lengths. -/
inductive Faulty (i : ℕ) : Payload → List UInt8 → Prop
  | varint {bytes : List UInt8} (h : FaultyVarint bytes) : Faulty i .varint bytes
  | uvarint {bytes : List UInt8} (h : CutUvarint bytes) : Faulty i .uvarint bytes
  | cut {bytes : List UInt8} (h : CutUvarint bytes) : Faulty i .bytes bytes
  | long {digits rest : List UInt8} {len : UInt64} (h : StoredUvarint digits len)
      (hlong : 2 ^ 64 ≤ i + digits.length + len.toNat) : Faulty i .bytes (digits ++ rest)

end Payload

section Columns

variable {body : List UInt8} {i n : ℕ} {truncated : String}

theorem sliceFrom_eq (hi : i ≤ body.length) : (sliceFrom body i).Gives (body.drop i) := by
  rw [sliceFrom, gives_ofRange, slice, if_pos ⟨hi, le_rfl⟩, ← List.length_drop, List.take_length]

theorem addUsize_gives {m stop : ℕ} : (addUsize n m).Gives stop ↔ n + m < 2 ^ 64 ∧ n + m = stop := by
  rw [addUsize, gives_ofRange, Option.ite_none_right_eq_some, Option.some_inj]

theorem addUsize_outOfRange {m : ℕ} : (addUsize n m).OutOfRange ↔ 2 ^ 64 ≤ n + m := by
  rw [addUsize, outOfRange_ofRange, ite_eq_right_iff]
  constructor
  · intro h
    by_contra hlt
    cases h (not_le.mp hlt)
  · exact fun hle hlt ↦ absurd hlt (not_lt.mpr hle)

theorem readBytes_outOfRange (hi : i ≤ body.length) :
    (readBytes body i truncated).OutOfRange ↔ Payload.bytes.Faulty i (body.drop i) := by
  rw [readBytes, (sliceFrom_eq hi).bind, outOfRange_bind, decodeUvarint_outOfRange]
  constructor
  · rintro (hcut | ⟨⟨len, consumed⟩, hgives, hrest⟩)
    · exact .cut hcut
    · obtain ⟨digits, rest, hdrop, hstored, rfl⟩ := decodeUvarint_gives.mp hgives
      rcases outOfRange_bind.mp hrest with hsum | ⟨stop, hstop, hslice⟩
      · rw [hdrop]
        exact .long hstored (addUsize_outOfRange.mp hsum)
      · -- the slice is taken only where it ends in the bytes
        obtain ⟨-, rfl⟩ := addUsize_gives.mp hstop
        split_ifs at hslice with hshort
        · exact absurd hslice not_outOfRange_refuse
        · rw [outOfRange_bind_pure, outOfRange_ofRange, slice, if_pos ⟨Nat.le_add_right _ _, not_lt.mp hshort⟩] at hslice
          cases hslice
  · intro hfaulty
    generalize hdrop : body.drop i = bytes at hfaulty
    cases hfaulty with
    | cut h => exact .inl h
    | @long digits rest len h hlong =>
      refine .inr ⟨_, decodeUvarint_stored h rest, ?_⟩
      exact outOfRange_bind.mpr (.inl (addUsize_outOfRange.mpr hlong))

theorem slice_add {before len : ℕ} (hlen : i + before + len ≤ body.length) :
    slice body (i + before) (i + before + len) = some (((body.drop i).drop before).take len) := by
  rw [slice, if_pos ⟨Nat.le_add_right _ _, hlen⟩, List.drop_drop, Nat.add_sub_cancel_left]

theorem length_of_drop {payload rest : List UInt8} (hi : i ≤ body.length) (hdrop : body.drop i = payload ++ rest) :
    i + payload.length + rest.length = body.length := by
  have hlength := congrArg List.length hdrop
  rw [List.length_drop, List.length_append] at hlength
  omega

theorem readBytes_of_gives (hi : i ≤ body.length) {data : List UInt8}
    (h : (readBytes body i truncated).Gives (data, n)) :
    ∃ payload rest, body.drop i = payload ++ rest ∧ Payload.bytes.Stored payload ∧ n = payload.length := by
  rw [readBytes, (sliceFrom_eq hi).bind] at h
  obtain ⟨⟨len, consumed⟩, hgives, hrest⟩ := gives_bind.mp h
  obtain ⟨digits, rest, hdrop, hstored, rfl⟩ := decodeUvarint_gives.mp hgives
  obtain ⟨stop, hstop, hslice⟩ := gives_bind.mp hrest
  obtain ⟨-, rfl⟩ := addUsize_gives.mp hstop
  split_ifs at hslice with hshort
  · exact absurd hslice not_gives_refuse
  · have hfits := not_lt.mp hshort
    have hlength := length_of_drop hi hdrop
    obtain ⟨data', hdata, hpure⟩ := gives_bind.mp hslice
    obtain ⟨-, rfl⟩ := Prod.mk.inj (gives_pure.mp hpure)
    rw [gives_ofRange, slice_add hfits, hdrop, List.drop_left] at hdata
    have htake : (rest.take len.toNat).length = len.toNat := List.length_take_of_le (by omega)
    refine ⟨digits ++ rest.take len.toNat, rest.drop len.toNat, ?_, .bytes hstored htake, ?_⟩
    · rw [List.append_assoc, List.take_append_drop, hdrop]
    · rw [List.length_append, htake]

theorem readBytes_stored (hi : i ≤ body.length) {payload rest : List UInt8} (hdrop : body.drop i = payload ++ rest)
    (h : Payload.bytes.Stored payload) (hsound : ¬Payload.bytes.Faulty i (body.drop i)) :
    ∃ data, (readBytes body i truncated).Gives (data, payload.length) := by
  cases h with
  | @bytes digits data len hstored hdata =>
    have hlength := length_of_drop hi hdrop
    rw [List.length_append] at hlength
    rw [hdrop, List.append_assoc] at hsound
    have hsum : i + digits.length + len.toNat < 2 ^ 64 := not_le.mp fun hlong ↦ hsound (.long hstored hlong)
    have hfits : ¬body.length < i + digits.length + len.toNat := by omega
    rw [readBytes, (sliceFrom_eq hi).bind, hdrop, List.append_assoc, (decodeUvarint_stored hstored _).bind]
    dsimp only
    rw [(addUsize_gives.mpr ⟨hsum, rfl⟩).bind, if_neg hfits]
    refine ⟨data, gives_bind.mpr ⟨data, gives_ofRange.mpr ?_, ?_⟩⟩
    · rw [slice_add (not_lt.mp hfits), hdrop, List.append_assoc, List.drop_left, ← hdata, List.take_left]
    · rw [gives_pure, List.length_append, hdata]

theorem readFloat_eq {width : ℕ} : readFloat body i width truncated =
    if body.length < i + width then refuse truncated else pure (fromBeBytes ((body.drop i).take width), width) := by
  rw [readFloat]
  split_ifs with hshort
  · rfl
  · have hslice := @slice_add body i 0 width (not_lt.mp hshort)
    rw [Nat.add_zero, List.drop_zero] at hslice
    rw [hslice]
    rfl

theorem readFloat_not_outOfRange {width : ℕ} :
    ¬(readFloat body i width truncated).OutOfRange := by
  rw [readFloat_eq]
  split_ifs
  · exact not_outOfRange_refuse
  · exact not_outOfRange_pure

theorem readFloat_of_gives {width : ℕ} (hi : i ≤ body.length) {bits : UInt64}
    (h : (readFloat body i width truncated).Gives (bits, n)) :
    ∃ payload rest, body.drop i = payload ++ rest ∧ (Payload.digits width).Stored payload ∧ n = payload.length := by
  rw [readFloat_eq] at h
  split_ifs at h with hshort
  · exact absurd h not_gives_refuse
  · obtain ⟨-, rfl⟩ := Prod.mk.inj (gives_pure.mp h)
    have htake : ((body.drop i).take width).length = width := by
      rw [List.length_take, List.length_drop]
      omega
    exact ⟨(body.drop i).take width, (body.drop i).drop width, (List.take_append_drop ..).symm, .digits htake, htake.symm⟩

theorem readFloat_stored {width : ℕ} (hi : i ≤ body.length) {payload rest : List UInt8}
    (hdrop : body.drop i = payload ++ rest) (h : (Payload.digits width).Stored payload) :
    ∃ bits, (readFloat body i width truncated).Gives (bits, payload.length) := by
  cases h with
  | digits hwidth =>
    have hlength := length_of_drop hi hdrop
    rw [readFloat_eq, if_neg (by omega), hwidth]
    exact ⟨_, gives_pure.mpr rfl⟩

variable {flag : ColumnFlag}

theorem readColumn_outOfRange (hi : i ≤ body.length) :
    (readColumn body i flag).OutOfRange ↔ flag.payload.Faulty i (body.drop i) := by
  cases flag with
  | null => exact iff_of_false not_outOfRange_pure nofun
  | varint | varintCompat =>
    rw [readColumn, (sliceFrom_eq hi).bind, outOfRange_bind_pure, decodeVarint_outOfRange]
    exact ⟨.varint, fun h ↦ by cases h; assumption⟩
  | uvarint | uvarintCompat =>
    rw [readColumn, (sliceFrom_eq hi).bind, outOfRange_bind_pure, decodeUvarint_outOfRange]
    exact ⟨.uvarint, fun h ↦ by cases h; assumption⟩
  | float32 | float64 =>
    rw [readColumn, outOfRange_bind_pure]
    exact iff_of_false readFloat_not_outOfRange nofun
  | bytes | compactBytes | bytesLenEncoded | json =>
    rw [readColumn, outOfRange_bind_pure]
    exact readBytes_outOfRange hi
  | decimal =>
    rw [readColumn]
    split_ifs with hend
    · -- no number starts behind the end
      rw [List.drop_eq_nil_of_le hend]
      refine iff_of_false not_outOfRange_refuse fun h ↦ ?_
      generalize hbytes : ([] : List UInt8) = bytes at h
      cases h with
      | cut h =>
        obtain ⟨digits, heq, -⟩ := h
        cases hbytes.trans heq
      | long h hlong =>
        obtain ⟨rfl, -⟩ := List.append_eq_nil_iff.mp hbytes.symm
        exact absurd h.length_pos (by decide)
    · rw [outOfRange_bind_pure]
      exact readBytes_outOfRange hi

theorem readColumn_of_gives (hi : i ≤ body.length) {v : ColumnValue} (h : (readColumn body i flag).Gives (v, n)) :
    ∃ payload rest, body.drop i = payload ++ rest ∧ flag.payload.Stored payload ∧ n = payload.length := by
  cases flag with
  | null =>
    obtain ⟨-, rfl⟩ := Prod.mk.inj (gives_pure.mp h)
    exact ⟨[], body.drop i, rfl, .nothing, rfl⟩
  | varint | varintCompat =>
    rw [readColumn, (sliceFrom_eq hi).bind] at h
    obtain ⟨⟨v', n'⟩, hv, hpure⟩ := gives_bind.mp h
    obtain ⟨-, rfl⟩ := Prod.mk.inj (gives_pure.mp hpure)
    obtain ⟨digits, rest, hdrop, hstored, hn⟩ := decodeVarint_gives.mp ⟨v', hv⟩
    exact ⟨digits, rest, hdrop, .varint hstored, hn⟩
  | uvarint | uvarintCompat =>
    rw [readColumn, (sliceFrom_eq hi).bind] at h
    obtain ⟨⟨u, n'⟩, hu, hpure⟩ := gives_bind.mp h
    obtain ⟨-, rfl⟩ := Prod.mk.inj (gives_pure.mp hpure)
    obtain ⟨digits, rest, hdrop, hstored, hn⟩ := decodeUvarint_gives.mp hu
    exact ⟨digits, rest, hdrop, .uvarint hstored, hn⟩
  | float32 | float64 =>
    obtain ⟨⟨bits, n'⟩, hbits, hpure⟩ := gives_bind.mp h
    obtain ⟨-, rfl⟩ := Prod.mk.inj (gives_pure.mp hpure)
    exact readFloat_of_gives hi hbits
  | bytes | compactBytes | bytesLenEncoded | json =>
    obtain ⟨⟨data, n'⟩, hdata, hpure⟩ := gives_bind.mp h
    obtain ⟨-, rfl⟩ := Prod.mk.inj (gives_pure.mp hpure)
    exact readBytes_of_gives hi hdata
  | decimal =>
    rw [readColumn] at h
    split_ifs at h
    · exact absurd h not_gives_refuse
    · obtain ⟨⟨data, n'⟩, hdata, hpure⟩ := gives_bind.mp h
      obtain ⟨-, rfl⟩ := Prod.mk.inj (gives_pure.mp hpure)
      exact readBytes_of_gives hi hdata

theorem readColumn_stored (hi : i ≤ body.length) {payload rest : List UInt8} (hdrop : body.drop i = payload ++ rest)
    (h : flag.payload.Stored payload) (hsound : ¬flag.payload.Faulty i (body.drop i)) :
    ∃ v, (readColumn body i flag).Gives (v, payload.length) := by
  cases flag with
  | null =>
    cases h
    exact ⟨.null, gives_pure.mpr rfl⟩
  | varint | varintCompat =>
    obtain ⟨v, hv⟩ := decodeVarint_gives.mpr ⟨payload, rest, hdrop, by cases h; assumption, rfl⟩
    rw [readColumn, (sliceFrom_eq hi).bind]
    exact ⟨.int v, gives_bind.mpr ⟨_, hv, gives_pure.mpr rfl⟩⟩
  | uvarint | uvarintCompat =>
    cases h with
    | @uvarint digits u h =>
      rw [readColumn, (sliceFrom_eq hi).bind, hdrop]
      exact ⟨.uint u, gives_bind.mpr ⟨_, decodeUvarint_stored h rest, gives_pure.mpr rfl⟩⟩
  | float32 | float64 =>
    obtain ⟨bits, hbits⟩ := readFloat_stored hi hdrop h
    exact ⟨_, gives_bind.mpr ⟨_, hbits, gives_pure.mpr rfl⟩⟩
  | bytes | compactBytes | bytesLenEncoded | json =>
    obtain ⟨data, hdata⟩ := readBytes_stored hi hdrop h hsound
    exact ⟨_, gives_bind.mpr ⟨_, hdata, gives_pure.mpr rfl⟩⟩
  | decimal =>
    obtain ⟨data, hdata⟩ := readBytes_stored hi hdrop h hsound
    have hinside : ¬body.length ≤ i := by
      have hlength := length_of_drop hi hdrop
      cases h with
      | bytes hstored hdata =>
        have hpos := hstored.length_pos
        rw [List.length_append] at hlength
        omega
    rw [readColumn, if_neg hinside]
    exact ⟨_, gives_bind.mpr ⟨_, hdata, gives_pure.mpr rfl⟩⟩

end Columns

section Rows

inductive StoredColumns : List UInt8 → Prop
  | nil : StoredColumns []
  | cons {flag : ColumnFlag} {payload rest : List UInt8} (h : flag.payload.Stored payload) (hrest : StoredColumns rest) :
      StoredColumns (flag.code :: (payload ++ rest))

/-- Behind whole columns comes no faulty one. -/
def SoundRow (body : List UInt8) : Prop :=
  ∀ columns flag rest, body = columns ++ ColumnFlag.code flag :: rest → StoredColumns columns →
    ¬flag.payload.Faulty (columns.length + 1) rest

variable {body : List UInt8} {i : ℕ} {columns : List ColumnValue}

theorem drop_eq_flag {flag : ColumnFlag} {rest : List UInt8} (hdrop : body.drop i = flag.code :: rest) :
    ∃ hi : i < body.length, ColumnFlag.ofByte? body[i] = some flag ∧ body.drop (i + 1) = rest := by
  have hi : i < body.length := by
    by_contra hend
    rw [List.drop_eq_nil_of_le (not_lt.mp hend)] at hdrop
    cases hdrop
  rw [List.drop_eq_getElem_cons hi] at hdrop
  obtain ⟨hflag, hrest⟩ := List.cons.inj hdrop
  exact ⟨hi, by rw [hflag, ColumnFlag.ofByte?_code], hrest⟩

theorem readRow_outOfRange (hi : i ≤ body.length) :
    (readRow body i columns).OutOfRange ↔
      ∃ before flag rest, body.drop i = before ++ ColumnFlag.code flag :: rest ∧ StoredColumns before ∧
        flag.payload.Faulty (i + before.length + 1) rest := by
  induction i, columns using readRow.induct body with
  | case1 i columns hlt flag hflag ih =>
    have hdrop : body.drop i = flag.code :: body.drop (i + 1) := by
      rw [List.drop_eq_getElem_cons hlt, ColumnFlag.code_of_ofByte? hflag]
    rw [readRow, dif_pos hlt, hflag]
    dsimp only
    rw [outOfRange_bind, readColumn_outOfRange hlt]
    constructor
    · rintro (hfaulty | ⟨⟨v, consumed⟩, hgives, hrest⟩)
      · exact ⟨[], flag, _, hdrop, .nil, hfaulty⟩
      · obtain ⟨payload, rest, hpayload, hstored, rfl⟩ := readColumn_of_gives hlt hgives
        have hlength := length_of_drop hlt hpayload
        obtain ⟨before, flag', rest', hbefore, hcolumns, hfaulty⟩ := (ih v payload.length (by omega)).mp hrest
        rw [← List.drop_drop, hpayload, List.drop_left] at hbefore
        refine ⟨flag.code :: (payload ++ before), flag', rest', ?_, .cons hstored hcolumns, ?_⟩
        · rw [hdrop, hpayload, hbefore, List.cons_append, List.append_assoc]
        · rw [List.length_cons, List.length_append]
          convert hfaulty using 1
          omega
    · rintro ⟨before, flag', rest', hbefore, hcolumns, hfaulty⟩
      by_cases hhere : flag.payload.Faulty (i + 1) (body.drop (i + 1))
      · exact .inl hhere
      · right
        cases hcolumns with
        | nil =>
          obtain ⟨_, hflag', hrest⟩ := drop_eq_flag hbefore
          obtain rfl := Option.some.inj (hflag.symm.trans hflag')
          exact absurd (hrest ▸ hfaulty) hhere
        | @cons flag'' payload rest hstored hcolumns =>
          obtain ⟨_, hflag'', hrest⟩ := drop_eq_flag hbefore
          obtain rfl := Option.some.inj (hflag.symm.trans hflag'')
          have hpayload : body.drop (i + 1) = payload ++ (rest ++ flag'.code :: rest') :=
            hrest.trans (List.append_assoc ..)
          obtain ⟨v, hv⟩ := readColumn_stored hlt hpayload hstored hhere
          have hlength := length_of_drop hlt hpayload
          refine ⟨_, hv, (ih v payload.length (by omega)).mpr ⟨rest, flag', rest', ?_, hcolumns, ?_⟩⟩
          · rw [← List.drop_drop, hpayload, List.drop_left]
          · rw [List.length_cons, List.length_append] at hfaulty
            convert hfaulty using 1
            omega
  | case2 i columns hlt hflag =>
    rw [readRow, dif_pos hlt, hflag]
    refine iff_of_false not_outOfRange_refuse ?_
    rintro ⟨before, flag, rest, hbefore, hcolumns, -⟩
    cases hcolumns with
    | nil =>
      obtain ⟨_, hflag', -⟩ := drop_eq_flag hbefore
      cases hflag.symm.trans hflag'
    | cons hstored hcolumns =>
      obtain ⟨_, hflag', -⟩ := drop_eq_flag hbefore
      cases hflag.symm.trans hflag'
  | case3 i columns hend =>
    rw [readRow, dif_neg hend]
    refine iff_of_false not_outOfRange_pure ?_
    rintro ⟨before, flag, rest, hbefore, -, -⟩
    rw [List.drop_eq_nil_of_le (not_lt.mp hend)] at hbefore
    cases before with
    | nil => cases hbefore
    | cons b before => cases hbefore

theorem readRow_sound : ¬(readRow body 0 []).OutOfRange ↔ SoundRow body := by
  rw [readRow_outOfRange (Nat.zero_le _), SoundRow]
  simp only [List.drop_zero, Nat.zero_add]
  constructor
  · exact fun h columns flag rest hbody hcolumns hfaulty ↦ h ⟨columns, flag, rest, hbody, hcolumns, hfaulty⟩
  · rintro h ⟨columns, flag, rest, hbody, hcolumns, hfaulty⟩
    exact h columns flag rest hbody hcolumns hfaulty

/-- The length before the columns of the second version is whole, and so are the columns. -/
def SoundChunk (value : List UInt8) : Prop :=
  (∀ body, value = 0x00 :: body → SoundRow body) ∧
    ∀ body, value = 0x01 :: body → ¬FaultyVarint body ∧
      ∀ len row, body = len ++ row → StoredVarint len → SoundRow row

theorem decodeRowValue_sound {value : List UInt8} : ¬(decodeRowValue value).OutOfRange ↔ SoundChunk value := by
  cases value with
  | nil => exact iff_of_true not_outOfRange_refuse ⟨nofun, nofun⟩
  | cons version body =>
    rw [decodeRowValue]
    split_ifs with hfirst hsecond
    · rw [readRow_sound]
      constructor
      · intro hsound
        refine ⟨fun body' heq ↦ (List.cons.inj heq).2 ▸ hsound, fun body' heq ↦ ?_⟩
        exact absurd (hfirst.symm.trans (List.cons.inj heq).1) (by decide)
      · exact fun h ↦ h.1 body (by rw [hfirst])
    · rw [outOfRange_bind, decodeVarint_outOfRange, not_or]
      constructor
      · rintro ⟨hlen, hrow⟩
        refine ⟨fun body' heq ↦ absurd (hsecond.symm.trans (List.cons.inj heq).1) (by decide), fun body' heq ↦ ?_⟩
        obtain ⟨-, rfl⟩ := List.cons.inj heq
        refine ⟨hlen, fun len row heq hstored ↦ ?_⟩
        obtain ⟨v, hv⟩ := decodeVarint_gives.mpr ⟨len, row, heq, hstored, rfl⟩
        by_contra hfaulty
        refine hrow ⟨_, hv, ?_⟩
        have hle : len.length ≤ body.length := by rw [heq, List.length_append]; omega
        dsimp only
        rw [(sliceFrom_eq hle).bind, heq, List.drop_left]
        exact not_not.mp fun hsound ↦ hfaulty (readRow_sound.mp hsound)
      · intro h
        obtain ⟨hlen, hrow⟩ := h.2 body (by rw [hsecond])
        refine ⟨hlen, ?_⟩
        rintro ⟨⟨v, consumed⟩, hgives, hout⟩
        obtain ⟨len, row, heq, hstored, rfl⟩ := decodeVarint_gives.mp ⟨v, hgives⟩
        have hle : len.length ≤ body.length := by rw [heq, List.length_append]; omega
        dsimp only at hout
        rw [(sliceFrom_eq hle).bind, heq, List.drop_left] at hout
        exact readRow_sound.mpr (hrow len row heq hstored) hout
    · refine iff_of_true not_outOfRange_refuse ⟨fun body' heq ↦ ?_, fun body' heq ↦ ?_⟩
      · exact absurd (List.cons.inj heq).1 hfirst
      · exact absurd (List.cons.inj heq).1 hsecond

end Rows

section Cuts

variable {columns : List RowColType} {data : List UInt8} {entries : List (ℕ × ℕ)} {prevEnd : ℕ} {out : List ColumnValue}

theorem fillNotNull_isSome_iff : (fillNotNull columns data entries prevEnd out).isSome ↔
    ∀ before id stop after, entries = before ++ (id, stop) :: after → 1 ≤ id → id ≤ out.length →
      (before.map Prod.snd).getLastD prevEnd ≤ stop ∧ stop ≤ data.length := by
  induction entries generalizing prevEnd out with
  | nil =>
    refine iff_of_true rfl fun before id stop after h ↦ ?_
    cases before with
    | nil => cases h
    | cons entry before => cases h
  | cons entry entries ih =>
    obtain ⟨id, stop⟩ := entry
    -- the entries behind the first start where it ends
    have hrest {out' : List ColumnValue} (hlen : out'.length = out.length) :
        (∀ before id' stop' after, (id, stop) :: entries = before ++ (id', stop') :: after → 1 ≤ id' → id' ≤ out.length →
            (before.map Prod.snd).getLastD prevEnd ≤ stop' ∧ stop' ≤ data.length) ↔
          (1 ≤ id ∧ id ≤ out.length → prevEnd ≤ stop ∧ stop ≤ data.length) ∧
            (fillNotNull columns data entries stop out').isSome := by
      rw [ih, hlen]
      constructor
      · intro h
        refine ⟨fun hid ↦ h [] id stop entries rfl hid.1 hid.2, fun before id' stop' after heq hpos hle ↦ ?_⟩
        have hcuts := h ((id, stop) :: before) id' stop' after (congrArg _ heq) hpos hle
        rwa [List.map_cons, List.getLastD_cons] at hcuts
      · rintro ⟨hfirst, h⟩ before id' stop' after heq hpos hle
        cases before with
        | nil =>
          obtain ⟨hentry, -⟩ := List.cons.inj heq
          obtain ⟨rfl, rfl⟩ := Prod.mk.inj hentry
          exact hfirst ⟨hpos, hle⟩
        | cons entry before =>
          obtain ⟨rfl, hbehind⟩ := List.cons.inj heq
          rw [List.map_cons, List.getLastD_cons]
          exact h before id' stop' after hbehind hpos hle
    rw [fillNotNull]
    split_ifs with hid
    · rw [hrest List.length_set, slice]
      split_ifs with hcut
      · exact (and_iff_right fun _ ↦ hcut).symm
      · exact iff_of_false Bool.false_ne_true fun h ↦ hcut (h.1 hid)
    · rw [hrest rfl, and_iff_right fun h ↦ absurd h hid]

end Cuts

/-- Each value of a column of the table ends behind the one before it, and inside the data. -/
def RowLayout.CutsInRange (l : RowLayout) (columns : List RowColType) : Prop :=
  ∀ before id stop after, l.notNullIds.zip l.offsets = before ++ (id, stop) :: after → 1 ≤ id → id ≤ columns.length →
    (before.map Prod.snd).getLastD 0 ≤ stop ∧ stop ≤ l.data.length

/-- No length, offset or number of the value leads out of range. -/
def InRange (columns : List RowColType) (value : List UInt8) : Prop :=
  if value[0]? = some 0x80 then ∀ l : RowLayout, value = l.bytes → l.CutsInRange columns else SoundChunk value

theorem decodeRowcodecV2_isSome_iff {columns : List RowColType} {pkOrdinal : Option ℕ} {handle : Int64}
    {value : List UInt8} (hversion : value[0]? = some 0x80) :
    (decodeRowcodecV2 columns pkOrdinal handle value).isSome ↔
      ∀ l : RowLayout, value = l.bytes → l.CutsInRange columns := by
  rw [decodeRowcodecV2]
  cases hparse : parseRowcodec value with
  | error e =>
    refine iff_of_true rfl ?_
    rintro l rfl
    cases hparse.symm.trans l.parse_bytes
  | ok r =>
    obtain ⟨l, rfl, rfl⟩ := RowLayout.exists_layout hversion hparse
    dsimp only
    rw [Option.isSome_map, fillNotNull_isSome_iff, List.length_replicate]
    constructor
    · intro h l' hbytes
      have hparsed : l.parsed = l'.parsed := Except.ok.inj (l.parse_bytes.symm.trans (hbytes ▸ l'.parse_bytes))
      rw [hparsed] at h
      exact h
    · exact fun h ↦ h l rfl

theorem decode_in_range_iff (columns : List RowColType) (pkOrdinal : Option ℕ) (handle : Int64) (value : List UInt8) :
    (decodeRowValueWithSchema columns pkOrdinal handle decodeRowValue value).isSome ↔ InRange columns value := by
  rw [InRange]
  by_cases hversion : value[0]? = some 0x80
  · have hrow : decodeRowValueWithSchema columns pkOrdinal handle decodeRowValue value =
        decodeRowcodecV2 columns pkOrdinal handle value := if_pos hversion
    rw [hrow, if_pos hversion]
    exact decodeRowcodecV2_isSome_iff hversion
  · have hrow : decodeRowValueWithSchema columns pkOrdinal handle decodeRowValue value = decodeRowValue value :=
      if_neg hversion
    rw [hrow, if_neg hversion]
    exact isSome_iff.trans decodeRowValue_sound

/-- Offsets that fall; a prefix without its eight digits; the least number, negated; a length beyond all lengths. -/
theorem decode_out_of_range :
    decodeRowValueWithSchema [.other, .other] none 0 decodeRowValue [0x80, 0, 2, 0, 0, 0, 1, 2, 2, 0, 1, 0, 65] = none ∧
      decodeRowValueWithSchema [] none 0 decodeRowValue [0, 2, 254, 1] = none ∧
      decodeRowValueWithSchema [] none 0 decodeRowValue [0, 1, 255, 254, 128, 0, 0, 0, 0, 0, 0, 0] = none ∧
      decodeRowValueWithSchema [] none 0 decodeRowValue [0, 5, 254, 255, 255, 255, 255, 255, 255, 255, 255] = none := by
  have hnone {x : Option (Except String (List ColumnValue))} (h : x.isNone = true) : x = none := Option.isNone_iff_eq_none.mp h
  exact ⟨hnone (by decide +kernel), hnone (by decide +kernel), hnone (by decide +kernel), hnone (by decide +kernel)⟩

end SeaTunnel.Cdc.TiDb
