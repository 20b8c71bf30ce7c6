import Mathlib.Data.List.Induction
import SeaTunnel.Cdc.TiDbTracker
import SeaTunnel.Lib.Comparable
import SeaTunnel.Lib.Integers

namespace SeaTunnel.Cdc.TiDb

open Lib Lib.Integers

local instance linearOrderUInt8 : LinearOrder UInt8 where
  le_refl := UInt8.le_refl
  le_trans _ _ _ := UInt8.le_trans
  lt_iff_le_not_ge a b := by
    rw [UInt8.lt_iff_toNat_lt, UInt8.le_iff_toNat_le, UInt8.le_iff_toNat_le]
    omega
  le_antisymm _ _ := UInt8.le_antisymm
  le_total := UInt8.le_total
  toDecidableLE := inferInstance

section Encoding

def encodeComparable (key : List UInt8) : List UInt8 :=
  (Comparable.chunks 8 key).flatMap fun chunk ↦
    let pad := 8 - chunk.length
    chunk ++ List.replicate pad 0 ++ [0xFF - UInt8.ofNat pad]

theorem encodeComparable_eq :
    encodeComparable = Comparable.encode 0 (fun n ↦ 0xFF - UInt8.ofNat (8 - n)) 8 := rfl

theorem encodeComparable_strictMono : StrictMono encodeComparable := by
  have hmarkers : ∀ n m : Fin 9, n < m → 0xFF - UInt8.ofNat (8 - n) < 0xFF - UInt8.ofNat (8 - m) := by decide
  have hmarker : StrictMonoOn (fun n ↦ 0xFF - UInt8.ofNat (8 - n)) (Set.Iic 8) := by
    intro n hn m hm hlt
    exact hmarkers ⟨n, Nat.lt_succ_of_le hn⟩ ⟨m, Nat.lt_succ_of_le hm⟩ hlt
  rw [encodeComparable_eq]
  exact Comparable.encode_strictMono (by decide) (fun x ↦ UInt8.le_iff_toNat_le.mpr (Nat.zero_le _)) hmarker

end Encoding

structure KeyRange where
  startKey : List UInt8
  endKey : List UInt8
  deriving DecidableEq

namespace KeyRange

def encoded (r : KeyRange) : KeyRange := ⟨encodeComparable r.startKey, encodeComparable r.endKey⟩

variable (span region : KeyRange)

/-- The last region has no end. -/
def Overlaps : Prop := region.startKey < span.endKey ∧ (span.startKey < region.endKey ∨ region.endKey.isEmpty)

instance : Decidable (span.Overlaps region) := inferInstanceAs (Decidable (_ ∧ _))

def subscription : KeyRange where
  startKey := if span.startKey < region.startKey then region.startKey else span.startKey
  endKey := if region.endKey.isEmpty ∨ span.endKey < region.endKey then span.endKey else region.endKey

/-- The key is in the range. -/
def Holds (key : List UInt8) : Prop := span.startKey ≤ key ∧ key < span.endKey

end KeyRange

def refreshRegions (span : KeyRange) (scanned regions : List (ℕ × KeyRange)) : List (ℕ × KeyRange) :=
  scanned.foldl (fun regions r ↦ if r.1 ∈ regions.map Prod.fst then regions else regions ++ [r])
    (regions.filter fun r ↦ span.Overlaps r.2)

section Agreement

variable {span region : KeyRange} {key : List UInt8}

theorem encodeComparable_isEmpty : (encodeComparable key).isEmpty = key.isEmpty := by
  have hnil : encodeComparable [] = [] := by rw [encodeComparable_eq, Comparable.encode_nil]
  rw [Bool.eq_iff_iff, List.isEmpty_iff, List.isEmpty_iff]
  constructor
  · intro h
    exact encodeComparable_strictMono.injective (h.trans hnil.symm)
  · rintro rfl
    exact hnil

theorem overlaps_encoded : span.encoded.Overlaps region.encoded ↔ span.Overlaps region := by
  rw [KeyRange.Overlaps, KeyRange.Overlaps, KeyRange.encoded, KeyRange.encoded, encodeComparable_strictMono.lt_iff_lt,
    encodeComparable_strictMono.lt_iff_lt, encodeComparable_isEmpty]

theorem subscription_encoded : span.encoded.subscription region.encoded = (span.subscription region).encoded := by
  simp only [KeyRange.subscription, KeyRange.encoded, encodeComparable_strictMono.lt_iff_lt, encodeComparable_isEmpty,
    apply_ite encodeComparable]

theorem refresh_encoded (scanned regions : List (ℕ × KeyRange)) :
    refreshRegions span.encoded (scanned.map (Prod.map id KeyRange.encoded)) (regions.map (Prod.map id KeyRange.encoded)) =
      (refreshRegions span scanned regions).map (Prod.map id KeyRange.encoded) := by
  have hkept : (regions.map (Prod.map id KeyRange.encoded)).filter (fun r ↦ span.encoded.Overlaps r.2) =
      (regions.filter fun r ↦ span.Overlaps r.2).map (Prod.map id KeyRange.encoded) := by
    rw [List.filter_map]
    refine congrArg _ (List.filter_congr fun r _ ↦ ?_)
    exact decide_eq_decide.mpr overlaps_encoded
  rw [refreshRegions, refreshRegions, hkept]
  generalize regions.filter (fun r ↦ decide (span.Overlaps r.2)) = kept
  induction scanned generalizing kept with
  | nil => rfl
  | cons r scanned ih =>
    have hids : (kept.map (Prod.map id KeyRange.encoded)).map Prod.fst = kept.map Prod.fst := by
      rw [List.map_map]
      rfl
    rw [List.map_cons, List.foldl_cons, List.foldl_cons, hids, ← ih]
    congr 1
    by_cases hid : r.1 ∈ kept.map Prod.fst
    · rw [if_pos hid]
      exact if_pos hid
    · rw [if_neg hid, List.map_append]
      exact if_neg hid

theorem encodeComparable_embeds :
    (∀ a b, a < b ↔ encodeComparable a < encodeComparable b) ∧ Function.Injective encodeComparable ∧
      (∀ span region : KeyRange, span.encoded.Overlaps region.encoded ↔ span.Overlaps region) ∧
      (∀ span region : KeyRange, span.encoded.subscription region.encoded = (span.subscription region).encoded) ∧
      ∀ (span : KeyRange) (scanned regions : List (ℕ × KeyRange)),
        refreshRegions span.encoded (scanned.map (Prod.map id KeyRange.encoded))
            (regions.map (Prod.map id KeyRange.encoded)) =
          (refreshRegions span scanned regions).map (Prod.map id KeyRange.encoded) :=
  ⟨fun _ _ ↦ encodeComparable_strictMono.lt_iff_lt.symm, encodeComparable_strictMono.injective,
    fun _ _ ↦ overlaps_encoded, fun _ _ ↦ subscription_encoded, fun _ ↦ refresh_encoded⟩

example : encodeComparable [0x74, 0x80, 0, 0, 0, 0, 0, 0, 0xA4, 0x5f, 0x72] =
    [0x74, 0x80, 0, 0, 0, 0, 0, 0, 0xff, 0xa4, 0x5f, 0x72, 0, 0, 0, 0, 0, 0xfa] := by decide +kernel

end Agreement

section TableKeys

/-- `u64::to_be_bytes`. -/
def toBeBytes (v : UInt64) : List UInt8 := (toLeBytes 8 v.toNat).reverse

def toCmpUint (v : Int64) : List UInt8 := toBeBytes (v.toUInt64 ^^^ (1 : UInt64) <<< 63)

def tableKeyRange (tableId : Int64) : KeyRange where
  startKey := 0x74 :: toCmpUint tableId ++ [0x5f, 0x72]
  endKey := 0x74 :: toCmpUint tableId ++ [0x5f, 0x73]

def recordKey (tableId handle : Int64) : List UInt8 := 0x74 :: toCmpUint tableId ++ [0x5f, 0x72] ++ toCmpUint handle

end TableKeys

section Inverse

theorem toNat_shiftLeft_or (n : UInt64) (b : UInt8) :
    (n <<< 8 ||| b.toUInt64).toNat = (n.toNat * 256 + b.toNat) % 2 ^ 64 := by
  have hb := b.toNat_lt
  have hhigh : n.toNat <<< 8 % 2 ^ 64 = 2 ^ 8 * (n.toNat % 2 ^ 56) := by
    rw [Nat.shiftLeft_eq]
    omega
  have hshift : (n <<< 8).toNat = n.toNat <<< 8 % 2 ^ 64 := UInt64.toNat_shiftLeft n 8
  rw [UInt64.toNat_or, hshift, hhigh, UInt8.toNat_toUInt64, ← Nat.two_pow_add_eq_or_of_lt hb]
  omega

theorem toNat_fromBeBytes (bytes : List UInt8) :
    (fromBeBytes bytes).toNat = fromLeBytes bytes.reverse % 2 ^ 64 := by
  induction bytes using List.reverseRecOn with
  | nil => rfl
  | append_singleton bytes b ih =>
    have hlast : fromBeBytes (bytes ++ [b]) = fromBeBytes bytes <<< 8 ||| b.toUInt64 := by
      rw [fromBeBytes, List.foldl_append]
      rfl
    rw [hlast, toNat_shiftLeft_or, ih, List.reverse_append, List.reverse_singleton, List.singleton_append, fromLeBytes]
    omega

theorem fromBeBytes_toBeBytes (v : UInt64) : fromBeBytes (toBeBytes v) = v := by
  have hv : v.toNat < 256 ^ 8 := v.toNat_lt
  apply UInt64.toNat_inj.mp
  rw [toNat_fromBeBytes, toBeBytes, List.reverse_reverse, fromLeBytes_toLeBytes, Nat.mod_eq_of_lt hv]
  exact Nat.mod_eq_of_lt v.toNat_lt

theorem toBeBytes_fromBeBytes {bytes : List UInt8} (hlen : bytes.length = 8) :
    toBeBytes (fromBeBytes bytes) = bytes := by
  have hlen' : bytes.reverse.length = 8 := List.length_reverse.trans hlen
  have hlt : fromLeBytes bytes.reverse < 2 ^ 64 := by
    have hbound := fromLeBytes_lt bytes.reverse
    rw [hlen'] at hbound
    exact hbound
  have hread := toLeBytes_fromLeBytes bytes.reverse
  rw [hlen'] at hread
  rw [toBeBytes, toNat_fromBeBytes, Nat.mod_eq_of_lt hlt, hread, List.reverse_reverse]

theorem flip_flip (n : UInt64) : n ^^^ (1 : UInt64) <<< 63 ^^^ (1 : UInt64) <<< 63 = n := by
  rw [UInt64.xor_assoc, UInt64.xor_self, UInt64.xor_zero]

theorem fromCmpUint_toCmpUint (v : Int64) : fromCmpUint (toCmpUint v) = v := by
  rw [fromCmpUint, toCmpUint, fromBeBytes_toBeBytes, flip_flip, Int64.toInt64_toUInt64]

theorem toCmpUint_fromCmpUint {bytes : List UInt8} (hlen : bytes.length = 8) :
    toCmpUint (fromCmpUint bytes) = bytes := by
  rw [toCmpUint, fromCmpUint, UInt64.toUInt64_toInt64, flip_flip, toBeBytes_fromBeBytes hlen]

theorem length_toCmpUint (v : Int64) : (toCmpUint v).length = 8 :=
  List.length_reverse.trans (length_toLeBytes 8 _)

theorem toCmpUint_injective : Function.Injective toCmpUint :=
  Function.LeftInverse.injective fromCmpUint_toCmpUint

end Inverse

section Selection

variable {key : List UInt8} {tableId handle : Int64}

theorem decodeRecordKey_prefix (h : decodeRecordKey key = some (tableId, handle)) :
    ∃ rest, key = (0x74 :: toCmpUint tableId) ++ (0x5f :: 0x72 :: rest) := by
  unfold decodeRecordKey at h
  split_ifs at h with hform
  obtain ⟨hlen, h0, h9, h10⟩ : 19 ≤ key.length ∧ key[0]? = some 0x74 ∧ key[9]? = some 0x5f ∧ key[10]? = some 0x72 := by
    simpa only [not_or, not_lt, ne_eq, not_not] using hform
  obtain ⟨_, -, hpair⟩ := Option.map_eq_some_iff.mp h
  obtain ⟨htable, -⟩ := Prod.mk.inj hpair
  have hid : ((key.drop 1).take 8).length = 8 := by
    rw [List.length_take, List.length_drop]
    omega
  rw [← htable, toCmpUint_fromCmpUint hid]
  refine ⟨key.drop 11, ?_⟩
  have hhead (i : ℕ) {b : UInt8} (hb : key[i]? = some b) : key.drop i = b :: key.drop (i + 1) := by
    obtain ⟨hi, hget⟩ := List.getElem?_eq_some_iff.mp hb
    rw [List.drop_eq_getElem_cons hi, hget]
  calc key = 0x74 :: key.drop 1 := hhead 0 h0
    _ = 0x74 :: ((key.drop 1).take 8 ++ (key.drop 1).drop 8) := by rw [List.take_append_drop]
    _ = (0x74 :: (key.drop 1).take 8) ++ (0x5f :: 0x72 :: key.drop 11) := by
      rw [List.drop_drop, hhead 9 h9, hhead 10 h10, List.cons_append]

theorem decodeRecordKey_recordKey (tableId handle : Int64) :
    decodeRecordKey (recordKey tableId handle) = some (tableId, handle) := by
  have htable := length_toCmpUint tableId
  have hhandle := length_toCmpUint handle
  have hlen : (recordKey tableId handle).length = 19 := by
    rw [recordKey, List.length_append, List.length_append, List.length_cons, htable, hhandle]
    rfl
  have hid : ((recordKey tableId handle).drop 1).take 8 = toCmpUint tableId := by
    rw [recordKey, List.append_assoc, List.cons_append, List.drop_succ_cons, List.drop_zero, List.take_left' htable]
  have hbehind : (recordKey tableId handle).drop 9 = 0x5f :: 0x72 :: toCmpUint handle := by
    rw [recordKey, List.append_assoc, List.cons_append, List.drop_succ_cons, List.drop_left' htable]
    rfl
  have hget (i : ℕ) : (recordKey tableId handle)[9 + i]? = (0x5f :: 0x72 :: toCmpUint handle)[i]? := by
    rw [← hbehind, List.getElem?_drop]
  have hform : ¬((recordKey tableId handle).length < 19 ∨ (recordKey tableId handle)[0]? ≠ some 0x74 ∨
      (recordKey tableId handle)[9]? ≠ some 0x5f ∨ (recordKey tableId handle)[10]? ≠ some 0x72) := by
    rw [hlen, hget 0, hget 1]
    rintro (h | h | h | h)
    · exact absurd h (lt_irrefl 19)
    · exact h rfl
    · exact h rfl
    · exact h rfl
  have hdrop : (recordKey tableId handle).drop 11 = toCmpUint handle := by
    rw [← List.drop_drop (i := 2) (j := 9), hbehind]
    rfl
  rw [decodeRecordKey, if_neg hform, hid, hdrop, decodeHandle, if_pos hhandle, fromCmpUint_toCmpUint,
    fromCmpUint_toCmpUint, Option.map_some]

theorem holds_iff (h : decodeRecordKey key = some (tableId, handle)) (id : Int64) :
    (tableKeyRange id).Holds key ↔ tableId = id := by
  obtain ⟨rest, rfl⟩ := decodeRecordKey_prefix h
  have hlen (a b : Int64) : (0x74 :: toCmpUint a).length = (0x74 :: toCmpUint b).length := by
    rw [List.length_cons, List.length_cons, length_toCmpUint, length_toCmpUint]
  constructor
  · rintro ⟨hstart, hend⟩
    apply toCmpUint_injective
    rcases lt_trichotomy (0x74 :: toCmpUint tableId) (0x74 :: toCmpUint id) with hlt | heq | hgt
    · exact absurd hstart (Comparable.append_lt_append (hlen _ _) hlt).not_ge
    · exact List.tail_eq_of_cons_eq heq
    · exact absurd hend (Comparable.append_lt_append (hlen _ _) hgt).not_gt
  · rintro rfl
    constructor
    · rw [tableKeyRange, ← not_lt]
      intro hlt
      rcases Comparable.lt_parts (0x74 :: toCmpUint tableId).length hlt with hhead | ⟨-, hbehind⟩
      · rw [List.take_left, List.take_left] at hhead
        exact absurd hhead (lt_irrefl _)
      · rw [List.drop_left, List.drop_left] at hbehind
        simp at hbehind
    · apply Comparable.append_lt_append_left
      apply List.cons_lt_cons_iff.mpr
      right
      exact ⟨rfl, List.cons_lt_cons_iff.mpr (.inl (by decide))⟩

theorem tableKeyRange_selects :
    (∀ id key tableId handle, decodeRecordKey key = some (tableId, handle) →
      ((tableKeyRange id).Holds key ↔ tableId = id)) ∧
    ∀ tableId handle, decodeRecordKey (recordKey tableId handle) = some (tableId, handle) :=
  ⟨fun id _ _ _ h ↦ holds_iff h id, decodeRecordKey_recordKey⟩

/-- The last row of a table is in its range, and not in that of the next table. -/
theorem lastRow_selected :
    (tableKeyRange (-1)).Holds (recordKey (-1) Int64.maxValue) ∧
      ¬(tableKeyRange 0).Holds (recordKey (-1) Int64.maxValue) := by
  have hkey := tableKeyRange_selects.2 (-1) Int64.maxValue
  constructor
  · exact (tableKeyRange_selects.1 (-1) _ _ _ hkey).mpr rfl
  · exact fun h ↦ absurd ((tableKeyRange_selects.1 0 _ _ _ hkey).mp h) (by decide)

end Selection

end SeaTunnel.Cdc.TiDb
