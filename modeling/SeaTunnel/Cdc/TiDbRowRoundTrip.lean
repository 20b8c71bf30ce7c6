import Mathlib.Data.Int.Lemmas
import SeaTunnel.Cdc.TiDbRowLayout

namespace SeaTunnel.Cdc.TiDb

open Lib.Integers

section Integers

def intWidth (v : Int64) : ℕ :=
  if -2 ^ 7 ≤ v.toInt ∧ v.toInt < 2 ^ 7 then 1
  else if -2 ^ 15 ≤ v.toInt ∧ v.toInt < 2 ^ 15 then 2
  else if -2 ^ 31 ≤ v.toInt ∧ v.toInt < 2 ^ 31 then 4
  else 8

def uintWidth (v : UInt64) : ℕ :=
  if v.toNat < 2 ^ 8 then 1 else if v.toNat < 2 ^ 16 then 2 else if v.toNat < 2 ^ 32 then 4 else 8

def encodeInt (v : Int64) : List UInt8 := toLeBytes (intWidth v) v.toUInt64.toNat

def encodeUint (v : UInt64) : List UInt8 := toLeBytes (uintWidth v) v.toNat

/-- The top bit of the bytes that hold the number is not set, or they are all eight. -/
def SignFree (v : UInt64) : Prop :=
  v.toNat < 2 ^ 7 ∨ 2 ^ 8 ≤ v.toNat ∧ v.toNat < 2 ^ 15 ∨ 2 ^ 16 ≤ v.toNat ∧ v.toNat < 2 ^ 31 ∨ 2 ^ 32 ≤ v.toNat

theorem toInt_decodeCompactInt {data : List UInt8} (hwidth : data.length ∈ [1, 2, 4, 8]) :
    (decodeCompactInt data).toInt = (fromLeBytes data : ℤ).bmod (2 ^ (8 * data.length)) := by
  simp only [List.mem_cons, List.not_mem_nil, or_false] at hwidth
  rcases hwidth with hlen | hlen | hlen | hlen
  · simp only [decodeCompactInt, hlen, UInt8.toInt8_ofNat', Int8.toInt_toInt64, Int8.toInt_ofNat']
    rfl
  · simp only [decodeCompactInt, hlen, UInt16.toInt16_ofNat', Int16.toInt_toInt64, Int16.toInt_ofNat']
    rfl
  · simp only [decodeCompactInt, hlen, UInt32.toInt32_ofNat', Int32.toInt_toInt64, Int32.toInt_ofNat']
    rfl
  · simp only [decodeCompactInt, hlen, UInt64.toInt64_ofNat', Int64.toInt_ofNat']
    rfl

theorem intWidth_mem (v : Int64) : intWidth v ∈ [1, 2, 4, 8] := by
  rw [intWidth]
  split_ifs <;> decide

theorem uintWidth_mem (v : UInt64) : uintWidth v ∈ [1, 2, 4, 8] := by
  rw [uintWidth]
  split_ifs <;> decide

theorem bmod_intWidth (v : Int64) : v.toInt.bmod (2 ^ (8 * intWidth v)) = v.toInt := by
  have hlow := v.le_toInt
  have hhigh := v.toInt_lt
  rw [intWidth]
  split_ifs with h1 h2 h4
  · exact Int.bmod_eq_of_le (by omega) (by omega)
  · exact Int.bmod_eq_of_le (by omega) (by omega)
  · exact Int.bmod_eq_of_le (by omega) (by omega)
  · exact Int.bmod_eq_of_le (by omega) (by omega)

theorem decodeCompactInt_encodeInt (v : Int64) : decodeCompactInt (encodeInt v) = v := by
  have hlen : (encodeInt v).length = intWidth v := length_toLeBytes _ _
  have hv : (v.toUInt64.toNat : ℤ).bmod (2 ^ 64) = v.toInt := v.toBitVec.toInt_eq_toNat_bmod.symm
  have hdvd : 2 ^ (8 * intWidth v) ∣ 2 ^ 64 := by
    refine pow_dvd_pow 2 ?_
    have hmem := intWidth_mem v
    simp only [List.mem_cons, List.not_mem_nil, or_false] at hmem
    omega
  apply Int64.toInt_inj.mp
  have hbyte : 256 ^ intWidth v = 2 ^ (8 * intWidth v) := by
    rw [pow_mul 2 8]
    norm_num
  rw [toInt_decodeCompactInt (hlen ▸ intWidth_mem v), hlen, encodeInt, fromLeBytes_toLeBytes, hbyte,
    Int.natCast_mod, Int.emod_bmod]
  calc (v.toUInt64.toNat : ℤ).bmod (2 ^ (8 * intWidth v))
      = ((v.toUInt64.toNat : ℤ).bmod (2 ^ 64)).bmod (2 ^ (8 * intWidth v)) := (Int.bmod_bmod_of_dvd hdvd).symm
    _ = v.toInt.bmod (2 ^ (8 * intWidth v)) := by rw [hv]
    _ = v.toInt := bmod_intWidth v

theorem toNat_toUInt64 (v : Int64) : (v.toUInt64.toNat : ℤ) = v.toInt % 2 ^ 64 := by
  have hnat : (v.toUInt64.toNat : ℤ) < 2 ^ 64 := by exact_mod_cast v.toUInt64.toNat_lt
  have hv : (v.toUInt64.toNat : ℤ).bmod (2 ^ 64) = v.toInt := v.toBitVec.toInt_eq_toNat_bmod.symm
  have hmod := Int.emod_eq_of_lt (Int.natCast_nonneg _) hnat
  rw [← hv]
  exact hmod.symm.trans Int.bmod_emod.symm

theorem bmod_emod_iff {n : ℕ} (b : ℕ) (hb : b < 63) (hn : n < 2 ^ (b + 1)) :
    (n : ℤ).bmod (2 ^ (b + 1)) % 2 ^ 64 = n ↔ n < 2 ^ b := by
  have hle : 2 ^ (b + 1) < 2 ^ 64 := Nat.pow_lt_pow_right (by decide) (by omega)
  have hmod : (n : ℤ) % ((2 ^ (b + 1) : ℕ) : ℤ) = n := Int.emod_eq_of_lt (by omega) (by omega)
  rw [Int.bmod_def, hmod]
  generalize hpow : 2 ^ (b + 1) = m at *
  rw [Nat.pow_succ] at hpow
  split_ifs <;> omega

theorem decodeCompactInt_encodeUint (v : UInt64) : (decodeCompactInt (encodeUint v)).toUInt64 = v ↔ SignFree v := by
  have hlen : (encodeUint v).length = uintWidth v := length_toLeBytes _ _
  have hlt := v.toNat_lt
  have hread : fromLeBytes (encodeUint v) = v.toNat := by
    rw [encodeUint, fromLeBytes_toLeBytes, uintWidth]
    split_ifs <;> omega
  have hint : (decodeCompactInt (encodeUint v)).toInt = (v.toNat : ℤ).bmod (2 ^ (8 * uintWidth v)) := by
    rw [toInt_decodeCompactInt (hlen ▸ uintWidth_mem v), hread, hlen]
  have hnat := toNat_toUInt64 (decodeCompactInt (encodeUint v))
  rw [hint] at hnat
  rw [← UInt64.toNat_inj, SignFree, ← Int.natCast_inj, hnat, uintWidth]
  split_ifs with h1 h2 h4
  · exact (bmod_emod_iff 7 (by decide) h1).trans (by omega)
  · exact (bmod_emod_iff 15 (by decide) h2).trans (by omega)
  · exact (bmod_emod_iff 31 (by decide) h4).trans (by omega)
  · have hmod : (v.toNat : ℤ) % 2 ^ 64 = v.toNat := Int.emod_eq_of_lt (Int.natCast_nonneg _) (by exact_mod_cast hlt)
    exact iff_of_true (Int.bmod_emod.trans hmod) (by omega)

end Integers

inductive Cell : RowColType → Type
  | int (v : Int64) : Cell (.int false)
  | uint (v : UInt64) : Cell (.int true)
  | text (s : String) : Cell .string

namespace Cell

variable {column : RowColType}

def value : Cell column → ColumnValue
  | .int v => .int v
  | .uint v => .uint v
  | .text s => .text s

def encode : Cell column → List UInt8
  | .int v => encodeInt v
  | .uint v => encodeUint v
  | .text s => s.toUTF8.data.toList

/-- Only an unsigned number can be read as another one. -/
def SignFree : Cell column → Prop
  | .uint v => TiDb.SignFree v
  | .int _ | .text _ => True

theorem decode_ne_null (cell : Cell column) : decodeTypedValue cell.encode column ≠ .null := by
  cases cell with
  | int v => exact nofun
  | uint v => exact nofun
  | text s =>
    rw [decodeTypedValue]
    split <;> exact nofun

theorem decode_encode_iff (cell : Cell column) :
    decodeTypedValue cell.encode column = cell.value ↔ cell.SignFree := by
  cases cell with
  | int v => exact iff_of_true (congrArg ColumnValue.int (decodeCompactInt_encodeInt v)) trivial
  | uint v => exact ColumnValue.uint.injEq .. ▸ decodeCompactInt_encodeUint v
  | text s =>
    have hutf8 : String.fromUTF8? ⟨s.toUTF8.data.toList.toArray⟩ = some s := dif_pos s.isValidUTF8
    refine iff_of_true ?_ trivial
    rw [encode, decodeTypedValue, hutf8]
    rfl

end Cell

inductive Assigned (column : RowColType)
  | absent
  | null
  | value (cell : Cell column)

/-- The columns in their order, each with what is assigned to it. -/
abbrev AssignedRow := List (Σ column, Assigned column)

namespace AssignedRow

def columns (row : AssignedRow) : List RowColType := row.map Sigma.fst

def payload (row : AssignedRow) (id : ℕ) : List UInt8 :=
  match row[id - 1]? with
  | some ⟨_, .value cell⟩ => cell.encode
  | _ => []

variable (pkOrdinal : Option ℕ) (handle : Int64)

def expectedAt (i : ℕ) : (Σ column, Assigned column) → ColumnValue
  | ⟨_, .value cell⟩ => cell.value
  | ⟨_, .null⟩ => .null
  | ⟨column, .absent⟩ => if pkOrdinal = some (i + 1) ∧ column.isInt then .int handle else .null

def expected (row : AssignedRow) : List ColumnValue := row.mapIdx (expectedAt pkOrdinal handle)

/-- No unsigned number has the top bit of its bytes set, and null is not assigned to an integer key. -/
def KeptAt (i : ℕ) : (Σ column, Assigned column) → Prop
  | ⟨_, .value cell⟩ => cell.SignFree
  | ⟨column, .null⟩ => ¬(pkOrdinal = some (i + 1) ∧ column.isInt)
  | ⟨_, .absent⟩ => True

end AssignedRow

def valueEnds : ℕ → List (List UInt8) → List ℕ
  | _, [] => []
  | start, payload :: payloads => (start + payload.length) :: valueEnds (start + payload.length) payloads

/-- The layout is of the row: the ids of its values and of its nulls, in any order, where the values end, and
the values. -/
structure RowLayout.LaysOut (l : RowLayout) (row : AssignedRow) : Prop where
  notNull : ∀ id, id ∈ l.notNullIds ↔ 1 ≤ id ∧ ∃ column cell, row[id - 1]? = some ⟨column, .value cell⟩
  null : ∀ id, id ∈ l.nullIds ↔ 1 ≤ id ∧ ∃ column, row[id - 1]? = some ⟨column, .null⟩
  offsets : l.offsets = valueEnds 0 (l.notNullIds.map row.payload)
  data : l.data = l.notNullIds.flatMap row.payload

section Fill

variable {columns : List RowColType} {data : List UInt8} {payload : ℕ → List UInt8} {ids : List ℕ}
  {out : List ColumnValue} {i start : ℕ}

theorem fillNotNull_valueEnds (hids : ∀ id ∈ ids, 1 ≤ id ∧ id ≤ out.length) (hstart : start ≤ data.length)
    (hdata : data.drop start = ids.flatMap payload) :
    fillNotNull columns data (ids.zip (valueEnds start (ids.map payload))) start out =
      some (ids.foldl
        (fun out id ↦ out.set (id - 1) (decodeTypedValue (payload id) (columns[id - 1]?.getD .other))) out) := by
  induction ids generalizing start out with
  | nil => rfl
  | cons id ids ih =>
    rw [List.flatMap_cons] at hdata
    have hlength := congrArg List.length hdata
    rw [List.length_drop, List.length_append] at hlength
    have hslice : slice data start (start + (payload id).length) = some (payload id) := by
      rw [slice, if_pos ⟨Nat.le_add_right _ _, by omega⟩, hdata, Nat.add_sub_cancel_left, List.take_left]
    rw [List.map_cons, valueEnds, List.zip_cons_cons, fillNotNull, if_pos (hids id List.mem_cons_self), hslice,
      Option.bind_some, List.foldl_cons]
    refine ih (fun id' hid' ↦ ?_) (by omega) ?_
    · rw [List.length_set]
      exact hids id' (List.mem_cons_of_mem _ hid')
    · rw [← List.drop_drop, hdata, List.drop_left]

theorem getElem?_foldl_set {f : ℕ → ColumnValue} (hids : ∀ id ∈ ids, 1 ≤ id) (hi : i < out.length) :
    (ids.foldl (fun out id ↦ out.set (id - 1) (f id)) out)[i]? = if i + 1 ∈ ids then some (f (i + 1)) else out[i]? := by
  induction ids generalizing out with
  | nil => rfl
  | cons id ids ih =>
    have hid := hids id List.mem_cons_self
    rw [List.foldl_cons, ih (fun id' hid' ↦ hids id' (List.mem_cons_of_mem _ hid')) (by rwa [List.length_set])]
    by_cases hmem : i + 1 ∈ ids
    · rw [if_pos hmem, if_pos (List.mem_cons_of_mem _ hmem)]
    · rw [if_neg hmem]
      by_cases heq : i + 1 = id
      · rw [if_pos (List.mem_cons.mpr (.inl heq)), ← heq, Nat.add_sub_cancel, List.getElem?_set_self hi]
      · have hne : id - 1 ≠ i := by omega
        rw [if_neg (List.mem_cons.not.mpr (not_or.mpr ⟨heq, hmem⟩)), List.getElem?_set_ne hne]

theorem fillNull_eq (hids : ∀ id ∈ ids, 1 ≤ id ∧ id ≤ out.length) :
    fillNull ids out = ids.foldl (fun out id ↦ out.set (id - 1) .null) out := by
  induction ids generalizing out with
  | nil => rfl
  | cons id ids ih =>
    rw [fillNull, List.foldl_cons, List.foldl_cons, ← fillNull, if_pos (hids id List.mem_cons_self)]
    refine ih fun id' hid' ↦ ?_
    rw [List.length_set]
    exact hids id' (List.mem_cons_of_mem _ hid')

theorem length_fillKey {pkOrdinal : Option ℕ} {handle : Int64} :
    (fillKey columns pkOrdinal handle out).length = out.length := by
  cases pkOrdinal with
  | none => rfl
  | some pk =>
    rw [fillKey]
    split_ifs
    · exact List.length_set
    · rfl

theorem getElem?_fillKey {pkOrdinal : Option ℕ} {handle : Int64} {column : RowColType} {v : ColumnValue}
    (hcolumn : columns[i]? = some column) (hv : out[i]? = some v) :
    (fillKey columns pkOrdinal handle out)[i]? =
      some (if pkOrdinal = some (i + 1) ∧ v = .null ∧ column.isInt then .int handle else v) := by
  have hi : i < out.length := (List.getElem?_eq_some_iff.mp hv).1
  cases pkOrdinal with
  | none => exact hv
  | some pk =>
    rw [fillKey]
    by_cases hpk : pk = i + 1
    · subst hpk
      rw [Nat.add_sub_cancel, hv, hcolumn]
      by_cases hfill : v = .null ∧ column.isInt
      · rw [if_pos ⟨Nat.le_add_left _ _, hi, congrArg some hfill.1, hfill.2⟩, List.getElem?_set_self hi,
          if_pos ⟨rfl, hfill⟩]
      · have hnot : ¬(1 ≤ i + 1 ∧ i + 1 ≤ out.length ∧ some v = some .null ∧ (some column).any RowColType.isInt) :=
          fun h ↦ hfill ⟨Option.some.inj h.2.2.1, h.2.2.2⟩
        rw [if_neg hnot, if_neg fun h ↦ hfill h.2, hv]
    · have hother : ¬(some pk = some (i + 1) ∧ v = .null ∧ column.isInt) := fun h ↦ hpk (Option.some.inj h.1)
      rw [if_neg hother]
      split_ifs with hfill
      · have hne : pk - 1 ≠ i := by omega
        rw [List.getElem?_set_ne hne, hv]
      · exact hv

end Fill

namespace AssignedRow

def readAt : (Σ column, Assigned column) → ColumnValue
  | ⟨column, .value cell⟩ => decodeTypedValue cell.encode column
  | ⟨_, .null⟩ | ⟨_, .absent⟩ => .null

variable {row : AssignedRow} {l : RowLayout} {i : ℕ} {pkOrdinal : Option ℕ} {handle : Int64}
  {assigned : Σ column, Assigned column}

theorem id_le {id : ℕ} (hid : 1 ≤ id) (h : row[id - 1]? = some assigned) :
    id ≤ row.length := by
  have hlt := (List.getElem?_eq_some_iff.mp h).1
  omega

theorem stored_readAt (h : l.LaysOut row) (hi : row[i]? = some assigned) :
    (if i + 1 ∈ l.nullIds then some ColumnValue.null
      else if i + 1 ∈ l.notNullIds then
        some (decodeTypedValue (row.payload (i + 1)) (row.columns[i + 1 - 1]?.getD .other))
      else some .null) = some (readAt assigned) := by
  have hnotNull := h.notNull (i + 1)
  have hnull := h.null (i + 1)
  rw [Nat.add_sub_cancel, and_iff_right (Nat.le_add_left _ _), hi] at hnotNull hnull
  obtain ⟨column, assigned⟩ := assigned
  cases assigned with
  | value cell =>
    have hnot : i + 1 ∉ l.nullIds := fun hmem ↦ by
      obtain ⟨column', heq⟩ := hnull.mp hmem
      cases heq
    have hpayload : row.payload (i + 1) = cell.encode := by
      rw [payload, Nat.add_sub_cancel, hi]
    have hcolumn : row.columns[i + 1 - 1]? = some column := by
      rw [Nat.add_sub_cancel, columns, List.getElem?_map, hi]
      rfl
    rw [if_neg hnot, if_pos (hnotNull.mpr ⟨column, cell, rfl⟩), hpayload, hcolumn]
    rfl
  | null => rw [if_pos (hnull.mpr ⟨column, rfl⟩), readAt]
  | absent =>
    have hnot : i + 1 ∉ l.notNullIds := fun hmem ↦ by
      obtain ⟨column', cell, heq⟩ := hnotNull.mp hmem
      cases heq
    rw [if_neg hnot, readAt, ite_self]

theorem decode_laysOut (h : l.LaysOut row) :
    decodeRowcodecV2 row.columns pkOrdinal handle l.bytes =
      some (.ok (fillKey row.columns pkOrdinal handle (row.map readAt))) := by
  have hlength : (List.replicate row.columns.length ColumnValue.null).length = row.length := by
    rw [List.length_replicate, columns, List.length_map]
  have hvalues : ∀ id ∈ l.notNullIds, 1 ≤ id ∧ id ≤ (List.replicate row.columns.length ColumnValue.null).length := by
    intro id hid
    obtain ⟨hpos, column, cell, hcell⟩ := (h.notNull id).mp hid
    exact ⟨hpos, hlength ▸ id_le hpos hcell⟩
  have hnulls : ∀ id ∈ l.nullIds, 1 ≤ id ∧ id ≤ row.length := by
    intro id hid
    obtain ⟨hpos, column, hcell⟩ := (h.null id).mp hid
    exact ⟨hpos, id_le hpos hcell⟩
  have hfill := @fillNotNull_valueEnds row.columns l.data row.payload _ _ 0 hvalues (Nat.zero_le _) h.data
  have hfilled := (length_fillNotNull hfill).trans hlength
  rw [← h.offsets] at hfill
  rw [decodeRowcodecV2, l.parse_bytes]
  dsimp only [RowLayout.parsed]
  rw [hfill, Option.map_some]
  generalize hout : List.foldl _ _ l.notNullIds = out at hfilled ⊢
  have hnulled := (length_fillNull l.nullIds).trans hfilled
  congr 3
  apply List.ext_getElem?
  intro i
  by_cases hi : i < row.length
  · have hcolumn : i < row.columns.length := by rwa [columns, List.length_map]
    rw [fillNull_eq (by rwa [hfilled]), getElem?_foldl_set (fun id hid ↦ (hnulls id hid).1) (by rwa [hfilled]), ← hout,
      getElem?_foldl_set (fun id hid ↦ (hvalues id hid).1) (by rwa [hlength]), List.getElem?_map,
      List.getElem?_replicate, if_pos hcolumn, List.getElem?_eq_getElem hi]
    exact stored_readAt h (List.getElem?_eq_getElem hi)
  · have hend := not_lt.mp hi
    rw [List.getElem?_eq_none (hnulled ▸ hend), List.getElem?_eq_none (by rwa [List.length_map])]

variable (pkOrdinal handle) in
theorem getElem?_expected (hi : row[i]? = some assigned) :
    (row.expected pkOrdinal handle)[i]? = some (expectedAt pkOrdinal handle i assigned) := by
  rw [expected, List.getElem?_mapIdx, hi]
  rfl

theorem readAt_iff (hi : row[i]? = some assigned) :
    (fillKey row.columns pkOrdinal handle (row.map readAt))[i]? = (row.expected pkOrdinal handle)[i]? ↔
      KeptAt pkOrdinal i assigned := by
  have hcolumn : row.columns[i]? = some assigned.1 := by
    rw [columns, List.getElem?_map, hi]
    rfl
  have hread : (row.map readAt)[i]? = some (readAt assigned) := by
    rw [List.getElem?_map, hi]
    rfl
  rw [getElem?_fillKey hcolumn hread, getElem?_expected pkOrdinal handle hi, Option.some_inj]
  obtain ⟨column, assigned⟩ := assigned
  cases assigned with
  | value cell =>
    have hnot : ¬(pkOrdinal = some (i + 1) ∧ readAt ⟨column, .value cell⟩ = .null ∧ column.isInt) :=
      fun h ↦ cell.decode_ne_null h.2.1
    rw [if_neg hnot]
    exact cell.decode_encode_iff
  | null =>
    rw [readAt, expectedAt, KeptAt]
    constructor
    · intro heq hkey
      rw [if_pos ⟨hkey.1, rfl, hkey.2⟩] at heq
      cases heq
    · intro hkey
      exact if_neg fun h ↦ hkey ⟨h.1, h.2.2⟩
  | absent =>
    refine iff_of_true ?_ trivial
    rw [readAt, expectedAt]
    refine if_congr ?_ rfl rfl
    rw [eq_self, true_and]

theorem rowcodec_inverts_iff (h : l.LaysOut row) :
    decodeRowcodecV2 row.columns pkOrdinal handle l.bytes = some (.ok (row.expected pkOrdinal handle)) ↔
      ∀ i assigned, row[i]? = some assigned → KeptAt pkOrdinal i assigned := by
  rw [decode_laysOut h, Option.some_inj, Except.ok.injEq, List.ext_getElem?_iff]
  refine forall_congr' fun i ↦ ?_
  cases hi : row[i]? with
  | none =>
    have hend := List.getElem?_eq_none_iff.mp hi
    refine iff_of_true ?_ nofun
    rw [List.getElem?_eq_none (by rwa [length_fillKey, List.length_map]),
      List.getElem?_eq_none (by rwa [expected, List.length_mapIdx])]
  | some assigned =>
    rw [readAt_iff hi]
    exact ⟨fun h assigned' h' ↦ Option.some.inj h' ▸ h, fun h ↦ h assigned rfl⟩

end AssignedRow

section Example

def signedRow (score : UInt64) : AssignedRow :=
  [⟨.int false, .absent⟩, ⟨.string, .value (.text "ab")⟩, ⟨.int true, .value (.uint score)⟩, ⟨.other, .null⟩]

def signedLayout (score : UInt8) : RowLayout where
  flags := 0
  notNullIds := [2, 3]
  nullIds := [4]
  offsets := [2, 3]
  data := [97, 98, score]
  checksum := []
  length_offsets := rfl
  notNull_fits := by decide
  null_fits := by decide
  ids_fit := by decide
  offsets_fit := by decide
  length_data := rfl

theorem signedRow_payloads {score : UInt64} {b : UInt8} (hscore : encodeUint score = [b]) :
    [2, 3].map (signedRow score).payload = [[97, 98], [b]] := by
  have hname : "ab".toUTF8.data.toList = [97, 98] := by decide +kernel
  rw [← hname, ← hscore]
  rfl

theorem signedLayout_laysOut {score : UInt64} {b : UInt8} (hscore : encodeUint score = [b]) :
    (signedLayout b).LaysOut (signedRow score) where
  notNull id := by
    match id with
    | 0 | 1 | 2 | 3 | 4 => simp [signedLayout, signedRow]
    | id + 5 => simp [signedLayout, signedRow]
  null id := by
    match id with
    | 0 | 1 | 2 | 3 | 4 => simp [signedLayout, signedRow]
    | id + 5 => simp [signedLayout, signedRow]
  offsets := by
    have hpayloads : (signedLayout b).notNullIds.map (signedRow score).payload = [[97, 98], [b]] :=
      signedRow_payloads hscore
    rw [hpayloads]
    rfl
  data := by
    rw [List.flatMap_def, signedLayout, signedRow_payloads hscore]
    rfl

/-- A score below 128 is read as it is, and one above it as a negative number. -/
theorem signedRow_read : decodeRowcodecV2 (signedRow 88).columns (some 1) 17 (signedLayout 88).bytes =
    some (.ok [.int 17, .text "ab", .uint 88, .null]) := by
  refine (AssignedRow.rowcodec_inverts_iff (signedLayout_laysOut (by decide +kernel))).mpr fun i assigned hi ↦ ?_
  match i with
  | 0 | 1 | 3 =>
    obtain rfl := Option.some.inj hi
    simp [AssignedRow.KeptAt, Cell.SignFree]
  | 2 =>
    obtain rfl := Option.some.inj hi
    exact .inl (by decide)
  | i + 4 => cases hi

theorem unsigned_misread : (signedLayout 200).LaysOut (signedRow 200) ∧
    decodeRowcodecV2 (signedRow 200).columns (some 1) 17 (signedLayout 200).bytes ≠
      some (.ok ((signedRow 200).expected (some 1) 17)) := by
  refine ⟨signedLayout_laysOut (by decide +kernel), fun h ↦ ?_⟩
  have hvalues := congrArg (Option.map Except.toOption) h
  revert hvalues
  decide +kernel

end Example

end SeaTunnel.Cdc.TiDb
