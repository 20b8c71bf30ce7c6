import Mathlib.Data.List.Pairwise
import SeaTunnel.Cdc.TiDbTracker
import SeaTunnel.Lib.Integers

namespace SeaTunnel.Cdc.TiDb

open Lib.Integers

inductive ColumnValue
  | null
  | int (v : Int64)
  | uint (v : UInt64)
  | float (bits : UInt64)
  | bytes (v : List UInt8)
  | text (v : String)
  | json (v : String)
  deriving DecidableEq

inductive RowColType
  | int (unsigned : Bool)
  | float
  | string
  | other
  deriving DecidableEq

namespace RowColType

def isInt : RowColType → Bool
  | .int _ => true
  | _ => false

end RowColType

section Values

def decodeCompactInt (data : List UInt8) : Int64 :=
  match data.length with
  | 1 => (UInt8.ofNat (fromLeBytes data)).toInt8.toInt64
  | 2 => (UInt16.ofNat (fromLeBytes data)).toInt16.toInt64
  | 4 => (UInt32.ofNat (fromLeBytes data)).toInt32.toInt64
  | 8 => (UInt64.ofNat (fromLeBytes data)).toInt64
  | _ => 0

def decodeTypedValue (data : List UInt8) : RowColType → ColumnValue
  | .int unsigned => if unsigned then .uint (decodeCompactInt data).toUInt64 else .int (decodeCompactInt data)
  | .float => if data.length = 8 then .float (fromBeBytes data) else .bytes data
  | .string =>
    match String.fromUTF8? ⟨data.toArray⟩ with
    | some s => .text s
    | none => .bytes data
  | .other => .bytes data

end Values

section Rowcodec

/-- What the head of a value tells: the ids of the columns, where the values end, and the values. -/
structure Rowcodec where
  notNullIds : List ℕ
  nullIds : List ℕ
  offsets : List ℕ
  data : List UInt8

/-- `count` integers of `width` bytes each. -/
def readInts (width count : ℕ) (bytes : List UInt8) : List ℕ :=
  (List.range count).map fun i ↦ fromLeBytes ((bytes.drop (i * width)).take width)

/-- The ids and the ends of the values have `idWidth` and `offWidth` bytes. -/
def readColumns (idWidth offWidth : ℕ) (value : List UInt8) : Except String Rowcodec :=
  let numNotNull := fromLeBytes ((value.drop 2).take 2)
  let numNull := fromLeBytes ((value.drop 4).take 2)
  let cursor := 6 + (numNotNull + numNull) * idWidth + numNotNull * offWidth
  if value.length < cursor then .error "rowcodec v2 column metadata truncated"
  else
    let offsets := readInts offWidth numNotNull (value.drop (6 + (numNotNull + numNull) * idWidth))
    let dataLen := offsets.getLast?.getD 0
    if value.length < cursor + dataLen then .error "rowcodec v2 data truncated"
    else
      .ok
        { notNullIds := readInts idWidth numNotNull (value.drop 6)
          nullIds := readInts idWidth numNull (value.drop (6 + numNotNull * idWidth))
          offsets
          data := (value.drop cursor).take dataLen }

def parseRowcodec (value : List UInt8) : Except String Rowcodec :=
  if value.length < 6 then .error "rowcodec v2 header truncated"
  else if (value[1]?.getD 0) &&& 0x01 ≠ 0 then readColumns 4 4 value
  else readColumns 1 2 value

/-- `data[start..stop]`, or `none` out of range. -/
def slice (data : List UInt8) (start stop : ℕ) : Option (List UInt8) :=
  if start ≤ stop ∧ stop ≤ data.length then some ((data.drop start).take (stop - start)) else none

variable (columns : List RowColType)

def fillNotNull (data : List UInt8) : List (ℕ × ℕ) → ℕ → List ColumnValue → Option (List ColumnValue)
  | [], _, out => some out
  | (id, stop) :: rest, prevEnd, out =>
    if 1 ≤ id ∧ id ≤ out.length then
      (slice data prevEnd stop).bind fun bytes ↦
        fillNotNull data rest stop (out.set (id - 1) (decodeTypedValue bytes (columns[id - 1]?.getD .other)))
    else fillNotNull data rest stop out

def fillNull (ids : List ℕ) (out : List ColumnValue) : List ColumnValue :=
  ids.foldl (fun out id ↦ if 1 ≤ id ∧ id ≤ out.length then out.set (id - 1) .null else out) out

def fillKey (pkOrdinal : Option ℕ) (handle : Int64) (out : List ColumnValue) : List ColumnValue :=
  match pkOrdinal with
  | some pk =>
    if 1 ≤ pk ∧ pk ≤ out.length ∧ out[pk - 1]? = some .null ∧ (columns[pk - 1]?).any RowColType.isInt then
      out.set (pk - 1) (.int handle)
    else out
  | none => out

variable (pkOrdinal : Option ℕ) (handle : Int64)

/-- `none` where a slice is out of range. -/
def decodeRowcodecV2 (value : List UInt8) : Option (Except String (List ColumnValue)) :=
  match parseRowcodec value with
  | .error e => some (.error e)
  | .ok r =>
    (fillNotNull columns r.data (r.notNullIds.zip r.offsets) 0 (List.replicate columns.length .null)).map fun out ↦
      .ok (fillKey columns pkOrdinal handle (fillNull r.nullIds out))

/-- `decodeRowValue` reads a value that describes itself. -/
def decodeRowValueWithSchema (decodeRowValue : List UInt8 → Option (Except String (List ColumnValue)))
    (value : List UInt8) : Option (Except String (List ColumnValue)) :=
  if value[0]? = some 0x80 then decodeRowcodecV2 columns pkOrdinal handle value else decodeRowValue value

end Rowcodec

section Fill

variable {columns : List RowColType} {data : List UInt8} {entries : List (ℕ × ℕ)} {prevEnd : ℕ}
  {out out' : List ColumnValue} {handle : Int64}

theorem length_fillNotNull (h : fillNotNull columns data entries prevEnd out = some out') :
    out'.length = out.length := by
  induction entries generalizing prevEnd out with
  | nil =>
    cases h
    rfl
  | cons entry entries ih =>
    rw [fillNotNull] at h
    split at h
    · obtain ⟨bytes, -, h⟩ := Option.bind_eq_some_iff.mp h
      rw [ih h, List.length_set]
    · exact ih h

theorem getElem?_fillNotNull {pk : ℕ} (hpk : 1 ≤ pk) (habsent : pk ∉ entries.map Prod.fst)
    (h : fillNotNull columns data entries prevEnd out = some out') : out'[pk - 1]? = out[pk - 1]? := by
  induction entries generalizing prevEnd out with
  | nil =>
    cases h
    rfl
  | cons entry entries ih =>
    rw [List.map_cons, List.mem_cons, not_or] at habsent
    rw [fillNotNull] at h
    split at h
    · next hid =>
      obtain ⟨bytes, -, h⟩ := Option.bind_eq_some_iff.mp h
      have hne : entry.1 - 1 ≠ pk - 1 := by
        have := habsent.1
        omega
      rw [ih habsent.2 h, List.getElem?_set_ne hne]
    · exact ih habsent.2 h

theorem fillNotNull_isSome {ids offsets : List ℕ} (hsorted : (prevEnd :: offsets).Pairwise (· ≤ ·))
    (hfits : ∀ offset ∈ offsets, offset ≤ data.length) : (fillNotNull columns data (ids.zip offsets) prevEnd out).isSome := by
  induction offsets generalizing ids prevEnd out with
  | nil =>
    rw [List.zip_nil_right]
    rfl
  | cons offset offsets ih =>
    cases ids with
    | nil => rfl
    | cons id ids =>
      rw [List.pairwise_cons] at hsorted
      have hle : prevEnd ≤ offset := hsorted.1 offset List.mem_cons_self
      have hrest (out : List ColumnValue) : (fillNotNull columns data (ids.zip offsets) offset out).isSome :=
        ih hsorted.2 fun o ho ↦ hfits o (List.mem_cons_of_mem _ ho)
      have hslice : slice data prevEnd offset = some ((data.drop prevEnd).take (offset - prevEnd)) :=
        if_pos ⟨hle, hfits offset List.mem_cons_self⟩
      rw [List.zip_cons_cons, fillNotNull, hslice]
      split
      · exact hrest _
      · exact hrest _

theorem length_fillNull (ids : List ℕ) : (fillNull ids out).length = out.length := by
  induction ids generalizing out with
  | nil => rfl
  | cons id ids ih =>
    rw [fillNull, List.foldl_cons, ← fillNull, ih]
    split
    · exact List.length_set
    · rfl

theorem getElem?_fillNull {ids : List ℕ} {i : ℕ} (h : out[i]? = some .null) : (fillNull ids out)[i]? = some .null := by
  induction ids generalizing out with
  | nil => exact h
  | cons id ids ih =>
    rw [fillNull, List.foldl_cons, ← fillNull]
    refine ih ?_
    split
    · rcases eq_or_ne (id - 1) i with rfl | hne
      · have hi := (List.getElem?_eq_some_iff.mp h).1
        rw [List.getElem?_set_self hi]
      · rw [List.getElem?_set_ne hne, h]
    · exact h

theorem fillKey_eq {pk : ℕ} (hpk : 1 ≤ pk) (hnull : out[pk - 1]? = some .null)
    (hint : (columns[pk - 1]?).any RowColType.isInt) :
    (fillKey columns (some pk) handle out)[pk - 1]? = some (.int handle) := by
  have hlt := (List.getElem?_eq_some_iff.mp hnull).1
  have hle : pk ≤ out.length := by omega
  rw [fillKey, if_pos ⟨hpk, hle, hnull, hint⟩, List.getElem?_set_self hlt]

end Fill

section Decode

variable {columns : List RowColType} {pkOrdinal : Option ℕ} {handle : Int64} {value : List UInt8}
  {decodeRowValue : List UInt8 → Option (Except String (List ColumnValue))}

/-- The values of a row end one behind the other; one that describes itself is read to its end. -/
def Encoded (decodeRowValue : List UInt8 → Option (Except String (List ColumnValue))) (value : List UInt8) : Prop :=
  if value[0]? = some 0x80 then ∀ r, parseRowcodec value = .ok r → r.offsets.Pairwise (· ≤ ·)
  else (decodeRowValue value).isSome

theorem readColumns_data {idWidth offWidth : ℕ} {r : Rowcodec} (h : readColumns idWidth offWidth value = .ok r) :
    r.data.length = r.offsets.getLast?.getD 0 := by
  rw [readColumns] at h
  split at h
  · cases h
  · dsimp only at h
    split at h
    · cases h
    · next hfits =>
      cases h
      rw [List.length_take, List.length_drop]
      exact Nat.min_eq_left (by omega)

theorem parseRowcodec_data {r : Rowcodec} (h : parseRowcodec value = .ok r) :
    r.data.length = r.offsets.getLast?.getD 0 := by
  rw [parseRowcodec] at h
  split at h
  · cases h
  · split at h
    · exact readColumns_data h
    · exact readColumns_data h

theorem decode_isSome (hvalue : Encoded decodeRowValue value) :
    (decodeRowValueWithSchema columns pkOrdinal handle decodeRowValue value).isSome := by
  rw [Encoded] at hvalue
  rw [decodeRowValueWithSchema]
  split
  · next hversion =>
    rw [if_pos hversion] at hvalue
    rw [decodeRowcodecV2]
    cases hparse : parseRowcodec value with
    | error e => rfl
    | ok r =>
      have hsorted := hvalue r hparse
      have hfits : ∀ offset ∈ r.offsets, offset ≤ r.data.length := by
        intro offset hoffset
        rw [parseRowcodec_data hparse, List.getLast?_eq_some_getLast (List.ne_nil_of_mem hoffset), Option.getD_some]
        exact hsorted.rel_getLast hoffset
      have hzero : (0 :: r.offsets).Pairwise (· ≤ ·) := List.pairwise_cons.mpr ⟨fun _ _ ↦ Nat.zero_le _, hsorted⟩
      rw [Option.isSome_map]
      exact fillNotNull_isSome hzero hfits
  · next hversion =>
    rw [if_neg hversion] at hvalue
    exact hvalue

theorem decode_key {pk : ℕ} {r : Rowcodec} (hversion : value[0]? = some 0x80) (hparse : parseRowcodec value = .ok r)
    (hvalue : Encoded decodeRowValue value) (hpk : 1 ≤ pk) (habsent : pk ∉ r.notNullIds)
    (hint : (columns[pk - 1]?).any RowColType.isInt) :
    ∃ out, decodeRowValueWithSchema columns (some pk) handle decodeRowValue value = some (.ok out) ∧
      out[pk - 1]? = some (.int handle) := by
  have hsome : (decodeRowValueWithSchema columns (some pk) handle decodeRowValue value).isSome := decode_isSome hvalue
  rw [decodeRowValueWithSchema, if_pos hversion, decodeRowcodecV2, hparse] at hsome ⊢
  dsimp only at hsome ⊢
  rw [Option.isSome_map] at hsome
  obtain ⟨filled, hfilled⟩ := Option.isSome_iff_exists.mp hsome
  have hlt : pk - 1 < columns.length := by
    by_contra hge
    rw [List.getElem?_eq_none (not_lt.mp hge)] at hint
    cases hint
  have hentries : pk ∉ (r.notNullIds.zip r.offsets).map Prod.fst := fun h ↦ by
    obtain ⟨entry, hentry, rfl⟩ := List.mem_map.mp h
    exact habsent (List.of_mem_zip hentry).1
  rw [hfilled]
  refine ⟨_, rfl, fillKey_eq hpk (getElem?_fillNull ?_) hint⟩
  rw [getElem?_fillNotNull hpk hentries hfilled, List.getElem?_replicate, if_pos hlt]

end Decode

end SeaTunnel.Cdc.TiDb
