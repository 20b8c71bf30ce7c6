import Mathlib.Tactic.Ring
import SeaTunnel.Cdc.TiDbDecoder

namespace SeaTunnel.Cdc.TiDb

open Lib.Integers

section Widths

def idWidth (flags : UInt8) : ℕ := if flags &&& 0x01 ≠ 0 then 4 else 1

def offWidth (flags : UInt8) : ℕ := if flags &&& 0x01 ≠ 0 then 4 else 2

def writeInts (width : ℕ) (ns : List ℕ) : List UInt8 := ns.flatMap (toLeBytes width)

variable {width : ℕ}

theorem length_writeInts (ns : List ℕ) : (writeInts width ns).length = ns.length * width := by
  induction ns with
  | nil => rw [writeInts, List.flatMap_nil, List.length_nil, List.length_nil, Nat.zero_mul]
  | cons n ns ih =>
    rw [writeInts, List.flatMap_cons, ← writeInts, List.length_append, length_toLeBytes, ih, List.length_cons,
      Nat.succ_mul, Nat.add_comm]

theorem readInts_succ (count : ℕ) (bytes : List UInt8) :
    readInts width (count + 1) bytes = fromLeBytes (bytes.take width) :: readInts width count (bytes.drop width) := by
  rw [readInts, List.range_succ_eq_map, List.map_cons, List.map_map, Nat.zero_mul, List.drop_zero]
  refine congrArg _ (List.map_congr_left fun i _ ↦ ?_)
  rw [Function.comp_apply, List.drop_drop, Nat.succ_mul, Nat.add_comm width]

theorem readInts_writeInts {ns : List ℕ} (hfit : ∀ n ∈ ns, n < 256 ^ width) (rest : List UInt8) :
    readInts width ns.length (writeInts width ns ++ rest) = ns := by
  induction ns with
  | nil => rfl
  | cons n ns ih =>
    rw [writeInts, List.flatMap_cons, ← writeInts, List.length_cons, readInts_succ, List.append_assoc,
      List.take_left' (length_toLeBytes width n), List.drop_left' (length_toLeBytes width n),
      ih fun m hm ↦ hfit m (List.mem_cons_of_mem _ hm), fromLeBytes_toLeBytes,
      Nat.mod_eq_of_lt (hfit n List.mem_cons_self)]

theorem length_readInts (count : ℕ) (bytes : List UInt8) : (readInts width count bytes).length = count := by
  rw [readInts, List.length_map, List.length_range]

theorem writeInts_readInts {count : ℕ} {bytes : List UInt8} (hlen : count * width ≤ bytes.length) :
    writeInts width (readInts width count bytes) = bytes.take (count * width) := by
  induction count generalizing bytes with
  | zero =>
    rw [Nat.zero_mul, List.take_zero]
    rfl
  | succ count ih =>
    rw [Nat.succ_mul] at hlen
    have htake : (bytes.take width).length = width := List.length_take_of_le (by omega)
    have hbytes : toLeBytes width (fromLeBytes (bytes.take width)) = bytes.take width := by
      have hread := toLeBytes_fromLeBytes (bytes.take width)
      rwa [htake] at hread
    have hdrop : count * width ≤ (bytes.drop width).length := by
      rw [List.length_drop]
      omega
    rw [readInts_succ, writeInts, List.flatMap_cons, ← writeInts, hbytes, ih hdrop, Nat.succ_mul, Nat.add_comm,
      List.take_add]

theorem readInts_lt {count : ℕ} {bytes : List UInt8} {n : ℕ} (hn : n ∈ readInts width count bytes) :
    n < 256 ^ width := by
  obtain ⟨i, -, rfl⟩ := List.mem_map.mp hn
  refine (fromLeBytes_lt _).trans_le (Nat.pow_le_pow_right (by decide) ?_)
  exact List.length_take_le _ _

end Widths

/-- A value in the layout, part by part: `VER | flags | num_not_null | num_null | col_ids | offsets |
data | checksum`. -/
structure RowLayout where
  flags : UInt8
  notNullIds : List ℕ
  nullIds : List ℕ
  offsets : List ℕ
  data : List UInt8
  checksum : List UInt8
  length_offsets : offsets.length = notNullIds.length
  notNull_fits : notNullIds.length < 256 ^ 2
  null_fits : nullIds.length < 256 ^ 2
  ids_fit : ∀ id ∈ notNullIds ++ nullIds, id < 256 ^ idWidth flags
  offsets_fit : ∀ offset ∈ offsets, offset < 256 ^ offWidth flags
  length_data : data.length = offsets.getLast?.getD 0

namespace RowLayout

variable (l : RowLayout)

def bytes : List UInt8 :=
  0x80 :: l.flags :: (toLeBytes 2 l.notNullIds.length ++ (toLeBytes 2 l.nullIds.length ++
    (writeInts (idWidth l.flags) l.notNullIds ++ (writeInts (idWidth l.flags) l.nullIds ++
      (writeInts (offWidth l.flags) l.offsets ++ (l.data ++ l.checksum))))))

def parsed : Rowcodec := ⟨l.notNullIds, l.nullIds, l.offsets, l.data⟩

theorem parse_eq (value : List UInt8) (hlen : 6 ≤ value.length) :
    parseRowcodec value = readColumns (idWidth (value[1]?.getD 0)) (offWidth (value[1]?.getD 0)) value := by
  rw [parseRowcodec, if_neg (not_lt.mpr hlen), idWidth, offWidth]
  split_ifs
  · rfl
  · rfl

theorem drop_part {value part rest : List UInt8} {i k : ℕ} (h : value.drop i = part ++ rest) (hpart : part.length = k) :
    value.drop (i + k) = rest := by
  rw [← List.drop_drop, h, List.drop_left' hpart]

theorem length_bytes : l.bytes.length =
    6 + (l.notNullIds.length + l.nullIds.length) * idWidth l.flags + l.notNullIds.length * offWidth l.flags +
      (l.data.length + l.checksum.length) := by
  simp only [bytes, List.length_cons, List.length_append, length_toLeBytes, length_writeInts, l.length_offsets]
  ring

theorem fromLeBytes_take {n : ℕ} (hn : n < 256 ^ 2) (rest : List UInt8) :
    fromLeBytes ((toLeBytes 2 n ++ rest).take 2) = n := by
  rw [List.take_left' (length_toLeBytes 2 n), fromLeBytes_toLeBytes, Nat.mod_eq_of_lt hn]

theorem parse_bytes : parseRowcodec l.bytes = .ok l.parsed := by
  have hlength := l.length_bytes
  have h2 : l.bytes.drop 2 = toLeBytes 2 l.notNullIds.length ++ _ := rfl
  have h4 : l.bytes.drop 4 = toLeBytes 2 l.nullIds.length ++ _ := drop_part h2 (length_toLeBytes 2 _)
  have hids : l.bytes.drop 6 = writeInts (idWidth l.flags) l.notNullIds ++ _ := drop_part h4 (length_toLeBytes 2 _)
  have hnulls := drop_part hids (length_writeInts _)
  have hoffsets := drop_part hnulls (length_writeInts _)
  rw [Nat.add_assoc, ← Nat.add_mul] at hoffsets
  have hdata := drop_part hoffsets (length_writeInts _)
  rw [l.length_offsets] at hdata
  have hnotNull : fromLeBytes ((l.bytes.drop 2).take 2) = l.notNullIds.length := by
    rw [h2, fromLeBytes_take l.notNull_fits]
  have hnull : fromLeBytes ((l.bytes.drop 4).take 2) = l.nullIds.length := by
    rw [h4, fromLeBytes_take l.null_fits]
  have hends : readInts (offWidth l.flags) l.notNullIds.length
      (l.bytes.drop (6 + (l.notNullIds.length + l.nullIds.length) * idWidth l.flags)) = l.offsets := by
    rw [hoffsets, ← l.length_offsets, readInts_writeInts l.offsets_fit]
  have hflags : l.bytes[1]?.getD 0 = l.flags := rfl
  have hmeta : ¬l.bytes.length <
      6 + (l.notNullIds.length + l.nullIds.length) * idWidth l.flags + l.notNullIds.length * offWidth l.flags := by omega
  have hfits : ¬l.bytes.length < 6 + (l.notNullIds.length + l.nullIds.length) * idWidth l.flags +
      l.notNullIds.length * offWidth l.flags + l.offsets.getLast?.getD 0 := by
    rw [← l.length_data]
    omega
  rw [parse_eq _ (by omega), hflags, readColumns]
  simp only [hnotNull, hnull, hends, if_neg hmeta, if_neg hfits]
  rw [hids, readInts_writeInts fun id hid ↦ l.ids_fit id (List.mem_append_left _ hid), hnulls,
    readInts_writeInts fun id hid ↦ l.ids_fit id (List.mem_append_right _ hid), hdata, ← l.length_data, List.take_left]
  rfl

theorem split_part {value part : List UInt8} {i k : ℕ} (hpart : part = (value.drop i).take k) :
    value.drop i = part ++ value.drop (i + k) := by
  rw [hpart, ← List.drop_drop, List.take_append_drop]

theorem toLeBytes_take {value : List UInt8} {i : ℕ} (hlen : i + 2 ≤ value.length) :
    toLeBytes 2 (fromLeBytes ((value.drop i).take 2)) = (value.drop i).take 2 := by
  have htake : ((value.drop i).take 2).length = 2 := by
    rw [List.length_take, List.length_drop]
    omega
  have hbytes := toLeBytes_fromLeBytes ((value.drop i).take 2)
  rwa [htake] at hbytes

theorem fromLeBytes_take_lt (bytes : List UInt8) : fromLeBytes (bytes.take 2) < 256 ^ 2 :=
  (fromLeBytes_lt _).trans_le (Nat.pow_le_pow_right (by decide) (List.length_take_le _ _))

theorem exists_layout {value : List UInt8} {r : Rowcodec} (hversion : value[0]? = some 0x80)
    (h : parseRowcodec value = .ok r) : ∃ l : RowLayout, value = l.bytes ∧ r = l.parsed := by
  have hlen : 6 ≤ value.length := by
    by_contra hshort
    rw [parseRowcodec, if_pos (not_le.mp hshort)] at h
    cases h
  obtain ⟨version, flags, rest, rfl⟩ : ∃ version flags rest, value = version :: flags :: rest := by
    rcases value with _ | ⟨version, _ | ⟨flags, rest⟩⟩
    · simp at hlen
    · simp at hlen
    · exact ⟨version, flags, rest, rfl⟩
  obtain rfl := Option.some.inj hversion
  generalize hvalue : (0x80 :: flags :: rest : List UInt8) = value at h hlen
  have hflags : value[1]?.getD 0 = flags := by
    rw [← hvalue]
    rfl
  rw [parse_eq value hlen, hflags, readColumns] at h
  dsimp only at h
  split_ifs at h with hmeta hfits
  have hnotNull : toLeBytes 2 (fromLeBytes ((value.drop 2).take 2)) = _ := toLeBytes_take (by omega)
  have hnull : toLeBytes 2 (fromLeBytes ((value.drop 4).take 2)) = _ := toLeBytes_take (by omega)
  have hnotNull_fits := fromLeBytes_take_lt (value.drop 2)
  have hnull_fits := fromLeBytes_take_lt (value.drop 4)
  generalize fromLeBytes ((value.drop 2).take 2) = n at *
  generalize fromLeBytes ((value.drop 4).take 2) = m at *
  obtain rfl := Except.ok.inj h
  have hids_len : n * idWidth flags ≤ (value.drop 6).length := by
    rw [List.length_drop]
    rw [Nat.add_mul] at hmeta
    omega
  have hnulls_len : m * idWidth flags ≤ (value.drop (6 + n * idWidth flags)).length := by
    rw [List.length_drop]
    rw [Nat.add_mul] at hmeta
    omega
  have hoffsets_len : n * offWidth flags ≤ (value.drop (6 + (n + m) * idWidth flags)).length := by
    rw [List.length_drop]
    omega
  have h2 : value.drop 2 = toLeBytes 2 n ++ value.drop 4 := split_part hnotNull
  have h4 : value.drop 4 = toLeBytes 2 m ++ value.drop 6 := split_part hnull
  have h6 := split_part (writeInts_readInts hids_len)
  have hnulls := split_part (writeInts_readInts hnulls_len)
  rw [Nat.add_assoc, ← Nat.add_mul] at hnulls
  have hoffsets := split_part (writeInts_readInts hoffsets_len)
  generalize hends : readInts (offWidth flags) n (value.drop (6 + (n + m) * idWidth flags)) = offsets at *
  have hdata : value.drop (6 + (n + m) * idWidth flags + n * offWidth flags) = _ ++ value.drop (_ + _) :=
    split_part (k := offsets.getLast?.getD 0) rfl
  let l : RowLayout :=
    { flags
      notNullIds := readInts (idWidth flags) n (value.drop 6)
      nullIds := readInts (idWidth flags) m (value.drop (6 + n * idWidth flags))
      offsets
      data := (value.drop (6 + (n + m) * idWidth flags + n * offWidth flags)).take (offsets.getLast?.getD 0)
      checksum := value.drop (6 + (n + m) * idWidth flags + n * offWidth flags + offsets.getLast?.getD 0)
      length_offsets := by rw [← hends, length_readInts, length_readInts]
      notNull_fits := by rwa [length_readInts]
      null_fits := by rwa [length_readInts]
      ids_fit := by
        intro id hid
        rcases List.mem_append.mp hid with hid | hid
        · exact readInts_lt hid
        · exact readInts_lt hid
      offsets_fit := by
        intro offset hoffset
        rw [← hends] at hoffset
        exact readInts_lt hoffset
      length_data := by
        rw [List.length_take, List.length_drop]
        omega }
  refine ⟨l, ?_, rfl⟩
  rw [bytes, length_readInts, length_readInts, ← hdata, ← hoffsets, ← hnulls, ← h6, ← h4, ← h2, ← hvalue]
  rfl

end RowLayout

end SeaTunnel.Cdc.TiDb
