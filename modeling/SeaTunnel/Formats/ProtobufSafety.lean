import Mathlib.Logic.Relation
import SeaTunnel.Formats.BinaryRoundTrip
import SeaTunnel.Lib.Checked

namespace SeaTunnel.Formats.ProtobufSafety

open Binary (FieldTexts fromUtf8Lossy)
open Binary.Protobuf (readText readNumber)
open BinaryRoundTrip (accounts asciiTexts)
open CanalClient (CdcRow)
open JsonValue (ColumnDef Field TableSchema)
open Lib Lib.Checked Lib.Integers

section Model

def shl (v : UInt64) (shift : ℕ) : Checked UInt64 :=
  ofRange (if shift < 64 then some (v <<< UInt64.ofNat shift) else none)

def add (a b : ℕ) : Checked ℕ := ofRange (if a + b < 2 ^ 64 then some (a + b) else none)

def sub (a b : ℕ) : Checked ℕ := ofRange (if b ≤ a then some (a - b) else none)

def slice (bytes : List UInt8) (start stop : ℕ) : Checked (List UInt8) :=
  ofRange (if start ≤ stop ∧ stop ≤ bytes.length then some ((bytes.drop start).take (stop - start)) else none)

def setField (i : ℕ) (field : Field) (fields : List Field) : Checked (List Field) :=
  ofRange (if i < fields.length then some (fields.set i field) else none)

def readVarintFrom : List UInt8 → UInt64 → ℕ → ℕ → Checked (UInt64 × ℕ)
  | [], _, _, _ => refuse "Truncated varint"
  | b :: bytes, result, shift, consumed => do
    let part ← shl (b &&& 0x7F).toUInt64 shift
    if b &&& 0x80 = 0 then pure (result ||| part, consumed + 1)
    else readVarintFrom bytes (result ||| part) (shift + 7) (consumed + 1)

def readVarint (bytes : List UInt8) (pos : ℕ) : Checked (UInt64 × ℕ) := readVarintFrom (bytes.drop pos) 0 0 0

variable (texts : FieldTexts)

def readField (col : ColumnDef) (wireType : UInt64) (bytes : List UInt8) (pos : ℕ) : Checked (Field × ℕ) :=
  if wireType = 0 then do
    let (v, consumed) ← readVarint bytes pos
    pure (readNumber col v, consumed)
  else if wireType = 2 then do
    let (len, consumed) ← readVarint bytes pos
    let stop ← add (pos + consumed) len.toNat
    if bytes.length < stop then pure (.null, 0)
    else do
      let text ← slice bytes (pos + consumed) stop
      pure (readText texts col (fromUtf8Lossy text), consumed + len.toNat)
  else pure (.null, 0)

def readFields (columns : List ColumnDef) (bytes : List UInt8) : ℕ → ℕ → List Field → Checked (List Field)
  | 0, _, _ => ofRange none
  | rounds + 1, pos, fields =>
    if bytes.length ≤ pos then pure fields
    else do
      let (tag, consumed) ← readVarint bytes pos
      if bytes.length ≤ pos + consumed then pure fields
      else do
        let i ← sub (tag >>> 3).toNat 1
        match columns[i]? with
        | none => pure fields
        | some col => do
          let (field, length) ← readField texts col (tag &&& 7) bytes (pos + consumed)
          let fields ← setField i field fields
          readFields columns bytes rounds (pos + consumed + length) fields

def deserialize (bytes : List UInt8) (schema : TableSchema) : Checked (List (CdcRow Field)) := do
  let fields ← readFields texts schema.columns bytes (bytes.length + 1) 0 (schema.columns.map fun _ ↦ .null)
  pure [{ kind := .insert, fields }]

end Model

section Property

/-- Ten bytes that continue, and another one behind them. -/
def Overlong (bytes : List UInt8) : Prop := 10 < bytes.length ∧ ∀ b ∈ bytes.take 10, b &&& 0x80 ≠ 0

def valueLength (wireType : UInt64) (bytes : List UInt8) : Option ℕ :=
  if wireType = 0 then (Integers.readVarint bytes).map Prod.snd
  else if wireType = 2 then
    (Integers.readVarint bytes).map fun p ↦ if bytes.length < p.2 + p.1.toNat then 0 else p.2 + p.1.toNat
  else some 0

structure Tag (bytes : List UInt8) (pos : ℕ) (tag : UInt64) (value : ℕ) : Prop where
  varint : ∃ n, Integers.readVarint (bytes.drop pos) = some (tag, n) ∧ value = pos + n
  more : value < bytes.length

inductive Next (columns : List ColumnDef) (bytes : List UInt8) : ℕ → ℕ → Prop
  | field {pos value i length : ℕ} {tag : UInt64} {col : ColumnDef} (htag : Tag bytes pos tag value)
      (hfield : (tag >>> 3).toNat = i + 1) (hcol : columns[i]? = some col)
      (hvalue : valueLength (tag &&& 7) (bytes.drop value) = some length) : Next columns bytes pos (value + length)

/-- The value of a column cannot be read: its varint is too long, or its text would end behind all addresses. -/
inductive BadValue (bytes : List UInt8) (value : ℕ) (wireType : UInt64) : Prop
  | varint (hwire : wireType = 0 ∨ wireType = 2) (hlong : Overlong (bytes.drop value))
  | text {len : UInt64} {n : ℕ} (hwire : wireType = 2) (hlen : Integers.readVarint (bytes.drop value) = some (len, n))
      (hhigh : 2 ^ 64 ≤ value + n + len.toNat)

inductive BadTag (columns : List ColumnDef) (bytes : List UInt8) (pos : ℕ) : Prop
  | long (hlong : Overlong (bytes.drop pos))
  | zero {tag : UInt64} {value : ℕ} (htag : Tag bytes pos tag value) (hzero : (tag >>> 3).toNat = 0)
  | value {tag : UInt64} {value i : ℕ} {col : ColumnDef} (htag : Tag bytes pos tag value)
      (hfield : (tag >>> 3).toNat = i + 1) (hcol : columns[i]? = some col) (hvalue : BadValue bytes value (tag &&& 7))

/-- No tag that the message is taken apart into is bad. -/
def WellTagged (columns : List ColumnDef) (bytes : List UInt8) : Prop :=
  ∀ pos, Relation.ReflTransGen (Next columns bytes) 0 pos → pos < bytes.length → ¬BadTag columns bytes pos

end Property

section Varints

variable {bytes : List UInt8} {pos : ℕ}

theorem outOfRange_readVarintFrom {k : ℕ} (hk : k ≤ 10) (bytes : List UInt8) (result : UInt64) (consumed : ℕ) :
    (readVarintFrom bytes result (7 * k) consumed).OutOfRange ↔
      10 - k < bytes.length ∧ ∀ b ∈ bytes.take (10 - k), b &&& 0x80 ≠ 0 := by
  induction bytes generalizing k result consumed with
  | nil =>
    refine iff_of_false not_outOfRange_refuse fun h ↦ ?_
    exact absurd h.1 (Nat.not_lt_zero _)
  | cons b bytes ih =>
    rw [readVarintFrom, outOfRange_bind, shl, outOfRange_ofRange]
    by_cases hlast : k = 10
    · subst hlast
      exact iff_of_true (.inl rfl) ⟨Nat.succ_pos _, fun b hb ↦ nomatch hb⟩
    · have hshift : 7 * k < 64 := by omega
      have hstep : 10 - k = 10 - (k + 1) + 1 := by omega
      simp only [hshift, if_true, gives_ofRange, Option.some.injEq, exists_eq_left', false_or, reduceCtorEq]
      rw [hstep, List.take_succ_cons, List.forall_mem_cons, List.length_cons]
      split_ifs with hstop
      · exact iff_of_false not_outOfRange_pure fun h ↦ h.2.1 hstop
      · rw [show 7 * k + 7 = 7 * (k + 1) by ring, ih (by omega)]
        simp only [Nat.add_lt_add_iff_right, hstop, ne_eq, not_false_eq_true, true_and]

theorem gives_readVarintFrom {k : ℕ} (hk : k ≤ 10) {bytes : List UInt8} {result : UInt64} {consumed : ℕ}
    (hrange : ¬(readVarintFrom bytes result (7 * k) consumed).OutOfRange) (p : UInt64 × ℕ) :
    (readVarintFrom bytes result (7 * k) consumed).Gives p ↔
      Integers.readVarintFrom bytes result (UInt64.ofNat (7 * k)) consumed = some p := by
  induction bytes generalizing k result consumed with
  | nil => exact iff_of_false not_gives_refuse nofun
  | cons b bytes ih =>
    have hlt : k < 10 := by
      by_contra hge
      obtain rfl : k = 10 := by omega
      exact hrange ((outOfRange_readVarintFrom hk _ _ _).mpr ⟨Nat.succ_pos _, fun b hb ↦ nomatch hb⟩)
    have hshift : 7 * k < 64 := by omega
    have hbind : readVarintFrom (b :: bytes) result (7 * k) consumed =
        if b &&& 0x80 = 0 then pure (result ||| (b &&& 0x7F).toUInt64 <<< UInt64.ofNat (7 * k), consumed + 1)
        else readVarintFrom bytes (result ||| (b &&& 0x7F).toUInt64 <<< UInt64.ofNat (7 * k)) (7 * (k + 1))
          (consumed + 1) := by
      rw [readVarintFrom, shl, if_pos hshift]
      rfl
    rw [hbind] at hrange ⊢
    rw [Integers.readVarintFrom]
    split_ifs at hrange ⊢ with hstop
    · exact gives_pure.trans Option.some_inj.symm
    · have hnext : UInt64.ofNat (7 * k) + 7 = UInt64.ofNat (7 * (k + 1)) := by
        rw [Nat.mul_add, UInt64.ofNat_add]
        rfl
      rw [hnext]
      exact ih hlt hrange

theorem outOfRange_readVarint : (readVarint bytes pos).OutOfRange ↔ Overlong (bytes.drop pos) :=
  outOfRange_readVarintFrom (Nat.zero_le 10) _ _ _

theorem gives_readVarint (h : ¬Overlong (bytes.drop pos)) (p : UInt64 × ℕ) :
    (readVarint bytes pos).Gives p ↔ Integers.readVarint (bytes.drop pos) = some p :=
  gives_readVarintFrom (Nat.zero_le 10) (mt outOfRange_readVarint.mp h) p

theorem lt_of_readVarintFrom {result shift v : UInt64} {consumed n : ℕ}
    (h : Integers.readVarintFrom bytes result shift consumed = some (v, n)) : consumed < n := by
  induction bytes generalizing result shift consumed with
  | nil => cases h
  | cons b bytes ih =>
    rw [Integers.readVarintFrom] at h
    split_ifs at h with hstop
    · obtain ⟨-, rfl⟩ := Prod.mk.inj (Option.some.inj h)
      exact Nat.lt_succ_self consumed
    · have hlt := ih h
      omega

end Varints

section Values

variable {texts : FieldTexts} {col : ColumnDef} {wireType : UInt64} {bytes : List UInt8} {value : ℕ}

theorem outOfRange_readField :
    (readField texts col wireType bytes value).OutOfRange ↔ BadValue bytes value wireType := by
  rw [readField]
  split_ifs with hnumber htext
  · rw [outOfRange_bind, outOfRange_readVarint]
    refine ⟨fun h ↦ .varint (.inl hnumber) (h.resolve_right fun ⟨_, _, hpure⟩ ↦ not_outOfRange_pure hpure), ?_⟩
    rintro (⟨-, hlong⟩ | ⟨htext, -, -⟩)
    · exact .inl hlong
    · cases hnumber.symm.trans htext
  · rw [outOfRange_bind, outOfRange_readVarint]
    constructor
    · rintro (hlong | ⟨⟨len, n⟩, hlen, hrest⟩)
      · exact .varint (.inr htext) hlong
      · by_cases hlong : Overlong (bytes.drop value)
        · exact .varint (.inr htext) hlong
        rw [gives_readVarint hlong] at hlen
        refine .text htext hlen ?_
        by_contra hlow
        have hstop : value + n + len.toNat < 2 ^ 64 := by omega
        refine absurd hrest ?_
        simp only [outOfRange_bind, add, hstop, if_true, gives_ofRange, outOfRange_ofRange, Option.some.injEq,
          exists_eq_left', reduceCtorEq, false_or]
        split_ifs with hshort
        · exact not_outOfRange_pure
        · have hslice : value + n ≤ value + n + len.toNat ∧ value + n + len.toNat ≤ bytes.length := by omega
          simp [outOfRange_bind, slice, hslice]
    · rintro (⟨-, hlong⟩ | ⟨-, hlen, hhigh⟩)
      · exact .inl hlong
      · by_cases hlong : Overlong (bytes.drop value)
        · exact .inl hlong
        refine .inr ⟨_, (gives_readVarint hlong _).mpr hlen, outOfRange_bind.mpr (.inl ?_)⟩
        rw [add, if_neg (by omega)]
        rfl
  · refine iff_of_false not_outOfRange_pure ?_
    rintro (⟨hwire, -⟩ | ⟨hwire, -, -⟩)
    · exact hwire.elim hnumber htext
    · exact htext hwire

theorem gives_readField (hgood : ¬BadValue bytes value wireType) {length : ℕ} :
    (∃ field, (readField texts col wireType bytes value).Gives (field, length)) ↔
      valueLength wireType (bytes.drop value) = some length := by
  rw [readField, valueLength]
  split_ifs with hnumber htext
  · have hshort : ¬Overlong (bytes.drop value) := fun hlong ↦ hgood (.varint (.inl hnumber) hlong)
    simp only [gives_bind, gives_readVarint hshort, gives_pure, Option.map_eq_some_iff, Prod.mk.injEq]
    constructor
    · rintro ⟨field, p, hp, -, hlength⟩
      exact ⟨p, hp, hlength⟩
    · rintro ⟨p, hp, hlength⟩
      exact ⟨_, p, hp, rfl, hlength⟩
  · have hshort : ¬Overlong (bytes.drop value) := fun hlong ↦ hgood (.varint (.inr htext) hlong)
    simp only [gives_bind, gives_readVarint hshort, Option.map_eq_some_iff]
    rw [exists_comm]
    refine exists_congr fun p ↦ ?_
    obtain ⟨len, n⟩ := p
    rw [exists_and_left]
    refine and_congr_right fun hlen ↦ ?_
    have hn : 0 < n := lt_of_readVarintFrom hlen
    have hstop : value + n + len.toNat < 2 ^ 64 := by
      by_contra hhigh
      exact hgood (.text htext hlen (by omega))
    have hends : (bytes.drop value).length < n + len.toNat ↔ bytes.length < value + n + len.toNat := by
      rw [List.length_drop]
      omega
    simp only [add, hstop, if_true, gives_ofRange, Option.some.injEq, exists_eq_left', hends]
    split_ifs with hfew
    · simp
    · have hslice : value + n ≤ value + n + len.toNat ∧ value + n + len.toNat ≤ bytes.length := by omega
      simp [gives_bind, slice, hslice]
  · simp

end Values

section Tags

variable {texts : FieldTexts} {columns : List ColumnDef} {bytes : List UInt8} {pos rounds : ℕ} {fields : List Field}

theorem outOfRange_readFields (hpos : pos < bytes.length) (hfields : fields.length = columns.length) :
    (readFields texts columns bytes (rounds + 1) pos fields).OutOfRange ↔
      Overlong (bytes.drop pos) ∨ ∃ tag value, Tag bytes pos tag value ∧ ((tag >>> 3).toNat = 0 ∨
        ∃ i col, (tag >>> 3).toNat = i + 1 ∧ columns[i]? = some col ∧ (BadValue bytes value (tag &&& 7) ∨
          ∃ field length, (readField texts col (tag &&& 7) bytes value).Gives (field, length) ∧
            (readFields texts columns bytes rounds (value + length) (fields.set i field)).OutOfRange)) := by
  rw [readFields, if_neg (by omega), outOfRange_bind, outOfRange_readVarint]
  refine or_congr_right' fun hlong ↦ ?_
  simp only [gives_readVarint hlong, Prod.exists]
  refine exists_congr fun tag ↦ ?_
  have hround {n : ℕ} (hmore : pos + n < bytes.length) :
      (if bytes.length ≤ pos + n then pure fields
        else do
          let i ← sub (tag >>> 3).toNat 1
          match columns[i]? with
          | none => pure fields
          | some col => do
            let (field, length) ← readField texts col (tag &&& 7) bytes (pos + n)
            let fields ← setField i field fields
            readFields texts columns bytes rounds (pos + n + length) fields : Checked (List Field)).OutOfRange ↔
        ((tag >>> 3).toNat = 0 ∨ ∃ i col, (tag >>> 3).toNat = i + 1 ∧ columns[i]? = some col ∧
          (BadValue bytes (pos + n) (tag &&& 7) ∨
            ∃ field length, (readField texts col (tag &&& 7) bytes (pos + n)).Gives (field, length) ∧
              (readFields texts columns bytes rounds (pos + n + length) (fields.set i field)).OutOfRange)) := by
    rw [if_neg (by omega), outOfRange_bind, sub, outOfRange_ofRange]
    cases hnum : (tag >>> 3).toNat with
    | zero => simp
    | succ i =>
      simp only [Nat.le_add_left, if_true, Nat.add_sub_cancel, reduceCtorEq, false_or, gives_ofRange,
        Option.some.injEq, exists_eq_left', Nat.add_right_cancel_iff, Nat.succ_ne_zero]
      cases hcol : columns[i]? with
      | none => simp [hcol]
      | some col =>
        have hi : i < fields.length := hfields ▸ (List.getElem?_eq_some_iff.mp hcol).1
        simp [outOfRange_bind, outOfRange_readField, setField, hi, hcol]
  constructor
  · rintro ⟨n, hread, hout⟩
    by_cases hmore : pos + n < bytes.length
    · exact ⟨pos + n, ⟨⟨n, hread, rfl⟩, hmore⟩, (hround hmore).mp hout⟩
    · rw [if_pos (by omega)] at hout
      exact absurd hout not_outOfRange_pure
  · rintro ⟨value, ⟨⟨n, hread, rfl⟩, hmore⟩, hout⟩
    exact ⟨n, hread, (hround hmore).mpr hout⟩

theorem Tag.lt {tag : UInt64} {value : ℕ} (h : Tag bytes pos tag value) : pos < value := by
  obtain ⟨n, hread, rfl⟩ := h.varint
  have hn : 0 < n := lt_of_readVarintFrom hread
  omega

theorem readFields_past (hpos : bytes.length ≤ pos) : readFields texts columns bytes (rounds + 1) pos fields = pure fields :=
  if_pos hpos

theorem exists_badTag (hrounds : bytes.length - pos < rounds) (hfields : fields.length = columns.length)
    (hout : (readFields texts columns bytes rounds pos fields).OutOfRange) :
    ∃ pos', Relation.ReflTransGen (Next columns bytes) pos pos' ∧ pos' < bytes.length ∧ BadTag columns bytes pos' := by
  induction rounds generalizing pos fields with
  | zero => exact absurd hrounds (Nat.not_lt_zero _)
  | succ rounds ih =>
    rcases Nat.lt_or_ge pos bytes.length with hpos | hpos
    · rw [outOfRange_readFields hpos hfields] at hout
      rcases hout with hlong | ⟨tag, value, htag, hzero | ⟨i, col, hfield, hcol, hbad | ⟨field, length, hgives, hout⟩⟩⟩
      · exact ⟨pos, .refl, hpos, .long hlong⟩
      · exact ⟨pos, .refl, hpos, .zero htag hzero⟩
      · exact ⟨pos, .refl, hpos, .value htag hfield hcol hbad⟩
      · by_cases hbad : BadValue bytes value (tag &&& 7)
        · exact ⟨pos, .refl, hpos, .value htag hfield hcol hbad⟩
        have hnext : Next columns bytes pos (value + length) :=
          .field htag hfield hcol ((gives_readField hbad).mp ⟨field, hgives⟩)
        have hfewer : bytes.length - (value + length) < rounds := by
          have hlt := htag.lt
          omega
        obtain ⟨pos', hreach, hbad⟩ := ih hfewer (by rw [List.length_set, hfields]) hout
        exact ⟨pos', .head hnext hreach, hbad⟩
    · rw [readFields_past hpos] at hout
      exact absurd hout not_outOfRange_pure

theorem wellTagged_of_range (hfields : fields.length = columns.length)
    (hrange : ¬(readFields texts columns bytes rounds pos fields).OutOfRange) {pos' : ℕ}
    (hreach : Relation.ReflTransGen (Next columns bytes) pos pos') (hpos' : pos' < bytes.length) :
    ¬BadTag columns bytes pos' := by
  induction rounds generalizing pos fields with
  | zero => exact absurd rfl hrange
  | succ rounds ih =>
    have hpos : pos < bytes.length := by
      rcases hreach.cases_head with rfl | ⟨next, ⟨htag, -, -, -⟩, -⟩
      · exact hpos'
      · exact htag.lt.trans htag.more
    rw [outOfRange_readFields hpos hfields] at hrange
    have hgood : ¬BadTag columns bytes pos := by
      rintro (hlong | ⟨htag, hzero⟩ | ⟨htag, hfield, hcol, hvalue⟩)
      · exact hrange (.inl hlong)
      · exact hrange (.inr ⟨_, _, htag, .inl hzero⟩)
      · exact hrange (.inr ⟨_, _, htag, .inr ⟨_, _, hfield, hcol, .inl hvalue⟩⟩)
    rcases hreach.cases_head with rfl | ⟨next, ⟨htag, hfield, hcol, hvalue⟩, hreach⟩
    · exact hgood
    · obtain ⟨field, hgives⟩ := (gives_readField fun hbad ↦ hgood (.value htag hfield hcol hbad)).mpr hvalue
      have hrest := fun hout ↦ hrange (.inr ⟨_, _, htag, .inr ⟨_, _, hfield, hcol, .inr ⟨field, _, hgives, hout⟩⟩⟩)
      exact ih (by rw [List.length_set, hfields]) hrest hreach

end Tags

section Totality

variable (texts : FieldTexts)

/-- Decoding stays in range exactly where no tag of the message is bad. -/
theorem decodes_iff (bytes : List UInt8) (schema : TableSchema) :
    ¬(deserialize texts bytes schema).OutOfRange ↔ WellTagged schema.columns bytes := by
  have hempty : (schema.columns.map fun _ ↦ Field.null).length = schema.columns.length := List.length_map _
  rw [deserialize, outOfRange_bind_pure]
  constructor
  · intro hrange pos hreach hpos
    exact wellTagged_of_range hempty hrange hreach hpos
  · intro hgood hout
    obtain ⟨pos, hreach, hpos, hbad⟩ := exists_badTag (Nat.lt_succ_self _) hempty hout
    exact hgood pos hreach hpos hbad

/-- Field number 0, an eleventh byte of a varint, and a text that is as long as all addresses. -/
theorem message_out_of_range :
    (deserialize asciiTexts [0x00, 0x00] accounts).OutOfRange ∧
      (deserialize asciiTexts (List.replicate 11 0x80) accounts).OutOfRange ∧
      (deserialize asciiTexts ([0x0A] ++ List.replicate 9 0xFF ++ [0x01]) accounts).OutOfRange := by
  refine ⟨?_, ?_, ?_⟩ <;> exact Option.isNone_iff_eq_none.mp (by decide +kernel)

end Totality

end SeaTunnel.Formats.ProtobufSafety
