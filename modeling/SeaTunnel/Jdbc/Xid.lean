import SeaTunnel.Lib.Text

namespace SeaTunnel.Jdbc.Xid

open Lib.Text

structure XidNamespace where
  xidPrefix : String
  contextPipeline : String
  contextSubtask : ℕ
  deriving DecidableEq, Repr

section Naming

-- The Unicode classes that `char::is_alphanumeric` reads are a parameter.
variable (isAlphanumeric : Char → Bool)

def sanitizeComponent (component : String) : String :=
  component.map fun c ↦ if isAlphanumeric c || c == '-' || c == '_' then c else '_'

def xidBase (n : XidNamespace) : String :=
  sanitizeComponent isAlphanumeric n.xidPrefix ++ "-" ++
    sanitizeComponent isAlphanumeric n.contextPipeline ++ "-" ++ toString n.contextSubtask

end Naming

def windowXid (base : String) (epoch window : ℕ) : String :=
  base ++ "-r" ++ toString epoch ++ "-cp" ++ toString window

def ownWindow (base xid : String) : Option ℕ :=
  (xid.toList.dropPrefix? base.toList).bind fun rest ↦
    (rsplitOnce "-cp".toList rest).bind fun (_, window) ↦ parseUnsigned 64 window

/-- One row of `XA RECOVER`, with its two cells read as the client reads them. -/
structure RecoverRow where
  gtridLength : ℕ
  data : String
  deriving DecidableEq, Repr

section Decoding

def hexDigit (c : Char) : Option ℕ :=
  if c.isDigit then some (c.toNat - '0'.toNat)
  else if 'a' ≤ c ∧ c ≤ 'f' then some (c.toNat - 'a'.toNat + 10)
  else if 'A' ≤ c ∧ c ≤ 'F' then some (c.toNat - 'A'.toNat + 10)
  else none

/-- `u8::from_str_radix` on two letters: a plus sign may stand first. -/
def hexByte (c d : Char) : Option UInt8 :=
  if c = '+' then (hexDigit d).map UInt8.ofNat
  else (hexDigit c).bind fun high ↦ (hexDigit d).map fun low ↦ UInt8.ofNat (16 * high + low)

def hexBytes : List Char → Except String (Option (List UInt8))
  | [] => .ok (some [])
  | [c] => if c.utf8Size ≤ 2 then .ok none else .error "byte index is not a char boundary"
  | c :: d :: rest =>
    if c.utf8Size = 1 then
      if d.utf8Size = 1 then
        match hexByte c d with
        | none => .ok none
        | some b =>
          match hexBytes rest with
          | .ok (some bs) => .ok (some (b :: bs))
          | other => other
      else .error "byte index is not a char boundary"
    else if c.utf8Size = 2 then .ok none
    else .error "byte index is not a char boundary"

def recoverBytes (data : String) : Except String (Option ByteArray) :=
  match data.toList.dropPrefix? "0x".toList with
  | some hex =>
    if (String.ofList hex).utf8ByteSize % 2 ≠ 0 then .ok none
    else (hexBytes hex).map (Option.map fun bs ↦ ⟨bs.toArray⟩)
  | none => .ok (some data.toByteArray)

def decodeXaRecoverData (data : String) (gtridLength : ℕ) : Except String (Option String) :=
  (recoverBytes data).map fun bytes ↦ bytes.bind fun bytes ↦
    if bytes.size < gtridLength then none else String.fromUTF8? (bytes.extract 0 gtridLength)

def RecoverRow.ofXid (xid : String) : RecoverRow := ⟨xid.utf8ByteSize, xid⟩

def hexForm (xid : String) : Bool := "0x".toList.isPrefixOf xid.toList

def decodeRows : List RecoverRow → Except String (List String)
  | [] => .ok []
  | row :: rows =>
    match decodeXaRecoverData row.data row.gtridLength with
    | .error e => .error e
    | .ok none => decodeRows rows
    | .ok (some xid) => (decodeRows rows).map (xid :: ·)

end Decoding

section Names

variable {isAlphanumeric : Char → Bool} {m n : XidNamespace} {epoch window : ℕ}

theorem xidBase_toList (isAlphanumeric : Char → Bool) (n : XidNamespace) :
    ∃ front, (xidBase isAlphanumeric n).toList = front ++ '-' :: Nat.toDigits 10 n.contextSubtask := by
  refine ⟨(sanitizeComponent isAlphanumeric n.xidPrefix ++ "-" ++
    sanitizeComponent isAlphanumeric n.contextPipeline).toList, ?_⟩
  simp [xidBase]

theorem windowXid_toList (base : String) (epoch window : ℕ) :
    (windowXid base epoch window).toList =
      base.toList ++ '-' :: 'r' :: (Nat.toDigits 10 epoch ++ '-' :: 'c' :: 'p' :: Nat.toDigits 10 window) := by
  simp [windowXid]

theorem xidBase_lastSegment {front segment : List Char}
    (h : (xidBase isAlphanumeric n).toList = front ++ '-' :: segment) (hsegment : '-' ∉ segment) :
    segment = Nat.toDigits 10 n.contextSubtask := by
  obtain ⟨front', hfront⟩ := xidBase_toList isAlphanumeric n
  exact append_cons_inj_right hsegment (dash_notMem_digits _) (h.symm.trans hfront)

theorem xidBase_not_letter {front segment : List Char} {c : Char} (hc : c.isDigit = false)
    (hsegment : '-' ∉ c :: segment) :
    (xidBase isAlphanumeric n).toList ≠ front ++ '-' :: c :: segment := by
  intro h
  have hdigits := xidBase_lastSegment h hsegment
  exact notMem_digits hc n.contextSubtask (hdigits ▸ List.mem_cons_self)

theorem xidBase_not_dash {front : List Char} :
    (xidBase isAlphanumeric n).toList ≠ front ++ ['-'] := by
  intro h
  have hdigits := xidBase_lastSegment h (by simp)
  exact Nat.toDigits_ne_nil hdigits.symm

theorem base_prefix_windowXid :
    (xidBase isAlphanumeric n).toList <+: (windowXid (xidBase isAlphanumeric m) epoch window).toList ↔
      (xidBase isAlphanumeric n).toList <+: (xidBase isAlphanumeric m).toList := by
  rw [windowXid_toList]
  refine ⟨fun h ↦ ?_, fun h ↦ h.trans (List.prefix_append _ _)⟩
  rcases List.prefix_or_prefix_of_prefix h (List.prefix_append _ _) with hbase | ⟨t, ht⟩
  · exact hbase
  rw [← ht, List.prefix_append_right_inj] at h
  -- the part `t` that goes beyond the other base ends inside one of its segments
  cases t with
  | nil => exact ⟨[], by simpa using ht.symm⟩
  | cons a t =>
    obtain ⟨rfl, ht'⟩ := List.cons_prefix_cons.mp h
    cases t with
    | nil => exact absurd ht.symm xidBase_not_dash
    | cons b u =>
      obtain ⟨rfl, hu⟩ := List.cons_prefix_cons.mp ht'
      rcases List.prefix_or_prefix_of_prefix hu (List.prefix_append _ _) with hepoch | ⟨v, rfl⟩
      · have hdash : '-' ∉ 'r' :: u := by
          simpa using fun hmem ↦ dash_notMem_digits epoch (hepoch.subset hmem)
        exact absurd ht.symm (xidBase_not_letter (by decide) hdash)
      · rw [List.prefix_append_right_inj] at hu
        cases v with
        | nil =>
          have hdash : '-' ∉ 'r' :: (Nat.toDigits 10 epoch ++ []) := by
            simpa using dash_notMem_digits epoch
          exact absurd ht.symm (xidBase_not_letter (by decide) hdash)
        | cons d w =>
          obtain ⟨rfl, hw⟩ := List.cons_prefix_cons.mp hu
          have hsplit : (xidBase isAlphanumeric n).toList =
              ((xidBase isAlphanumeric m).toList ++ '-' :: 'r' :: Nat.toDigits 10 epoch) ++ '-' :: w := by
            simpa using ht.symm
          cases w with
          | nil => exact absurd hsplit xidBase_not_dash
          | cons x w =>
            have hdash : '-' ∉ x :: w := fun hmem ↦ by
              simpa [dash_notMem_digits] using hw.subset hmem
            obtain ⟨rfl, -⟩ := List.cons_prefix_cons.mp hw
            exact absurd hsplit (xidBase_not_letter (by decide) hdash)

theorem ownWindow_windowXid (hwindow : window < 2 ^ 64) :
    ownWindow (xidBase isAlphanumeric n) (windowXid (xidBase isAlphanumeric m) epoch window) =
      if (xidBase isAlphanumeric n).toList <+: (xidBase isAlphanumeric m).toList then some window
      else none := by
  unfold ownWindow
  split
  · next hbase =>
    obtain ⟨rest, hrest⟩ := hbase
    have hdrop : ((windowXid (xidBase isAlphanumeric m) epoch window).toList).dropPrefix?
        (xidBase isAlphanumeric n).toList =
        some ((rest ++ '-' :: 'r' :: Nat.toDigits 10 epoch) ++ ("-cp".toList ++ Nat.toDigits 10 window)) := by
      rw [windowXid_toList, ← hrest, List.append_assoc, List.dropPrefix?_append_of_beq _ (by simp)]
      simp
    have hsplit := @rsplitOnce_append _ _ '-' ['c', 'p'] _ (rest ++ '-' :: 'r' :: Nat.toDigits 10 epoch)
      (by decide) (dash_notMem_digits window)
    rw [hdrop, Option.bind_some]
    change ((rsplitOnce ('-' :: ['c', 'p']) _).bind _) = _
    rw [show "-cp".toList = '-' :: ['c', 'p'] from rfl, hsplit, Option.bind_some]
    exact parseUnsigned_toDigits hwindow
  · next hbase =>
    have hnone : ((windowXid (xidBase isAlphanumeric m) epoch window).toList).dropPrefix?
        (xidBase isAlphanumeric n).toList = none := by
      rw [← Option.not_isSome_iff_eq_none, dropPrefix?_isSome, base_prefix_windowXid]
      exact hbase
    rw [hnone, Option.bind_none]

end Names

section Listing

variable {isAlphanumeric : Char → Bool} {m n : XidNamespace} {epoch window : ℕ}

theorem hexDigit_dash : hexDigit '-' = none := by decide

theorem hexByte_eq_some {c d : Char} {b : UInt8} (h : hexByte c d = some b) : c ≠ '-' ∧ d ≠ '-' := by
  refine ⟨?_, ?_⟩
  · rintro rfl
    simp [hexByte, hexDigit_dash] at h
  · rintro rfl
    simp [hexByte, hexDigit_dash] at h

theorem hexBytes_dash {text : List Char} (hdash : '-' ∈ text) (bs : List UInt8) :
    hexBytes text ≠ .ok (some bs) := by
  fun_induction hexBytes text generalizing bs with
  | case1 => simp at hdash
  | case5 c d rest _ _ b hbyte bs' hrest ih =>
    obtain ⟨hc, hd⟩ := hexByte_eq_some hbyte
    have hmem : '-' ∈ rest := by
      simpa [hc.symm, hd.symm] using hdash
    exact absurd hrest (ih hmem bs')
  | case6 c d rest _ _ b hbyte hother =>
    intro heq
    exact hother bs heq
  | _ => simp

theorem hexForm_iff {xid : String} : hexForm xid = true ↔ "0x".toList <+: xid.toList :=
  List.isPrefixOf_iff_prefix

theorem decodeXaRecoverData_plain {xid : String} (h : hexForm xid = false) :
    decodeXaRecoverData xid xid.utf8ByteSize = .ok (some xid) := by
  have hraw : xid.toList.dropPrefix? "0x".toList = none := by
    rw [← Option.not_isSome_iff_eq_none, dropPrefix?_isSome, ← hexForm_iff, h]
    simp
  have hall : xid.toByteArray.extract 0 xid.utf8ByteSize = xid.toByteArray := by
    rw [← String.size_toByteArray, ByteArray.extract_zero_size]
  simp only [decodeXaRecoverData, recoverBytes, hraw, Except.map, Option.bind_some]
  rw [if_neg (by simp), hall, String.fromUTF8?, dif_pos xid.isValidUTF8]
  rfl

theorem decodeXaRecoverData_hexForm {xid : String} (h : hexForm xid = true) (hdash : '-' ∈ xid.toList)
    (gtridLength : ℕ) (gtrid : String) :
    decodeXaRecoverData xid gtridLength ≠ .ok (some gtrid) := by
  obtain ⟨hex, hhex⟩ := hexForm_iff.mp h
  have hdrop : xid.toList.dropPrefix? "0x".toList = some hex := by
    rw [← hhex, List.dropPrefix?_append_of_beq _ (by simp)]
  have hmem : '-' ∈ hex := by
    rw [← hhex] at hdash
    simpa using hdash
  simp only [decodeXaRecoverData, recoverBytes, hdrop]
  split
  · simp [Except.map]
  · cases hb : hexBytes hex with
    | error e => simp [Except.map]
    | ok bytes =>
      cases bytes with
      | none => simp [Except.map]
      | some bytes => exact absurd hb (hexBytes_dash hmem bytes)

theorem xidBase_dash (n : XidNamespace) : '-' ∈ (xidBase isAlphanumeric n).toList := by
  obtain ⟨front, hfront⟩ := xidBase_toList isAlphanumeric n
  simp [hfront]

theorem hexForm_windowXid
    (hbase : (xidBase isAlphanumeric n).toList <+: (xidBase isAlphanumeric m).toList) :
    hexForm (windowXid (xidBase isAlphanumeric m) epoch window) = hexForm (xidBase isAlphanumeric n) := by
  have hxid : (xidBase isAlphanumeric n).toList <+:
      (windowXid (xidBase isAlphanumeric m) epoch window).toList := base_prefix_windowXid.mpr hbase
  rw [Bool.eq_iff_iff, hexForm_iff, hexForm_iff]
  refine ⟨fun h ↦ ?_, fun h ↦ h.trans hxid⟩
  rcases List.prefix_or_prefix_of_prefix h hxid with hhex | hhex
  · exact hhex
  · exact absurd (hhex.subset (xidBase_dash n)) (by decide)

def Panics (row : RecoverRow) : Prop :=
  ∃ e, decodeXaRecoverData row.data row.gtridLength = .error e

theorem decodeRows_ofXid {xids : List String} (hdash : ∀ xid ∈ xids, '-' ∈ xid.toList)
    (hpanic : ∀ xid ∈ xids, ¬ Panics (.ofXid xid)) :
    decodeRows (xids.map .ofXid) = .ok (xids.filter fun xid ↦ !hexForm xid) := by
  induction xids with
  | nil => rfl
  | cons xid xids ih =>
    have hrest := ih (fun x hx ↦ hdash x (by simp [hx])) fun x hx ↦ hpanic x (by simp [hx])
    have hself : ¬ Panics (.ofXid xid) := hpanic xid (by simp)
    cases hform : hexForm xid with
    | false =>
      have hplain := decodeXaRecoverData_plain hform
      simp [decodeRows, RecoverRow.ofXid, hplain, hrest, Except.map, hform]
    | true =>
      cases hdecode : decodeXaRecoverData xid xid.utf8ByteSize with
      | error e => exact absurd ⟨e, hdecode⟩ hself
      | ok gtrid =>
        cases gtrid with
        | some gtrid =>
          exact absurd hdecode (decodeXaRecoverData_hexForm hform (hdash xid (by simp)) _ gtrid)
        | none => simp [decodeRows, RecoverRow.ofXid, hdecode, hrest, hform]

theorem mem_decodeRows {rows : List RecoverRow} {xids : List String} (h : decodeRows rows = .ok xids)
    {xid : String} (hrow : .ofXid xid ∈ rows) (hplain : hexForm xid = false) : xid ∈ xids := by
  induction rows generalizing xids with
  | nil => simp at hrow
  | cons row rows ih =>
    rw [decodeRows] at h
    rcases List.mem_cons.mp hrow with rfl | hmem
    · have hself : decodeXaRecoverData (RecoverRow.ofXid xid).data (RecoverRow.ofXid xid).gtridLength =
          .ok (some xid) := decodeXaRecoverData_plain hplain
      rw [hself] at h
      cases hrest : decodeRows rows with
      | error e => simp [hrest, Except.map] at h
      | ok rest =>
        simp only [hrest, Except.map, Except.ok.injEq] at h
        simp [← h]
    · split at h
      · cases h
      · exact ih h hmem
      · cases hrest : decodeRows rows with
        | error e => simp [hrest, Except.map] at h
        | ok rest =>
          simp only [hrest, Except.map, Except.ok.injEq] at h
          rw [← h]
          exact List.mem_cons_of_mem _ (ih hrest hmem)

theorem decodeRows_panics {rows : List RecoverRow} {row : RecoverRow} (hrow : row ∈ rows)
    (hpanic : Panics row) : ∃ e, decodeRows rows = .error e := by
  induction rows with
  | nil => simp at hrow
  | cons first rows ih =>
    rw [decodeRows]
    rcases List.mem_cons.mp hrow with rfl | hmem
    · obtain ⟨e, he⟩ := hpanic
      rw [he]
      exact ⟨e, rfl⟩
    · obtain ⟨e, he⟩ := ih hmem
      split
      · exact ⟨_, rfl⟩
      · exact ⟨e, he⟩
      · exact ⟨e, by rw [he]; rfl⟩

end Listing

end SeaTunnel.Jdbc.Xid
