import SeaTunnel.Lib.Text

namespace SeaTunnel.Lib.Utf8

open Text

section Lossy

def isContinuation (b : UInt8) : Bool := 0x80 ≤ b ∧ b ≤ 0xBF

def isSecond (first b : UInt8) : Bool :=
  if first = 0xE0 then 0xA0 ≤ b ∧ b ≤ 0xBF
  else if first = 0xED then 0x80 ≤ b ∧ b ≤ 0x9F
  else if 0xE1 ≤ first ∧ first ≤ 0xEF then isContinuation b
  else if first = 0xF0 then 0x90 ≤ b ∧ b ≤ 0xBF
  else if first = 0xF4 then 0x80 ≤ b ∧ b ≤ 0x8F
  else 0xF1 ≤ first ∧ first ≤ 0xF3 ∧ isContinuation b

def brokenTail (first : UInt8) : List UInt8 → ℕ
  | second :: third :: _ =>
    if isSecond first second then if 0xF0 ≤ first ∧ isContinuation third then 2 else 1 else 0
  | [second] => if isSecond first second then 1 else 0
  | [] => 0

def lossy : List UInt8 → List Char
  | [] => []
  | first :: bytes =>
    match (first :: bytes).toByteArray.utf8DecodeChar? 0 with
    | some c => c :: lossy (bytes.drop (c.utf8Size - 1))
    | none => '\uFFFD' :: lossy (bytes.drop (brokenTail first bytes))
termination_by bytes => bytes.length
decreasing_by
  · rw [List.length_drop, List.length_cons]
    omega
  · rw [List.length_drop, List.length_cons]
    omega

end Lossy

section Texts

theorem toBytes_nil : toBytes [] = [] := rfl

theorem toBytes_cons (c : Char) (text : List Char) : toBytes (c :: text) = String.utf8EncodeChar c ++ toBytes text := by
  rw [toBytes, toBytes, String.toByteArray_ofList, String.toByteArray_ofList, List.utf8Encode_cons,
    List.utf8Encode_singleton]
  simp

theorem length_toBytes_cons (c : Char) (text : List Char) :
    (toBytes (c :: text)).length = c.utf8Size + (toBytes text).length := by
  rw [toBytes_cons, List.length_append, String.length_utf8EncodeChar]

theorem lossy_encode_append (c : Char) (rest : List UInt8) :
    lossy (String.utf8EncodeChar c ++ rest) = c :: lossy rest := by
  have hdecode : (String.utf8EncodeChar c ++ rest).toByteArray.utf8DecodeChar? 0 = some c := by
    rw [List.toByteArray_append]
    exact ByteArray.utf8DecodeChar?_utf8EncodeChar_append
  have hlength := String.length_utf8EncodeChar c
  obtain ⟨first, bytes, hbytes⟩ := List.exists_cons_of_ne_nil (String.utf8EncodeChar_ne_nil (c := c))
  rw [hbytes, List.cons_append] at hdecode ⊢
  rw [hbytes, List.length_cons] at hlength
  rw [lossy, hdecode]
  simp only [← hlength, Nat.add_sub_cancel, List.drop_left]

theorem lossy_toBytes (text : List Char) : lossy (toBytes text) = text := by
  induction text with
  | nil => rw [toBytes_nil, lossy]
  | cons c text ih => rw [toBytes_cons, lossy_encode_append, ih]

theorem length_lossy_le (bytes : List UInt8) : (toBytes (lossy bytes)).length ≤ 3 * bytes.length := by
  induction bytes using lossy.induct with
  | case1 => simp [lossy, toBytes_nil]
  | case2 first bytes c hdecode ih =>
    have hsize := ByteArray.le_size_of_utf8DecodeChar?_eq_some hdecode
    rw [List.size_toByteArray, List.length_cons] at hsize
    rw [List.length_drop] at ih
    have hpos := c.utf8Size_pos
    rw [lossy, hdecode, length_toBytes_cons, List.length_cons]
    omega
  | case3 first bytes hdecode ih =>
    rw [List.length_drop] at ih
    rw [lossy, hdecode, length_toBytes_cons, List.length_cons]
    have hsize : ('\uFFFD' : Char).utf8Size = 3 := by decide
    omega

theorem length_lossy_take_le (text : List Char) (n : ℕ) : (toBytes (lossy ((toBytes text).take n))).length ≤ n + 9 := by
  induction text generalizing n with
  | nil => simp [toBytes_nil, lossy]
  | cons c text ih =>
    have hlength := String.length_utf8EncodeChar c
    by_cases hcut : n < c.utf8Size
    · have hsmall := length_lossy_le ((toBytes (c :: text)).take n)
      rw [List.length_take] at hsmall
      have hfour := c.utf8Size_le_four
      omega
    · have htake : (toBytes (c :: text)).take n =
          String.utf8EncodeChar c ++ (toBytes text).take (n - c.utf8Size) := by
        rw [toBytes_cons, List.take_append, hlength, List.take_of_length_le (by omega)]
      have hrest := ih (n - c.utf8Size)
      rw [htake, lossy_encode_append, length_toBytes_cons]
      omega

end Texts

end SeaTunnel.Lib.Utf8
