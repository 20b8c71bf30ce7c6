import Mathlib.Data.Int.Notation
import SeaTunnel.Lib.Dict

namespace SeaTunnel.Lib

inductive Json
  | null
  | bool (b : Bool)
  | num (n : ℤ)
  | str (s : String)
  | arr (items : List Json)
  | obj (fields : List (String × Json))

namespace Json

def get (key : String) : Json → Option Json
  | .obj fields => fields.lookup key
  | _ => none

@[simp] theorem get_obj_self (key : String) (v : Json) (fields : List (String × Json)) :
    (Json.obj ((key, v) :: fields)).get key = some v := by
  simp [get]

@[simp] theorem get_obj_of_ne {key k : String} (hne : key ≠ k) (v : Json)
    (fields : List (String × Json)) :
    (Json.obj ((k, v) :: fields)).get key = (Json.obj fields).get key := by
  have hbeq : (key == k) = false := beq_false_of_ne hne
  simp [get, List.lookup_cons, hbeq]

def asString : Json → Option String
  | .str s => some s
  | _ => none

def asInt : Json → Option ℤ
  | .num n => some n
  | _ => none

def asNat : Json → Option ℕ
  | .num n => if 0 ≤ n then some n.toNat else none
  | _ => none

def asArray : Json → Option (List Json)
  | .arr items => some items
  | _ => none

end Json

structure Codec (α : Type) where
  encode : α → Json
  decode : Json → Option α
  decode_encode : ∀ a, decode (encode a) = some a

namespace Codec

attribute [simp] decode_encode

variable {α β : Type}

def string : Codec String where
  encode := .str
  decode := Json.asString
  decode_encode := fun _ ↦ rfl

def int : Codec ℤ where
  encode := .num
  decode := Json.asInt
  decode_encode := fun _ ↦ rfl

def nat : Codec ℕ where
  encode := fun n ↦ .num n
  decode := Json.asNat
  decode_encode := fun n ↦ by simp [Json.asNat]

def byte : Codec UInt8 where
  encode := fun b ↦ .num b.toNat
  decode := fun j ↦ j.asNat.bind fun n ↦ if n < 256 then some (UInt8.ofNat n) else none
  decode_encode := fun b ↦ by
    have hlt := b.toNat_lt
    simp [Json.asNat, hlt]

/-- A missing value is `null`, which no value of `c` is written as. -/
def option (c : Codec α) (hc : ∀ a, c.encode a ≠ .null) : Codec (Option α) where
  encode := fun o ↦ o.elim .null c.encode
  decode
    | .null => some none
    | j => (c.decode j).map some
  decode_encode
    | none => rfl
    | some a => by
      have hne := hc a
      have hself := c.decode_encode a
      simp only [Option.elim]
      generalize c.encode a = j at hne hself
      cases j <;> simp_all

theorem mapM_decode (c : Codec α) (as : List α) : (as.map c.encode).mapM c.decode = some as := by
  induction as with
  | nil => rfl
  | cons a as ih => simp [ih]

def list (c : Codec α) : Codec (List α) where
  encode := fun as ↦ .arr (as.map c.encode)
  decode := fun j ↦ j.asArray.bind (List.mapM c.decode)
  decode_encode := fun as ↦ c.mapM_decode as

def pair (c : Codec α) (d : Codec β) : Codec (α × β) where
  encode := fun p ↦ .arr [c.encode p.1, d.encode p.2]
  decode
    | .arr [x, y] => do
      let a ← c.decode x
      let b ← d.decode y
      return (a, b)
    | _ => none
  decode_encode := fun p ↦ by simp

def readFields (c : Codec α) (fields : List (String × Json)) : Option (Dict String α) :=
  fields.foldr (fun f rest ↦ do
    let d ← rest
    let a ← c.decode f.2
    return AList.insert f.1 a d) (some ∅)

theorem readFields_entries (c : Codec α) (d : Dict String α) :
    c.readFields (d.entries.map fun e ↦ (e.1, c.encode e.2)) = some d := by
  obtain ⟨es, hnodup⟩ := d
  induction es with
  | nil => rfl
  | cons e es ih =>
    have hrest := ih (List.nodupKeys_cons.mp hnodup).2
    simp only [readFields, List.map_cons, List.foldr_cons] at hrest ⊢
    rw [hrest]
    simp only [decode_encode, Option.bind_eq_bind, Option.bind_some, pure]
    rw [AList.mk_cons_eq_insert]

def dict (c : Codec α) : Codec (Dict String α) where
  encode := fun d ↦ .obj (d.entries.map fun e ↦ (e.1, c.encode e.2))
  decode
    | .obj fields => c.readFields fields
    | _ => none
  decode_encode := c.readFields_entries

def field (c : Codec α) (key : String) (j : Json) : Option α := (j.get key).bind c.decode

def fieldOr (c : Codec α) (key : String) (default : α) (j : Json) : Option α :=
  match j.get key with
  | none => some default
  | some v => c.decode v

end Codec

end SeaTunnel.Lib
