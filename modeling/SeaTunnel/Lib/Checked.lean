import Mathlib.Data.List.Basic

namespace SeaTunnel.Lib

/-- A computation that gives a value, refuses with an error, or goes out of a range (`none`). -/
def Checked (α : Type) : Type := Option (Except String α)

variable {α β : Type}

instance : Monad Checked where
  pure a := some (.ok a)
  bind x f :=
    match x with
    | some (.ok a) => f a
    | some (.error e) => some (.error e)
    | none => none

namespace Checked

def refuse (e : String) : Checked α := some (.error e)

def ofRange (o : Option α) : Checked α := o.map .ok

def OutOfRange (x : Checked α) : Prop := x = none

def Gives (x : Checked α) (a : α) : Prop := x = some (.ok a)

variable {x : Checked α} {f : α → Checked β} {o : Option α} {a a' : α} {b : β} {e : String}

theorem Gives.inj (h : x.Gives a) (h' : x.Gives a') : a = a' := Except.ok.inj (Option.some.inj (h.symm.trans h'))

theorem Gives.bind (h : x.Gives a) : x >>= f = f a := by
  rw [h]
  rfl

theorem Gives.not_outOfRange (h : x.Gives a) : ¬x.OutOfRange := by
  intro hout
  cases h.symm.trans hout

@[simp] theorem gives_pure : (pure a : Checked α).Gives a' ↔ a = a' :=
  ⟨fun h ↦ Except.ok.inj (Option.some.inj h), fun h ↦ congrArg (fun a ↦ some (Except.ok a)) h⟩

@[simp] theorem not_outOfRange_pure : ¬(pure a : Checked α).OutOfRange := nofun

@[simp] theorem not_gives_refuse : ¬(refuse e : Checked α).Gives a := nofun

@[simp] theorem not_outOfRange_refuse : ¬(refuse e : Checked α).OutOfRange := nofun

@[simp] theorem gives_ofRange : (ofRange o).Gives a ↔ o = some a := by
  cases o with
  | none => exact iff_of_false nofun nofun
  | some a' => exact gives_pure.trans Option.some_inj.symm

@[simp] theorem outOfRange_ofRange : (ofRange o).OutOfRange ↔ o = none := Option.map_eq_none_iff

theorem gives_bind : (x >>= f).Gives b ↔ ∃ a, x.Gives a ∧ (f a).Gives b := by
  constructor
  · intro h
    match x with
    | some (.ok a) => exact ⟨a, rfl, h⟩
    | some (.error e) => cases h
    | none => cases h
  · rintro ⟨a, hx, hf⟩
    rwa [hx.bind]

theorem outOfRange_bind : (x >>= f).OutOfRange ↔ x.OutOfRange ∨ ∃ a, x.Gives a ∧ (f a).OutOfRange := by
  constructor
  · intro h
    match x with
    | some (.ok a) => exact .inr ⟨a, rfl, h⟩
    | some (.error e) => cases h
    | none => exact .inl rfl
  · rintro (hx | ⟨a, hx, hf⟩)
    · rw [hx]
      rfl
    · rwa [hx.bind]

theorem outOfRange_bind_pure {g : α → β} : (x >>= fun a ↦ pure (g a)).OutOfRange ↔ x.OutOfRange := by
  simp [outOfRange_bind]

theorem lawfulMonad : LawfulMonad Checked :=
  .mk' Checked
    (fun x ↦ match x with
      | some (.ok _) => rfl
      | some (.error _) => rfl
      | none => rfl)
    (fun _ _ ↦ rfl)
    (fun x _ _ ↦ match x with
      | some (.ok _) => rfl
      | some (.error _) => rfl
      | none => rfl)

theorem gives_mapM {f : α → Checked β} {g : α → β} {as : List α} (h : ∀ a ∈ as, (f a).Gives (g a)) :
    (as.mapM f).Gives (as.map g) := by
  induction as with
  | nil => exact gives_pure.mpr rfl
  | cons a as ih =>
    obtain ⟨ha, has⟩ := List.forall_mem_cons.mp h
    have := lawfulMonad
    rw [List.mapM_cons, ha.bind, (ih has).bind]
    exact gives_pure.mpr rfl

theorem isSome_iff {x : Option (Except String α)} : x.isSome ↔ ¬OutOfRange x := Option.isSome_iff_ne_none

end Checked

end SeaTunnel.Lib
