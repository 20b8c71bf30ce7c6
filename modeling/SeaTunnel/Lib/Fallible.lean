import Mathlib.Data.List.Basic

namespace SeaTunnel.Lib

def Fallible (σ α : Type) : Type := σ → Except String α × σ

variable {σ α β : Type}

theorem ok_of_bind {x : Except String α} {f : α → Except String β} {b : β} (hx : x >>= f = .ok b) :
    ∃ a, x = .ok a ∧ f a = .ok b := by
  cases x with
  | error e => cases hx
  | ok a => exact ⟨a, rfl, hx⟩

instance : Monad (Fallible σ) where
  pure a := fun s ↦ (.ok a, s)
  bind x f := fun s ↦
    match x s with
    | (.ok a, s) => f a s
    | (.error e, s) => (.error e, s)

namespace Fallible

def get : Fallible σ σ := fun s ↦ (.ok s, s)

def modify (f : σ → σ) : Fallible σ Unit := fun s ↦ (.ok (), f s)

def fail (e : String) : Fallible σ α := fun s ↦ (.error e, s)

def ofExcept (r : Except String α) : Fallible σ α := fun s ↦ (r, s)

def when (c : Prop) [Decidable c] (x : Fallible σ Unit) : Fallible σ Unit := if c then x else pure ()

/-- Call `f` on every element in turn; the first failure stops. -/
def each (f : α → Fallible σ Unit) : List α → Fallible σ Unit
  | [] => pure ()
  | a :: as => do
    f a
    each f as

theorem get_bind (f : σ → Fallible σ β) (s : σ) : (get >>= f) s = f s s := rfl

theorem bind_ok {x : Fallible σ α} {f : α → Fallible σ β} {s s' : σ} {a : α} (h : x s = (.ok a, s')) :
    (x >>= f) s = f a s' := by
  change (match x s with | (.ok a, s) => f a s | (.error e, s) => (.error e, s)) = _
  rw [h]

theorem bind_error {x : Fallible σ α} {f : α → Fallible σ β} {s s' : σ} {e : String}
    (h : x s = (.error e, s')) : (x >>= f) s = (.error e, s') := by
  change (match x s with | (.ok a, s) => f a s | (.error e, s) => (.error e, s)) = _
  rw [h]

theorem bind_unit (x : Fallible σ Unit) : (x >>= fun _ ↦ pure ()) = x := by
  funext s
  rcases hx : x s with ⟨e | _, s'⟩
  · exact bind_error hx
  · exact bind_ok hx

theorem bind_assoc {γ : Type} (x : Fallible σ α) (f : α → Fallible σ β) (g : β → Fallible σ γ) :
    x >>= f >>= g = x >>= fun a ↦ f a >>= g := by
  funext s
  rcases hx : x s with ⟨e | a, s'⟩
  · have hfirst : (x >>= f) s = (.error e, s') := bind_error hx
    rw [bind_error hfirst, bind_error hx]
  · rw [bind_ok hx]
    rcases hf : f a s' with ⟨e | b, s''⟩
    · have hfirst : (x >>= f) s = (.error e, s'') := (bind_ok hx).trans hf
      rw [bind_error hfirst, bind_error hf]
    · have hfirst : (x >>= f) s = (.ok b, s'') := (bind_ok hx).trans hf
      rw [bind_ok hfirst, bind_ok hf]

theorem each_append (f : α → Fallible σ Unit) (as bs : List α) :
    each f (as ++ bs) = each f as >>= fun _ ↦ each f bs := by
  induction as with
  | nil => rfl
  | cons a as ih => rw [List.cons_append, each, each, ih, bind_assoc]

theorem each_map (f : β → Fallible σ Unit) (g : α → β) (as : List α) :
    each f (as.map g) = each (fun a ↦ f (g a)) as := by
  induction as with
  | nil => rfl
  | cons a as ih => rw [List.map_cons, each, each, ih]

end Fallible

open Fallible

def Triple (P : σ → Prop) (x : Fallible σ α) (Q : α → σ → Prop) (E : σ → Prop) : Prop :=
  ∀ s, P s → match x s with
    | (.ok a, s') => Q a s'
    | (.error _, s') => E s'

namespace Triple

variable {P P' : σ → Prop} {Q Q' : α → σ → Prop} {E E' : σ → Prop} {x : Fallible σ α}

theorem ok (h : Triple P x Q E) {s s' : σ} {a : α} (hs : P s) (hx : x s = (.ok a, s')) : Q a s' := by
  have hout := h s hs
  rw [hx] at hout
  exact hout

theorem error (h : Triple P x Q E) {s s' : σ} {e : String} (hs : P s) (hx : x s = (.error e, s')) :
    E s' := by
  have hout := h s hs
  rw [hx] at hout
  exact hout

theorem snd {R : σ → Prop} (h : Triple P x (fun _ ↦ R) R) {s : σ} (hs : P s) : R (x s).2 := by
  have hout := h s hs
  split at hout
  · next heq => rwa [heq]
  · next heq => rwa [heq]

theorem weaken (h : Triple P x Q E) (hP : ∀ s, P' s → P s) (hQ : ∀ a s, Q a s → Q' a s)
    (hE : ∀ s, E s → E' s) : Triple P' x Q' E' := by
  intro s hs
  have hout := h s (hP s hs)
  split
  · next a s' hx =>
    rw [hx] at hout
    exact hQ a s' hout
  · next e s' hx =>
    rw [hx] at hout
    exact hE s' hout

theorem pre (h : Triple P x Q E) (hP : ∀ s, P' s → P s) : Triple P' x Q E :=
  h.weaken hP (fun _ _ hq ↦ hq) fun _ he ↦ he

theorem pure {a : α} (h : ∀ s, P s → Q a s) : Triple P (Pure.pure a : Fallible σ α) Q E :=
  fun s hs ↦ h s hs

theorem fail {e : String} (h : ∀ s, P s → E s) : Triple P (Fallible.fail e : Fallible σ α) Q E :=
  fun s hs ↦ h s hs

theorem modify {f : σ → σ} {Q : Unit → σ → Prop} (h : ∀ s, P s → Q () (f s)) :
    Triple P (Fallible.modify f) Q E := fun s hs ↦ h s hs

theorem bind {f : α → Fallible σ β} {R : β → σ → Prop} (hx : Triple P x Q E)
    (hf : ∀ a, Triple (Q a) (f a) R E) : Triple P (x >>= f) R E := by
  intro s hs
  have hout := hx s hs
  change match (match x s with | (.ok a, s) => f a s | (.error e, s) => (.error e, s)) with
    | (.ok b, s') => R b s'
    | (.error _, s') => E s'
  rcases hrun : x s with ⟨e | a, s'⟩
  · rw [hrun] at hout
    exact hout
  · rw [hrun] at hout
    exact hf a s' hout

theorem get {f : σ → Fallible σ β} {R : β → σ → Prop}
    (h : ∀ s₀, P s₀ → Triple (fun s ↦ s = s₀) (f s₀) R E) : Triple P (Fallible.get >>= f) R E :=
  fun s hs ↦ h s hs s rfl

theorem ofExcept {r : Except String α} (hok : ∀ a s, r = .ok a → P s → Q a s)
    (herror : ∀ e s, r = .error e → P s → E s) : Triple P (Fallible.ofExcept r) Q E := by
  intro s hs
  cases r with
  | ok a => exact hok a s rfl hs
  | error e => exact herror e s rfl hs

theorem ite {c : Prop} [Decidable c] {y : Fallible σ α} (hx : c → Triple P x Q E)
    (hy : ¬ c → Triple P y Q E) : Triple P (if c then x else y) Q E := by
  split
  · next h => exact hx h
  · next h => exact hy h

theorem when {c : Prop} [Decidable c] {x : Fallible σ Unit} {Q : Unit → σ → Prop} (hx : c → Triple P x Q E)
    (hnot : ¬ c → ∀ s, P s → Q () s) : Triple P (Fallible.when c x) Q E :=
  .ite hx fun h ↦ .pure (hnot h)

theorem trivial : Triple P x (fun _ _ ↦ True) (fun _ ↦ True) := by
  intro s _
  split
  · exact True.intro
  · exact True.intro

theorem and (h : Triple P x Q E) (h' : Triple P' x Q' E') :
    Triple (fun s ↦ P s ∧ P' s) x (fun a s ↦ Q a s ∧ Q' a s) (fun s ↦ E s ∧ E' s) := by
  intro s hs
  have hout := h s hs.1
  have hout' := h' s hs.2
  split
  · next heq =>
    rw [heq] at hout hout'
    exact ⟨hout, hout'⟩
  · next heq =>
    rw [heq] at hout hout'
    exact ⟨hout, hout'⟩

theorem assuming {φ : Prop} (h : φ → Triple P x Q E) : Triple (fun s ↦ φ ∧ P s) x Q E :=
  fun s hs ↦ h hs.1 s hs.2

theorem each {f : α → Fallible σ Unit} {I : List α → σ → Prop}
    (h : ∀ a as, Triple (I (a :: as)) (f a) (fun _ ↦ I as) E) (as : List α) :
    Triple (I as) (Fallible.each f as) (fun _ ↦ I []) E := by
  induction as with
  | nil => exact .pure fun _ hs ↦ hs
  | cons a as ih => exact .bind (h a as) fun _ ↦ ih

end Triple

abbrev Keeps (P : σ → Prop) (x : Fallible σ α) : Prop := Triple P x (fun _ ↦ P) P

namespace Keeps

variable {P Q : σ → Prop} {x : Fallible σ α}

theorem pure (a : α) : Keeps P (Pure.pure a : Fallible σ α) := fun _ hs ↦ hs

theorem fail (e : String) : Keeps P (Fallible.fail e : Fallible σ α) := fun _ hs ↦ hs

theorem ofExcept (r : Except String α) : Keeps P (Fallible.ofExcept r) :=
  Triple.ofExcept (fun _ _ _ hs ↦ hs) fun _ _ _ hs ↦ hs

theorem modify {f : σ → σ} (h : ∀ s, P s → P (f s)) : Keeps P (Fallible.modify f) :=
  fun s hs ↦ h s hs

theorem bind {f : α → Fallible σ β} (hx : Keeps P x) (hf : ∀ a, Keeps P (f a)) :
    Keeps P (x >>= f) := Triple.bind hx hf

theorem get {f : σ → Fallible σ β} (h : ∀ s, Keeps P (f s)) : Keeps P (Fallible.get >>= f) :=
  fun s hs ↦ h s s hs

theorem ite {c : Prop} [Decidable c] {y : Fallible σ α} (hx : Keeps P x) (hy : Keeps P y) :
    Keeps P (if c then x else y) := Triple.ite (fun _ ↦ hx) fun _ ↦ hy

theorem when {c : Prop} [Decidable c] {x : Fallible σ Unit} (hx : c → Keeps P x) :
    Keeps P (Fallible.when c x) := Triple.when hx fun _ _ hs ↦ hs

theorem each {f : α → Fallible σ Unit} {as : List α} (h : ∀ a ∈ as, Keeps P (f a)) :
    Keeps P (Fallible.each f as) := by
  induction as with
  | nil => exact .pure ()
  | cons a as ih => exact .bind (h a (by simp)) fun _ ↦ ih fun b hb ↦ h b (by simp [hb])

theorem relax {E : σ → Prop} (h : Keeps P x) (hE : ∀ s, P s → E s) : Triple P x (fun _ ↦ P) E :=
  Triple.weaken h (fun _ hs ↦ hs) (fun _ _ hs ↦ hs) hE

theorem of_snd (h : ∀ s, P s → P (x s).2) : Keeps P x := by
  intro s hs
  have hout := h s hs
  split
  · next heq => rwa [heq] at hout
  · next heq => rwa [heq] at hout

end Keeps

end SeaTunnel.Lib
