import Mathlib.Data.List.Basic

namespace SeaTunnel.Lib.Runs

variable {S I E T J F : Type}

/-- A deterministic machine: an input gives the next state and the events
that the step makes visible. Nondeterminism is the choice of the inputs. -/
structure Machine (S I E : Type) where
  step : S → I → S × List E

namespace Machine

variable (m : Machine S I E)

def next (s : S) (i : I) : S := (m.step s i).1

def emit (s : S) (i : I) : List E := (m.step s i).2

def run (s : S) (is : List I) : S := is.foldl m.next s

def trace (s : S) : List I → List E
  | [] => []
  | i :: is => m.emit s i ++ trace (m.next s i) is

@[simp] theorem run_nil (s : S) : m.run s [] = s := rfl

@[simp] theorem run_cons (s : S) (i : I) (is : List I) :
    m.run s (i :: is) = m.run (m.next s i) is := rfl

@[simp] theorem trace_nil (s : S) : m.trace s [] = [] := rfl

@[simp] theorem trace_cons (s : S) (i : I) (is : List I) :
    m.trace s (i :: is) = m.emit s i ++ m.trace (m.next s i) is := rfl

theorem run_append (s : S) (is js : List I) : m.run s (is ++ js) = m.run (m.run s is) js :=
  List.foldl_append

theorem trace_append (s : S) (is js : List I) :
    m.trace s (is ++ js) = m.trace s is ++ m.trace (m.run s is) js := by
  induction is generalizing s with
  | nil => rfl
  | cons i is ih => rw [List.cons_append, trace_cons, trace_cons, ih, run_cons, List.append_assoc]

/-- Every step of the run meets `P`, which reads the events before the step,
the state before the step and the input. -/
def Along (P : List E → S → I → Prop) : List E → S → List I → Prop
  | _, _, [] => True
  | h, s, i :: is => P h s i ∧ Along P (h ++ m.emit s i) (m.next s i) is

variable {m} {P Q : List E → S → I → Prop} {h : List E} {s : S} {is : List I}

theorem along_of_forall (hP : ∀ i ∈ is, ∀ h s, P h s i) (h : List E) (s : S) : m.Along P h s is := by
  induction is generalizing h s with
  | nil => trivial
  | cons i is ih => exact ⟨hP i (by simp) h s, ih (fun j hj ↦ hP j (by simp [hj])) _ _⟩

theorem along_congr (hPQ : ∀ h s i, P h s i ↔ Q h s i) : m.Along P h s is ↔ m.Along Q h s is := by
  induction is generalizing h s with
  | nil => exact Iff.rfl
  | cons i is ih => exact and_congr (hPQ h s i) ih

theorem along_and (hP : m.Along P h s is) (hQ : m.Along Q h s is) :
    m.Along (fun h s i ↦ P h s i ∧ Q h s i) h s is := by
  induction is generalizing h s with
  | nil => trivial
  | cons i is ih => exact ⟨⟨hP.1, hQ.1⟩, ih hP.2 hQ.2⟩

instance decidableAlong {P : List E → S → I → Prop} [∀ h s i, Decidable (P h s i)] :
    ∀ (h : List E) (s : S) (is : List I), Decidable (m.Along P h s is)
  | _, _, [] => isTrue trivial
  | h, s, i :: is =>
    have := decidableAlong (P := P) (h ++ m.emit s i) (m.next s i) is
    inferInstanceAs (Decidable (_ ∧ _))

theorem along_append {is js : List I} :
    m.Along P h s (is ++ js) ↔
      m.Along P h s is ∧ m.Along P (h ++ m.trace s is) (m.run s is) js := by
  induction is generalizing h s with
  | nil => simp [Along]
  | cons i is ih => simp only [List.cons_append, Along, ih, trace_cons, run_cons,
      List.append_assoc, and_assoc]

theorem invariant {Inv : List E → S → Prop}
    (hstep : ∀ h s i, Inv h s → P h s i → Inv (h ++ m.emit s i) (m.next s i)) (hs : Inv h s) (hP : m.Along P h s is) :
    Inv (h ++ m.trace s is) (m.run s is) := by
  induction is generalizing h s with
  | nil => simpa using hs
  | cons i is ih =>
    have h' := ih (hstep h s i hs hP.1) hP.2
    simpa only [trace_cons, run_cons, List.append_assoc] using h'

theorem along_of_invariant {Inv : List E → S → Prop}
    (hstep : ∀ h s i, Inv h s → P h s i → Inv (h ++ m.emit s i) (m.next s i))
    (himp : ∀ h s i, Inv h s → P h s i → Q h s i) (hs : Inv h s)
    (hP : m.Along P h s is) : m.Along Q h s is := by
  induction is generalizing h s with
  | nil => trivial
  | cons i is ih => exact ⟨himp h s i hs hP.1, ih (hstep h s i hs hP.1) hP.2⟩

theorem invariant_all {Inv : List E → S → Prop}
    (hstep : ∀ h s i, Inv h s → Inv (h ++ m.emit s i) (m.next s i)) (hs : Inv h s) (is : List I) :
    Inv (h ++ m.trace s is) (m.run s is) :=
  invariant (P := fun _ _ _ ↦ True) (fun h s i hi _ ↦ hstep h s i hi) hs
    (along_of_forall (fun _ _ _ _ ↦ trivial) h s)

end Machine

/-- Each event of `t` is justified by `Q` from the events before it. -/
def Always (Q : List E → E → Prop) : List E → List E → Prop
  | _, [] => True
  | h, e :: t => Q h e ∧ Always Q (h ++ [e]) t

section Always

variable {Q : List E → E → Prop}

@[simp] theorem always_nil (h : List E) : Always Q h [] := trivial

@[simp] theorem always_cons (h : List E) (e : E) (t : List E) :
    Always Q h (e :: t) ↔ Q h e ∧ Always Q (h ++ [e]) t := Iff.rfl

theorem always_append {h t u : List E} :
    Always Q h (t ++ u) ↔ Always Q h t ∧ Always Q (h ++ t) u := by
  induction t generalizing h with
  | nil => simp
  | cons e t ih => simp [ih, and_assoc]

theorem always_split {h t : List E} :
    Always Q h t ↔ ∀ pre e post, t = pre ++ e :: post → Q (h ++ pre) e := by
  constructor
  · rintro ht pre e post rfl
    exact (always_append.mp ht).2.1
  · intro ht
    induction t generalizing h with
    | nil => trivial
    | cons e t ih =>
      refine ⟨by simpa using ht [] e t rfl, ih fun pre e' post he ↦ ?_⟩
      simpa using ht (e :: pre) e' post (by simp [he])

section Steps

variable {m : Machine S I E} {P : List E → S → I → Prop} {Inv : List E → S → Prop}

theorem always_of_along (hstep : ∀ h s i, Inv h s → P h s i → Inv (h ++ m.emit s i) (m.next s i))
    (himp : ∀ h s i, Inv h s → P h s i → Always Q h (m.emit s i))
    (hs : Inv h s) (hP : m.Along P h s is) : Always Q h (m.trace s is) := by
  induction is generalizing h s with
  | nil => trivial
  | cons i is ih =>
    rw [Machine.trace_cons, always_append]
    exact ⟨himp h s i hs hP.1, ih (hstep h s i hs hP.1) hP.2⟩

theorem along_of_always (hstep : ∀ h s i, Inv h s → P h s i → Inv (h ++ m.emit s i) (m.next s i))
    (himp : ∀ h s i, Inv h s → Always Q h (m.emit s i) → P h s i)
    (hs : Inv h s) (hQ : Always Q h (m.trace s is)) : m.Along P h s is := by
  induction is generalizing h s with
  | nil => trivial
  | cons i is ih =>
    rw [Machine.trace_cons, always_append] at hQ
    have hi := himp h s i hs hQ.1
    exact ⟨hi, ih (hstep h s i hs hi) hQ.2⟩

theorem always_iff_along (hstep : ∀ h s i, Inv h s → Inv (h ++ m.emit s i) (m.next s i))
    (hiff : ∀ h s i, Inv h s → (Always Q h (m.emit s i) ↔ P h s i)) (hs : Inv h s)
    (is : List I) : Always Q h (m.trace s is) ↔ m.Along P h s is :=
  ⟨along_of_always (fun h s i hi _ ↦ hstep h s i hi) (fun h s i hi ↦ (hiff h s i hi).mp) hs,
    always_of_along (fun h s i hi _ ↦ hstep h s i hi) (fun h s i hi ↦ (hiff h s i hi).mpr) hs⟩

end Steps

theorem always_of_forall {h t : List E} (ht : ∀ h', ∀ e ∈ t, Q h' e) : Always Q h t :=
  always_split.mpr fun _ e _ he ↦ ht _ e (by simp [he])

end Always

section Component

variable {M : Machine S I E} {m : Machine T J F}
variable (π : S → T) (obs : E → Option F) (inputs : S → I → List J)

theorem component_invariant {Q : List F → T → J → Prop}
    {Inv : List F → T → Prop} (hnext : ∀ s i, π (M.next s i) = m.run (π s) (inputs s i))
    (hemit : ∀ s i, (M.emit s i).filterMap obs = m.trace (π s) (inputs s i))
    (hstep : ∀ h t j, Inv h t → Q h t j → Inv (h ++ m.emit t j) (m.next t j))
    (hP : ∀ h s i, P h s i → m.Along Q (h.filterMap obs) (π s) (inputs s i)) (hs : Inv [] (π s)) (halong : M.Along P [] s is) :
    Inv ((M.trace s is).filterMap obs) (π (M.run s is)) := by
  have hwhole : ∀ h s i, Inv (h.filterMap obs) (π s) → P h s i →
      Inv ((h ++ M.emit s i).filterMap obs) (π (M.next s i)) := by
    intro h s i hi hp
    rw [List.filterMap_append, hnext, hemit]
    exact Machine.invariant hstep hi (hP h s i hp)
  have hinit : Inv (([] : List E).filterMap obs) (π s) := hs
  simpa using Machine.invariant hwhole hinit halong

end Component

end SeaTunnel.Lib.Runs
