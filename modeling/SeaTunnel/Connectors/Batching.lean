import Mathlib.Data.List.Forall2
import Mathlib.Data.List.Perm.Subperm
import SeaTunnel.Connectors.SinkClient

namespace SeaTunnel.Connectors.Batching

open Lib Fallible SinkClient

variable {σ R α W D E : Type}

/-- The rows a sink writer holds, and those that are settled: they have reached
the target, or are left out of it by design. -/
structure Ledger (σ R : Type) where
  buffer : σ → List R
  settled : σ → List R

namespace Ledger

variable {l : Ledger σ R} {β : Type}

def Frames (l : Ledger σ R) (x : Fallible σ α) : Prop :=
  ∀ rows done, Keeps (fun s ↦ l.buffer s = rows ∧ l.settled s = done) x

def Settles (l : Ledger σ R) (x : Fallible σ α) (rows : List R) : Prop :=
  ∀ done, Triple (fun s ↦ l.buffer s = [] ∧ done.Subperm (l.settled s)) x
    (fun _ s ↦ l.buffer s = [] ∧ (done ++ rows).Subperm (l.settled s))
    (fun s ↦ l.buffer s = [] ∧ done.Subperm (l.settled s))

theorem Frames.eq {x : Fallible σ α} (h : l.Frames x) (s : σ) :
    l.buffer (x s).2 = l.buffer s ∧ l.settled (x s).2 = l.settled s :=
  (h (l.buffer s) (l.settled s)).snd ⟨rfl, rfl⟩

theorem Frames.settles {x : Fallible σ α} (h : l.Frames x) : l.Settles x [] := by
  intro done
  have hkeeps : Keeps (fun s ↦ l.buffer s = [] ∧ done.Subperm (l.settled s)) x := .of_snd fun s hs ↦ by
    rw [(h.eq s).1, (h.eq s).2]
    exact hs
  exact hkeeps.weaken (fun _ hs ↦ hs) (fun _ _ hs ↦ by rwa [List.append_nil]) fun _ hs ↦ hs

theorem Settles.bind {x : Fallible σ α} {f : α → Fallible σ β} {rows rows' : List R} (hx : l.Settles x rows)
    (hf : ∀ a, l.Settles (f a) rows') : l.Settles (x >>= f) (rows ++ rows') := by
  intro done
  have hthen : ∀ a, Triple (fun s ↦ l.buffer s = [] ∧ (done ++ rows).Subperm (l.settled s)) (f a)
      (fun _ s ↦ l.buffer s = [] ∧ (done ++ (rows ++ rows')).Subperm (l.settled s))
      (fun s ↦ l.buffer s = [] ∧ done.Subperm (l.settled s)) := fun a ↦
    (hf a (done ++ rows)).weaken (fun _ hs ↦ hs) (fun _ _ hs ↦ by rwa [List.append_assoc] at hs)
      fun _ hs ↦ ⟨hs.1, (List.sublist_append_left done rows).subperm.trans hs.2⟩
  exact .bind (hx done) hthen

theorem Settles.get {f : σ → Fallible σ α} {rows : List R} (h : ∀ s, l.Settles (f s) rows) :
    l.Settles (get >>= f) rows := fun done s hs ↦ h s done s hs

theorem Settles.ite {c : Prop} [Decidable c] {x y : Fallible σ α} {rows : List R} (hx : c → l.Settles x rows)
    (hy : ¬ c → l.Settles y rows) : l.Settles (if c then x else y) rows := fun done ↦
  .ite (fun h ↦ hx h done) fun h ↦ hy h done

theorem Settles.fail {e : String} {rows : List R} : l.Settles (fail e : Fallible σ α) rows :=
  fun _ ↦ .fail fun _ hs ↦ hs

theorem Settles.each {f : α → Fallible σ Unit} {rows : α → List R} {as : List α}
    (h : ∀ a ∈ as, l.Settles (f a) (rows a)) : l.Settles (each f as) (as.flatMap rows) := by
  induction as with
  | nil => exact Frames.settles fun _ _ ↦ .pure ()
  | cons a as ih => exact (h a (by simp)).bind fun _ ↦ ih fun a' ha' ↦ h a' (by simp [ha'])

theorem Settles.perm {x : Fallible σ α} {rows rows' : List R} (h : l.Settles x rows) (hp : rows'.Perm rows) :
    l.Settles x rows' := fun done ↦
  (h done).weaken (fun _ hs ↦ hs) (fun _ _ hs ↦ ⟨hs.1, (hp.append_left done).subperm.trans hs.2⟩) fun _ hs ↦ hs

theorem Settles.retrying {x : Fallible σ Unit} {rows : List R} (h : l.Settles x rows) (retries : ℕ) :
    l.Settles (retrying x retries) rows := fun done ↦ triple_retrying (h done) retries

section Client

variable (buffer : W → List R) (settled : E → List R)

def ofEvents : Ledger (Client W D E) R where
  buffer s := buffer s.self
  settled s := s.history.flatMap settled

variable {buffer settled} {rows : List R}

theorem settled_event (s : Client W D E) (db : D) (e : E) :
    (ofEvents buffer settled).settled ({ s with db, history := s.history ++ [e] } : Client W D E) =
      (ofEvents buffer settled).settled s ++ settled e := by
  simp [ofEvents]

theorem frames_ask {f : D → Except String α × D} :
    (ofEvents buffer settled).Frames (ask f : Fallible (Client W D E) α) := fun _ _ ↦ keeps_ask fun _ _ hs ↦ hs

theorem frames_setSelf {f : W → W} (hf : ∀ w, buffer (f w) = buffer w) :
    (ofEvents buffer settled).Frames (setSelf f : Fallible (Client W D E) Unit) := fun _ _ ↦
  .modify fun s hs ↦ ⟨(hf s.self).trans hs.1, hs.2⟩

theorem settles_record {e : E} (he : settled e = rows) :
    (ofEvents buffer settled).Settles (record e : Fallible (Client W D E) Unit) rows := fun done ↦ by
  refine .modify fun s hs ↦ ⟨hs.1, ?_⟩
  rw [settled_event s s.db, he]
  exact hs.2.append (List.Subperm.refl _)

theorem settles_send {f : D → Except String Unit × D} {event : Except String Unit → E}
    (hevent : settled (event (.ok ())) = rows) :
    (ofEvents buffer settled).Settles (send f event : Fallible (Client W D E) Unit) rows := fun done ↦ by
  refine triple_send (fun s db hs ↦ ⟨hs.1, ?_⟩) fun s db e hs ↦ ⟨hs.1, ?_⟩
  · rw [settled_event, hevent]
    exact hs.2.append (List.Subperm.refl _)
  · rw [settled_event]
    exact hs.2.trans (List.sublist_append_left _ _).subperm

end Client

end Ledger

structure BatchingWriter (σ R : Type) extends Ledger σ R where
  setBuffer : List R → σ → σ
  /-- Whether the writer takes a row in, and what it may look like in the buffer. -/
  accepts : R → Bool
  fits : R → R → Prop
  openWriter : Fallible σ Unit
  /-- The row as it is buffered, if it is. -/
  screen : R → Fallible σ (Option R)
  isFull : Fallible σ Bool
  isDue : Fallible σ Bool
  /-- Whether a barrier, and the end, flush at all. -/
  commits : σ → Bool
  closes : σ → Bool
  release : Fallible σ Unit
  stamp : Fallible σ Unit
  /-- What comes before the rows leave the buffer, and what comes after. -/
  ready : Fallible σ Unit
  deliver : List R → Fallible σ Unit

namespace BatchingWriter

section Calls

variable (b : BatchingWriter σ R)

def take : Fallible σ (List R) := do
  b.stamp
  let s ← get
  if (b.buffer s).isEmpty then pure []
  else
    b.ready
    let s ← get
    modify (b.setBuffer [])
    pure (b.buffer s)

def flush : Fallible σ Unit := do
  let rows ← b.take
  when (rows.isEmpty = false) (b.deliver rows)

def push (row : R) : Fallible σ Unit := modify fun s ↦ b.setBuffer (b.buffer s ++ [row]) s

def reach : SinkCall R → Fallible σ Bool
  | .openWriter => do
    b.openWriter
    pure false
  | .write row => do
    match ← b.screen row with
    | none => pure false
    | some row =>
      b.push row
      b.isFull
  | .pollFlush => b.isDue
  | .prepareCommit _ => do
    pure (b.commits (← get))
  | .closeWriter => do
    pure (b.closes (← get))

def finish : SinkCall R → Fallible σ Unit
  | .closeWriter => b.release
  | _ => pure ()

def call (c : SinkCall R) : Fallible σ Unit := do
  let flushes ← b.reach c
  when flushes b.flush
  b.finish c

/-- The call fails when the rows have left the buffer. -/
def DropsBatch (s : σ) (c : SinkCall R) : Prop :=
  ∃ s₁ rows s₂ e s₃, b.reach c s = (.ok true, s₁) ∧ b.take s₁ = (.ok rows, s₂) ∧ rows ≠ [] ∧
    b.deliver rows s₂ = (.error e, s₃)

/-- With rows in the buffer, no flush fails once it has taken them, and no
barrier passes without a flush. -/
def Careful (s : σ) (c : SinkCall R) : Prop :=
  b.buffer s ≠ [] → ¬ b.DropsBatch s c ∧ ∀ n, c = .prepareCommit n → b.commits s = true

def acceptedBy : SinkCall R × Except String Unit → List R
  | (.write row, .ok _) => if b.accepts row then [row] else []
  | _ => []

/-- The rows of the writes that returned `Ok`. -/
def accepted (history : List (SinkCall R × Except String Unit)) : List R := history.flatMap b.acceptedBy

/-- Every accepted row is settled. -/
def Acknowledges (history : List (SinkCall R × Except String Unit)) (s : σ) : Prop :=
  ∃ images, List.Forall₂ b.fits (b.accepted history) images ∧ images.Subperm (b.settled s)

structure Lawful : Prop where
  buffer_setBuffer : ∀ rows s, b.buffer (b.setBuffer rows s) = rows
  settled_setBuffer : ∀ rows s, b.settled (b.setBuffer rows s) = b.settled s
  openWriter : b.Frames b.openWriter
  screen : ∀ row, b.Frames (b.screen row)
  isFull : b.Frames b.isFull
  isDue : b.Frames b.isDue
  release : b.Frames b.release
  stamp : b.Frames b.stamp
  ready : b.Frames b.ready
  screened : ∀ row, Triple (fun _ ↦ True) (b.screen row)
    (fun image _ ↦ ∀ row' ∈ image, b.fits row row') fun _ ↦ True
  declined : ∀ row, Triple (fun _ ↦ b.accepts row = true) (b.screen row)
    (fun image _ ↦ image ≠ none) fun _ ↦ True
  delivered : ∀ rows, b.Settles (b.deliver rows) rows

end Calls

section Flush

variable {b : BatchingWriter σ R} {s s' : σ}

theorem take_spec (hb : b.Lawful) (s₀ : σ) :
    Triple (fun s ↦ s = s₀) b.take
      (fun rows s ↦ rows = b.buffer s₀ ∧ b.buffer s = [] ∧ b.settled s = b.settled s₀)
      (fun s ↦ b.buffer s = b.buffer s₀ ∧ b.settled s = b.settled s₀) := by
  refine .bind ((hb.stamp (b.buffer s₀) (b.settled s₀)).pre ?_) fun _ ↦ .get fun s₁ ⟨hbuffer, hsettled⟩ ↦
    .ite (fun hempty ↦ .pure ?_) fun _ ↦ ?_
  · rintro s rfl
    exact ⟨rfl, rfl⟩
  · rintro s rfl
    rw [List.isEmpty_iff] at hempty
    exact ⟨by rw [← hbuffer, hempty], hempty, hsettled⟩
  · refine .bind ((hb.ready (b.buffer s₀) (b.settled s₀)).pre ?_) fun _ ↦ .get fun s₂ ⟨hbuffer₂, hsettled₂⟩ ↦ ?_
    · rintro s rfl
      exact ⟨hbuffer, hsettled⟩
    · rintro s rfl
      exact ⟨hbuffer₂, hb.buffer_setBuffer [] s, by rw [hb.settled_setBuffer, hsettled₂]⟩

theorem flush_ok (hb : b.Lawful) (hrun : b.flush s = (.ok (), s')) :
    b.buffer s' = [] ∧ (b.settled s ++ b.buffer s).Subperm (b.settled s') := by
  have htake := take_spec hb s s rfl
  rcases hout : b.take s with ⟨e | rows, s₁⟩
  · rw [flush, bind_error hout] at hrun
    cases hrun
  · rw [hout] at htake
    obtain ⟨rfl, hempty, hsettled⟩ := htake
    rw [flush, bind_ok hout] at hrun
    by_cases hrows : (b.buffer s).isEmpty = false
    · rw [when, if_pos hrows] at hrun
      rw [← hsettled]
      exact (hb.delivered (b.buffer s) (b.settled s₁)).ok ⟨hempty, List.Subperm.refl _⟩ hrun
    · rw [when, if_neg hrows] at hrun
      obtain ⟨-, rfl⟩ := Prod.mk.inj hrun
      simp only [Bool.not_eq_false, List.isEmpty_iff] at hrows
      rw [hrows, List.append_nil, hsettled]
      exact ⟨hempty, List.Subperm.refl _⟩

theorem flush_error (hb : b.Lawful) {e : String} (hrun : b.flush s = (.error e, s')) :
    (b.buffer s' = b.buffer s ∧ b.settled s' = b.settled s) ∨
      (b.settled s).Subperm (b.settled s') ∧ ∃ rows s₂, b.take s = (.ok rows, s₂) ∧ rows ≠ [] ∧
        b.deliver rows s₂ = (.error e, s') := by
  have htake := take_spec hb s s rfl
  rcases hout : b.take s with ⟨e' | rows, s₁⟩
  · rw [flush, bind_error hout] at hrun
    rw [hout] at htake
    obtain ⟨-, rfl⟩ := Prod.mk.inj hrun
    exact .inl htake
  · rw [hout] at htake
    rw [flush, bind_ok hout] at hrun
    by_cases hrows : rows.isEmpty = false
    · rw [when, if_pos hrows] at hrun
      refine .inr ⟨?_, rows, s₁, rfl, by simpa using hrows, hrun⟩
      rw [← htake.2.2]
      exact ((hb.delivered rows (b.settled s₁)).error ⟨htake.2.1, List.Subperm.refl _⟩ hrun).2
    · rw [when, if_neg hrows] at hrun
      cases hrun

theorem take_of_stamp (hstamp : b.stamp = pure ()) (s : σ) :
    b.take s = (if (b.buffer s).isEmpty = true then pure [] else b.ready >>= fun _ ↦ get >>= fun s ↦
      modify (b.setBuffer []) >>= fun _ ↦ pure (b.buffer s) : Fallible σ (List R)) s := by
  rw [take, hstamp]
  rfl

theorem flush_of_stamp (hb : b.Lawful) (hstamp : b.stamp = pure ()) :
    b.flush = (get >>= fun s ↦ if (b.buffer s).isEmpty = true then pure () else b.ready >>= fun _ ↦
      get >>= fun s ↦ modify (b.setBuffer []) >>= fun _ ↦ b.deliver (b.buffer s)) := by
  funext s
  have htake := take_of_stamp hstamp s
  rw [get_bind, flush]
  by_cases hempty : (b.buffer s).isEmpty = true
  · rw [if_pos hempty] at htake
    rw [bind_ok htake, if_pos hempty]
    rfl
  · rw [if_neg hempty] at htake
    rw [if_neg hempty]
    have hframe := hb.ready.eq s
    rcases hready : b.ready s with ⟨e | _, s₁⟩
    · rw [bind_error hready] at htake
      rw [bind_error htake, bind_error hready]
    · rw [hready] at hframe
      rw [bind_ok hready] at htake
      have hrows : (b.buffer s₁).isEmpty = false := by
        rw [hframe.1]
        exact Bool.not_eq_true _ ▸ hempty
      have hdeliver := bind_ok htake (f := fun rows ↦ when (rows.isEmpty = false) (b.deliver rows))
      rw [when, if_pos hrows] at hdeliver
      rw [hdeliver, bind_ok hready]
      rfl

theorem call_eq {c : SinkCall R} (hfinish : b.finish c = pure ()) :
    b.call c = b.reach c >>= fun flushes ↦ when flushes b.flush := by
  have hunit : ∀ x : Fallible σ Unit, (x >>= fun _ ↦ b.finish c) = x := fun x ↦ by rw [hfinish, bind_unit]
  simp only [call, hunit]

end Flush

section Rule

variable {b : BatchingWriter σ R} {P Q : σ → Prop}

structure PartsKeep (b : BatchingWriter σ R) (P : σ → Prop) : Prop where
  setBuffer : ∀ rows s, P s → P (b.setBuffer rows s)
  openWriter : Keeps P b.openWriter
  screen : ∀ row, Keeps P (b.screen row)
  isFull : Keeps P b.isFull
  isDue : Keeps P b.isDue
  stamp : Keeps P b.stamp
  ready : Keeps P b.ready

theorem PartsKeep.reach (h : b.PartsKeep P) (c : SinkCall R) : Keeps P (b.reach c) := by
  cases c with
  | openWriter => exact .bind h.openWriter fun _ ↦ .pure _
  | write row =>
    refine .bind (h.screen row) fun image ↦ ?_
    cases image with
    | none => exact .pure _
    | some row' => exact .bind (.modify fun s hs ↦ h.setBuffer _ s hs) fun _ ↦ h.isFull
  | pollFlush => exact h.isDue
  | prepareCommit n => exact .get fun _ ↦ .pure _
  | closeWriter => exact .get fun _ ↦ .pure _

theorem PartsKeep.take (h : b.PartsKeep P) : Keeps P b.take :=
  .bind h.stamp fun _ ↦ .get fun _ ↦ .ite (.pure _) <| .bind h.ready fun _ ↦ .get fun _ ↦
    .bind (.modify fun s hs ↦ h.setBuffer [] s hs) fun _ ↦ .pure _

theorem PartsKeep.call (h : b.PartsKeep P) (hPQ : ∀ s, P s → Q s)
    (hdeliver : ∀ rows, Triple P (b.deliver rows) (fun _ ↦ Q) Q) (hrelease : Keeps Q b.release) (c : SinkCall R)
    {s : σ} (hs : P s) : Q (b.call c s).2 := by
  have hfinish : Keeps Q (b.finish c) := by
    cases c with
    | closeWriter => exact hrelease
    | _ => exact .pure ()
  have hflush : Triple P b.flush (fun _ ↦ Q) Q :=
    .bind (h.take.relax hPQ) fun rows ↦ .when (fun _ ↦ hdeliver rows) fun _ ↦ hPQ
  have hcall : Triple P (b.call c) (fun _ ↦ Q) Q :=
    .bind ((h.reach c).relax hPQ) fun flushes ↦ .bind (.when (fun _ ↦ hflush) fun _ ↦ hPQ) fun _ ↦ hfinish
  exact hcall.snd hs

end Rule

section Runs

variable {b : BatchingWriter σ R} {s s' : σ} {c : SinkCall R}

structure Reached (b : BatchingWriter σ R) (c : SinkCall R) (s s₁ : σ) (new : List R) : Prop where
  buffer : b.buffer s₁ = b.buffer s ++ new
  settled : b.settled s₁ = b.settled s
  image : ∀ row, c = .write row → b.accepts row = true → ∃ row', new = [row'] ∧ b.fits row row'

theorem write_reached (hb : b.Lawful) (row : R) (s₀ : σ) :
    Triple (fun s ↦ s = s₀) (b.reach (.write row)) (fun _ s ↦ ∃ new, Reached b (.write row) s₀ s new)
      (fun s ↦ ∃ new, b.buffer s = b.buffer s₀ ++ new ∧ b.settled s = b.settled s₀) := by
  have hscreen : Triple (fun s ↦ s = s₀) (b.screen row)
      (fun image s ↦ (b.buffer s = b.buffer s₀ ∧ b.settled s = b.settled s₀) ∧
        (∀ row' ∈ image, b.fits row row') ∧ (b.accepts row = true → image ≠ none))
      (fun s ↦ ∃ new, b.buffer s = b.buffer s₀ ++ new ∧ b.settled s = b.settled s₀) := by
    rintro s rfl
    have hframe := (hb.screen row).eq s
    have hfits := hb.screened row s trivial
    have hdeclined := hb.declined row s
    split
    · next image s' hrun =>
      rw [hrun] at hframe hfits hdeclined
      exact ⟨hframe, hfits, hdeclined⟩
    · next e s' hrun =>
      rw [hrun] at hframe
      exact ⟨[], by simpa using hframe⟩
  refine .bind hscreen fun image ↦ ?_
  cases image with
  | none =>
    refine .pure fun s ⟨hframe, _, hnone⟩ ↦ ⟨[], by simpa using hframe.1, hframe.2, ?_⟩
    rintro row' hrow haccepts
    obtain rfl : row = row' := by simpa using hrow
    exact absurd rfl (hnone haccepts)
  | some row' =>
    have hpush : Triple (fun s ↦ (b.buffer s = b.buffer s₀ ∧ b.settled s = b.settled s₀) ∧
        (∀ image ∈ some row', b.fits row image) ∧ (b.accepts row = true → some row' ≠ none)) (b.push row')
        (fun _ s ↦ (b.buffer s = b.buffer s₀ ++ [row'] ∧ b.settled s = b.settled s₀) ∧ b.fits row row')
        (fun s ↦ ∃ new, b.buffer s = b.buffer s₀ ++ new ∧ b.settled s = b.settled s₀) := by
      refine .modify fun s ⟨hframe, hfits, _⟩ ↦ ⟨⟨?_, ?_⟩, hfits row' rfl⟩
      · rw [hb.buffer_setBuffer, hframe.1]
      · rw [hb.settled_setBuffer, hframe.2]
    refine .bind hpush fun _ ↦ ?_
    intro s ⟨hframe, hfits⟩
    have hfull := hb.isFull.eq s
    rw [hframe.1, hframe.2] at hfull
    split
    · next full s' hrun =>
      rw [hrun] at hfull
      refine ⟨[row'], hfull.1, hfull.2, ?_⟩
      rintro row'' hrow -
      obtain rfl : row = row'' := by simpa using hrow
      exact ⟨row', rfl, hfits⟩
    · next e s' hrun =>
      rw [hrun] at hfull
      exact ⟨[row'], hfull⟩

theorem reached_of_frames {x : Fallible σ α} (hx : b.Frames x) (hc : ∀ row, c ≠ .write row) (s : σ) :
    Reached b c s (x s).2 [] :=
  ⟨by simpa using (hx.eq s).1, (hx.eq s).2, fun row hrow ↦ absurd hrow (hc row)⟩

theorem reach_spec (hb : b.Lawful) (c : SinkCall R) (s₀ : σ) :
    Triple (fun s ↦ s = s₀) (b.reach c) (fun _ s ↦ ∃ new, Reached b c s₀ s new)
      (fun s ↦ ∃ new, b.buffer s = b.buffer s₀ ++ new ∧ b.settled s = b.settled s₀) := by
  have hframes : ∀ x : Fallible σ Bool, b.Frames x → (∀ row, c ≠ .write row) →
      Triple (fun s ↦ s = s₀) x (fun _ s ↦ ∃ new, Reached b c s₀ s new)
        (fun s ↦ ∃ new, b.buffer s = b.buffer s₀ ++ new ∧ b.settled s = b.settled s₀) := by
    rintro x hx hc s rfl
    have hreached := reached_of_frames hx hc s
    split
    · next hrun =>
      rw [hrun] at hreached
      exact ⟨[], hreached⟩
    · next hrun =>
      rw [hrun] at hreached
      exact ⟨[], hreached.buffer, hreached.settled⟩
  cases c with
  | openWriter => exact hframes _ (fun rows done ↦ .bind (hb.openWriter rows done) fun _ ↦ .pure _) nofun
  | write row => exact write_reached hb row s₀
  | pollFlush => exact hframes _ hb.isDue nofun
  | prepareCommit n => exact hframes _ (fun _ _ ↦ .get fun _ ↦ .pure _) nofun
  | closeWriter => exact hframes _ (fun _ _ ↦ .get fun _ ↦ .pure _) nofun

theorem finish_frames (hb : b.Lawful) (c : SinkCall R) : b.Frames (b.finish c) := by
  cases c with
  | closeWriter => exact hb.release
  | _ => exact fun _ _ ↦ .pure ()

theorem call_conserves (hb : b.Lawful) (hcareful : b.buffer s ≠ [] → ¬ b.DropsBatch s c) :
    ∃ new, (b.settled s ++ b.buffer s ++ new).Subperm (b.settled (b.call c s).2 ++ b.buffer (b.call c s).2) ∧
      ((b.call c s).1 = .ok () → ∀ row, c = .write row → b.accepts row = true →
        ∃ row', new = [row'] ∧ b.fits row row') := by
  have hreach := reach_spec hb c s s rfl
  have hfinish := finish_frames hb c
  rcases hout : b.reach c s with ⟨e | flushes, s₁⟩
  · rw [hout] at hreach
    obtain ⟨new, hbuffer, hsettled⟩ := hreach
    rw [call, bind_error hout]
    refine ⟨[], ?_, nofun⟩
    rw [hbuffer, hsettled, List.append_nil, ← List.append_assoc]
    exact (List.sublist_append_left _ new).subperm
  rw [hout] at hreach
  obtain ⟨new, hreached⟩ := hreach
  rw [call, bind_ok hout]
  cases flushes with
  | false =>
    have hwhen : when (false = true) b.flush s₁ = (.ok (), s₁) := by
      rw [when, if_neg (by decide)]
      rfl
    rw [bind_ok hwhen]
    refine ⟨new, ?_, fun _ ↦ hreached.image⟩
    rw [(hfinish.eq s₁).1, (hfinish.eq s₁).2, hreached.buffer, hreached.settled, List.append_assoc]
  | true =>
    have hwhen : when (true = true) b.flush s₁ = b.flush s₁ := by rw [when, if_pos rfl]
    rcases hflush : b.flush s₁ with ⟨e | _, s₂⟩
    · rw [bind_error (hwhen.trans hflush)]
      refine ⟨[], ?_, nofun⟩
      rw [List.append_nil]
      rcases flush_error hb hflush with ⟨hbuffer, hsettled⟩ | ⟨hsettled, rows, s₂', htake, hrows, hdeliver⟩
      · rw [hbuffer, hsettled, hreached.buffer, hreached.settled, ← List.append_assoc]
        exact (List.sublist_append_left _ new).subperm
      · have hempty : b.buffer s = [] := by
          by_contra hne
          exact hcareful hne ⟨s₁, rows, s₂', e, s₂, hout, htake, hrows, hdeliver⟩
        rw [hreached.settled] at hsettled
        rw [hempty, List.append_nil]
        exact hsettled.trans (List.sublist_append_left _ _).subperm
    · obtain ⟨hempty, hsettled⟩ := flush_ok hb hflush
      rw [bind_ok (hwhen.trans hflush)]
      refine ⟨new, ?_, fun _ ↦ hreached.image⟩
      rw [(hfinish.eq s₂).1, (hfinish.eq s₂).2, hempty, List.append_nil, List.append_assoc, ← hreached.buffer,
        ← hreached.settled]
      exact hsettled

theorem prepareCommit_clears (hb : b.Lawful) {n : ℕ} (hcareful : b.Careful s (.prepareCommit n))
    (hok : (b.call (.prepareCommit n) s).1 = .ok ()) : b.buffer (b.call (.prepareCommit n) s).2 = [] := by
  have hcall : b.call (.prepareCommit n) s = when (b.commits s = true) b.flush s := by
    have hreach : b.reach (.prepareCommit n) s = (.ok (b.commits s), s) := rfl
    rw [call, bind_ok hreach]
    rcases hout : when (b.commits s = true) b.flush s with ⟨e | _, s₁⟩
    · exact bind_error hout
    · rw [bind_ok hout]
      rfl
  rw [hcall] at hok ⊢
  by_cases hcommits : b.commits s = true
  · rw [when, if_pos hcommits] at hok ⊢
    exact (flush_ok hb (Prod.ext hok rfl)).1
  · rw [when, if_neg hcommits]
    by_contra hne
    exact hcommits ((hcareful hne).2 n rfl)

def Owes (b : BatchingWriter σ R) (history : List (SinkCall R × Except String Unit)) (s : σ) : Prop :=
  ∃ images, List.Forall₂ b.fits (b.accepted history) images ∧ images.Subperm (b.settled s ++ b.buffer s)

theorem call_owes (hb : b.Lawful) {history : List (SinkCall R × Except String Unit)} (hs : b.Owes history s)
    (hcareful : b.buffer s ≠ [] → ¬ b.DropsBatch s c) :
    b.Owes (history ++ [(c, (b.call c s).1)]) (b.call c s).2 := by
  obtain ⟨images, hfits, hsub⟩ := hs
  obtain ⟨new, hconserved, hnew⟩ := call_conserves hb hcareful
  have hskip : b.acceptedBy (c, (b.call c s).1) = [] → b.Owes (history ++ [(c, (b.call c s).1)]) (b.call c s).2 := by
    intro hnone
    refine ⟨images, ?_, hsub.trans ((List.sublist_append_left _ new).subperm.trans hconserved)⟩
    rwa [accepted, List.flatMap_append, List.flatMap_singleton, hnone, List.append_nil]
  cases hr : (b.call c s).1 with
  | error e => exact hr ▸ hskip (by cases c <;> simp [acceptedBy, hr])
  | ok u =>
    by_cases hrow : ∃ row, c = .write row ∧ b.accepts row = true
    · obtain ⟨row, rfl, haccepts⟩ := hrow
      obtain ⟨row', rfl, hfit⟩ := hnew hr row rfl haccepts
      have haccepted : b.accepted (history ++ [(.write row, .ok u)]) = b.accepted history ++ [row] := by
        simp [accepted, acceptedBy, haccepts]
      refine ⟨images ++ [row'], ?_, (hsub.append (List.Subperm.refl [row'])).trans hconserved⟩
      rw [haccepted]
      exact List.rel_append hfits (.cons hfit .nil)
    · refine hr ▸ hskip ?_
      cases c with
      | write row =>
        have hno : ¬ b.accepts row = true := fun h ↦ hrow ⟨row, rfl, h⟩
        simp [acceptedBy, hr, hno]
      | _ => simp [acceptedBy]

theorem acknowledges_of_careful (hb : b.Lawful) {calls : List (SinkCall R)} {n : ℕ}
    (hcareful : (machine b.call).Along (fun _ s c ↦ b.Careful s c) [] s (calls ++ [.prepareCommit n]))
    (hok : (b.call (.prepareCommit n) ((machine b.call).run s calls)).1 = .ok ()) :
    b.Acknowledges ((machine b.call).trace s calls) ((machine b.call).run s (calls ++ [.prepareCommit n])) := by
  obtain ⟨hbefore, hlast, -⟩ := Runs.Machine.along_append.mp hcareful
  have hstep : ∀ h s c, b.Owes h s → b.Careful s c →
      b.Owes (h ++ (machine b.call).emit s c) ((machine b.call).next s c) :=
    fun h s c hs hc ↦ call_owes hb hs fun hne ↦ (hc hne).1
  have howes : b.Owes ((machine b.call).trace s calls) ((machine b.call).run s calls) :=
    Runs.Machine.invariant hstep (h := []) ⟨[], .nil, List.nil_subperm⟩ hbefore
  obtain ⟨images, hfits, hsub⟩ := hstep _ _ _ howes hlast
  rw [Runs.Machine.run_append]
  refine ⟨images, ?_, ?_⟩
  · have hnone : ((machine b.call).emit ((machine b.call).run s calls) (.prepareCommit n)).flatMap b.acceptedBy =
        [] := rfl
    rwa [accepted, List.flatMap_append, hnone, List.append_nil] at hfits
  · have hclear := prepareCommit_clears hb hlast hok
    change images.Subperm (b.settled (b.call (.prepareCommit n) ((machine b.call).run s calls)).2 ++
      b.buffer (b.call (.prepareCommit n) ((machine b.call).run s calls)).2) at hsub
    rw [hclear, List.append_nil] at hsub
    exact hsub

theorem not_dropsBatch_of_ok (hok : (b.call c s).1 = .ok ()) : ¬ b.DropsBatch s c := by
  rintro ⟨s₁, rows, s₂, e, s₃, hreach, htake, hrows, hdeliver⟩
  have hflush : when (true = true) b.flush s₁ = (.error e, s₃) := by
    rw [when, if_pos rfl, flush, bind_ok htake, when, if_pos (by simpa using hrows), hdeliver]
  rw [call, bind_ok hreach, bind_error hflush] at hok
  cases hok

theorem not_acknowledges {history : List (SinkCall R × Except String Unit)} (haccepted : b.accepted history ≠ [])
    (hsettled : b.settled s = []) : ¬ b.Acknowledges history s := by
  rintro ⟨images, hfits, hsub⟩
  rw [hsettled, List.subperm_nil] at hsub
  rw [hsub, List.forall₂_nil_right_iff] at hfits
  exact haccepted hfits

end Runs

end BatchingWriter

end SeaTunnel.Connectors.Batching
