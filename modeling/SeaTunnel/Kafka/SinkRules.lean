import Mathlib.Algebra.Order.Group.Multiset
import SeaTunnel.Kafka.Sink

namespace SeaTunnel.Kafka.SinkRules

open Lib Fallible Connectors.SinkClient Formats.CanalClient Kafka.Sink

variable {F V D : Type}

abbrev State (F V D : Type) : Type := Client (KafkaSinkWriter F V) D (SinkEvent F V)

section Observed

def encodedRow : SinkEvent F V → Option (CdcRow F)
  | .encoded row => some row
  | _ => none

def enqueuedDelivery : SinkEvent F V → Option (InFlightDelivery V)
  | .enqueued delivery => some delivery
  | _ => none

def observed {α : Type} (f : SinkEvent F V → Option α) (h : List (SinkEvent F V)) : Multiset α := h.filterMap f

theorem observed_append {α : Type} (f : SinkEvent F V → Option α) (h h' : List (SinkEvent F V)) :
    observed f (h ++ h') = observed f h + observed f h' := by
  rw [observed, List.filterMap_append, ← Multiset.coe_add]
  rfl

theorem observed_none {α : Type} {f : SinkEvent F V → Option α} {e : SinkEvent F V} (he : f e = none) :
    observed f [e] = 0 := by
  rw [observed, List.filterMap_cons_none he]
  rfl

theorem observed_some {α : Type} {f : SinkEvent F V → Option α} {e : SinkEvent F V} {a : α} (he : f e = some a) :
    observed f [e] = {a} := by
  rw [observed, List.filterMap_cons_some he]
  rfl

end Observed

section Shape

variable (producer : Producer F V D) [DecidableEq V]

def reach : SinkCall (CdcRow F) → SinkM F V D Bool
  | .openWriter => do
    openWriter producer
    pure false
  | .write row => do
    setSelf fun w ↦ { w with batch := w.batch ++ [row] }
    isFull producer
  | .pollFlush => isDue producer
  | .prepareCommit _ => pure true
  | .closeWriter => do
    let s ← get
    pure (s.self.batch ≠ [])

def finish : SinkCall (CdcRow F) → SinkM F V D Unit
  | .prepareCommit n => do
    drain producer
    let s ← get
    when s.self.txnBase.isSome (commitWindow producer n)
  | .closeWriter => do
    let s ← get
    when s.self.producer (flushHeld producer s.self.canalEncoder)
    swallow (drain producer)
    let s ← get
    when (s.self.txnOpen && s.self.producer) (swallow (closeTransaction producer))
  | _ => pure ()

/-- The flush of the call fails when the rows have left the batch. -/
def LosesBatch (s : State F V D) (c : SinkCall (CdcRow F)) : Prop :=
  ∃ s₁ rows s₂ e s₃, reach producer c s = (.ok true, s₁) ∧ takeBatch producer s₁ = (.ok rows, s₂) ∧
    deliverRows producer rows s₂ = (.error e, s₃)

def broughtRow : SinkCall (CdcRow F) → List (CdcRow F)
  | .write row => [row]
  | _ => []

variable {producer}

theorem call_eq (c : SinkCall (CdcRow F)) : call producer c =
    reach producer c >>= fun flushes ↦ when flushes (flushBatch producer) >>= fun _ ↦ finish producer c := by
  cases c with
  | openWriter =>
    rw [reach, Fallible.bind_assoc]
    exact (bind_unit _).symm
  | write row => simp only [call, write, reach, finish, Fallible.bind_assoc, bind_unit]
  | pollFlush => simp only [call, pollFlush, reach, finish, bind_unit]
  | prepareCommit n => rfl
  | closeWriter =>
    funext s
    rw [reach, Fallible.bind_assoc, call, closeWriter, get_bind, get_bind]
    by_cases hbatch : s.self.batch ≠ []
    · rw [when, if_pos hbatch]
      change _ = (when (decide (s.self.batch ≠ []) = true) (flushBatch producer) >>= fun _ ↦ finish producer .closeWriter) s
      rw [decide_eq_true hbatch]
      rfl
    · rw [when, if_neg hbatch]
      change _ = (when (decide (s.self.batch ≠ []) = true) (flushBatch producer) >>= fun _ ↦ finish producer .closeWriter) s
      rw [decide_eq_false hbatch]
      rfl

end Shape

section Parts

variable {producer : Producer F V D} {P : State F V D → Prop}

structure Closed (producer : Producer F V D) (P : State F V D → Prop) : Prop where
  now : ∀ s, P s → P { s with db := (producer.now s.db).2 }
  create : ∀ s txnBase, P s → P { s with db := (producer.create txnBase s.db).2 }
  self : ∀ s w, w.batch = s.self.batch → w.inFlight = s.self.inFlight → w.txnBase = s.self.txnBase → P s →
    P { s with self := w }
  enqueued : ∀ s d, P s → P { s with
    self := { s.self with inFlight := s.self.inFlight ++ [d] }, history := s.history ++ [.enqueued d] }

def IgnoresTransactions (P : State F V D → Prop) : Prop :=
  ∀ s db c r, P s → P { s with db, history := s.history ++ [.transaction c r] }

theorem IgnoresTransactions.send (h : IgnoresTransactions P) (f : D → Except String Unit × D) (c : TransactionCall) :
    Keeps P (send f (.transaction c) : SinkM F V D Unit) :=
  keeps_send fun s db r hs ↦ h s db c r hs

theorem keeps_orElse {x y : SinkM F V D Unit} (hx : Keeps P x) (hy : Keeps P y) : Keeps P (orElse x y) := by
  intro s hs
  have hout := hx s hs
  unfold orElse
  rcases hrun : x s with ⟨e | u, s'⟩
  · rw [hrun] at hout
    exact hy.snd hout
  · rw [hrun] at hout
    exact hout

namespace Closed

theorem time (h : Closed producer P) : Keeps P (Sink.now producer) := .of_snd fun s hs ↦ h.now s hs

theorem setSelf (h : Closed producer P) {f : KafkaSinkWriter F V → KafkaSinkWriter F V}
    (hf : ∀ w, (f w).batch = w.batch ∧ (f w).inFlight = w.inFlight ∧ (f w).txnBase = w.txnBase) :
    Keeps P (setSelf f : SinkM F V D Unit) :=
  .modify fun s hs ↦ h.self s _ (hf s.self).1 (hf s.self).2.1 (hf s.self).2.2 hs

theorem pushDelivery (h : Closed producer P) (payload : Payload V) (key topic : String) :
    Keeps P (pushDelivery payload key topic : SinkM F V D Unit) :=
  fun s hs ↦ h.enqueued s _ hs

theorem ensureProducer (h : Closed producer P) : Keeps P (ensureProducer producer) :=
  .get fun _ ↦ .when fun _ ↦ .bind (.of_snd fun s hs ↦ h.create s _ hs) fun _ ↦ h.setSelf fun _ ↦ ⟨rfl, rfl, rfl⟩

theorem fanoutDelivery (h : Closed producer P) (origin : Option String) (key : String) (payload : Payload V) :
    Keeps P (fanoutDelivery origin key payload : SinkM F V D Unit) := by
  refine .get fun s ↦ ?_
  cases s.self.topicRouter.resolveAll origin with
  | error e => exact .fail _
  | ok out =>
    exact .bind (h.setSelf fun _ ↦ ⟨rfl, rfl, rfl⟩) fun _ ↦ .each fun topic _ ↦ h.pushDelivery payload key topic

theorem deliverMessages (h : Closed producer P) (messages : List (CanalMessage V)) :
    Keeps P (deliverMessages messages : SinkM F V D Unit) := .each fun _ _ ↦ h.fanoutDelivery _ _ _

theorem flushHeld (h : Closed producer P) (canalEncoder : Option (CanalClientEncoder F V)) :
    Keeps P (flushHeld producer canalEncoder) := by
  cases canalEncoder with
  | none => exact .pure ()
  | some encoder =>
    exact .bind (h.setSelf fun _ ↦ ⟨rfl, rfl, rfl⟩) fun _ ↦ .each fun _ _ ↦ keeps_swallow (h.deliverMessages _)

theorem expireCanal (h : Closed producer P) (encoder : CanalClientEncoder F V) : Keeps P (expireCanal producer encoder) :=
  .bind h.time fun _ ↦ .bind (h.setSelf fun _ ↦ ⟨rfl, rfl, rfl⟩) fun _ ↦ h.deliverMessages _

theorem isFull (h : Closed producer P) : Keeps P (isFull producer) := .bind h.time fun _ ↦ .get fun _ ↦ .pure _

theorem isDue (h : Closed producer P) : Keeps P (isDue producer) := .bind h.time fun _ ↦ .get fun _ ↦ .pure _

theorem openWriter (h : Closed producer P) (ht : IgnoresTransactions P) : Keeps P (openWriter producer) :=
  .bind h.ensureProducer fun _ ↦ .get fun _ ↦ .when fun _ ↦ .bind (ht.send _ _) fun _ ↦
    h.setSelf fun _ ↦ ⟨rfl, rfl, rfl⟩

theorem commitWindow (h : Closed producer P) (ht : IgnoresTransactions P) (n : ℕ) : Keeps P (commitWindow producer n) :=
  .bind (keeps_orElse (ht.send _ _) (ht.send _ _)) fun _ ↦ .bind (h.setSelf fun _ ↦ ⟨rfl, rfl, rfl⟩) fun _ ↦
    .bind (ht.send _ _) fun _ ↦ h.setSelf fun _ ↦ ⟨rfl, rfl, rfl⟩

theorem closeTransaction (h : Closed producer P) (ht : IgnoresTransactions P) : Keeps P (closeTransaction producer) :=
  keeps_orElse (.bind (ht.send _ _) fun _ ↦ h.setSelf fun _ ↦ ⟨rfl, rfl, rfl⟩) (ht.send _ _)

end Closed

end Parts

section Flush

variable {producer : Producer F V D} {P G : Multiset (CdcRow F) → List (CdcRow F) → State F V D → Prop}
  {m : Multiset (CdcRow F)} {b : List (CdcRow F)}

structure Rules (producer : Producer F V D)
    (P G : Multiset (CdcRow F) → List (CdcRow F) → State F V D → Prop) : Prop where
  closed : ∀ m b, Closed producer (P m b)
  batch : ∀ m b s, P m b s → s.self.batch = b
  taken : ∀ m b b' s, P m b s → P m b' { s with self := { s.self with batch := b' } }
  row : ∀ m b row s, P m b s → P (m + {row}) b { s with history := s.history ++ [.encoded row] }
  failed : ∀ m b s, P m b s → G m b s
  lessFailed : ∀ m m' b s, m ≤ m' → G m' b s → G m b s
  sweep : ∀ m b, Keeps (P m b) (reapCompleted producer)
  reap : ∀ m b n, Triple (P m b) (reapFront producer n) (fun _ ↦ P m b) (G m b)

variable (h : Rules producer P G)
include h

theorem Rules.settle (before : ℕ) : Triple (P m b) (settle producer before) (fun _ ↦ P m b) (G m b) := by
  have hlimit : Triple (P m b) (reapToLimit producer) (fun _ ↦ P m b) (G m b) := by
    intro s hs
    exact Triple.when (fun _ ↦ h.reap m b _) (fun _ _ hs ↦ hs) s hs
  have hcount := (h.closed m b).setSelf (f := fun w ↦
    { w with
      totalWritten := w.totalWritten + (w.inFlight.length - before)
      txnMessages := w.txnMessages + (w.inFlight.length - before) }) fun _ ↦ ⟨rfl, rfl, rfl⟩
  exact .bind (hcount.relax (h.failed m b)) fun _ ↦ .bind ((h.sweep m b).relax (h.failed m b)) fun _ ↦ hlimit

theorem Rules.drain : Triple (P m b) (drain producer) (fun _ ↦ P m b) (G m b) :=
  fun s hs ↦ h.reap m b _ s hs

theorem Rules.encodeRows {encode : CdcRow F → SinkM F V D Unit}
    (hencode : ∀ m row, Triple (P m b) (encode row) (fun _ ↦ P (m + {row}) b) (P m b)) (rows : List (CdcRow F)) :
    Triple (P m b) (each encode rows) (fun _ ↦ P (m + rows) b) (G m b) := by
  induction rows generalizing m with
  | nil => exact .pure fun s hs ↦ by simpa using hs
  | cons row rows ih =>
    refine .bind ((hencode m row).weaken (fun _ hs ↦ hs) (fun _ _ hs ↦ hs) (h.failed m b)) fun _ ↦ ?_
    refine ih.weaken (fun _ hs ↦ hs) (fun _ s hs ↦ ?_) fun s hs ↦ h.lessFailed m _ b s (Multiset.le_add_right _ _) hs
    rwa [add_assoc, Multiset.singleton_add, Multiset.cons_coe] at hs

theorem Rules.encodePlain (config : KafkaSinkConfig) (row : CdcRow F) :
    Triple (P m b) (encodePlain producer config row) (fun _ ↦ P (m + {row}) b) (P m b) :=
  .bind ((h.closed m b).fanoutDelivery _ _ _) fun _ ↦ .modify fun s hs ↦ h.row m b row s hs

variable [DecidableEq V]

theorem Rules.encodeCanal (rows : List (CdcRow F)) (encoder : CanalClientEncoder F V) :
    Triple (P m b) (encodeCanal producer rows encoder) (fun _ ↦ P (m + rows) b) (G m b) := by
  induction rows generalizing m encoder with
  | nil => exact .pure fun s hs ↦ by simpa using hs
  | cons row rows ih =>
    have hclosed := h.closed m b
    refine .bind (hclosed.time.relax (h.failed m b)) fun time ↦ ?_
    cases encoder.encode producer.conversions time row with
    | error e => exact .fail (h.failed m b)
    | ok out =>
      have hencoder : Keeps (P m b) (setSelf fun w ↦ { w with canalEncoder := some out.2 } : SinkM F V D Unit) :=
        hclosed.setSelf fun _ ↦ ⟨rfl, rfl, rfl⟩
      refine .bind (hencoder.relax (h.failed m b)) fun _ ↦ ?_
      refine .bind ((hclosed.deliverMessages _).relax (h.failed m b)) fun _ ↦ ?_
      have hrow : Triple (P m b) (record (.encoded row) : SinkM F V D Unit) (fun _ ↦ P (m + {row}) b) (G m b) :=
        .modify fun s hs ↦ h.row m b row s hs
      refine .bind hrow fun _ ↦ (ih _).weaken (fun _ hs ↦ hs) (fun _ s hs ↦ ?_) fun s hs ↦
        h.lessFailed m _ b s (Multiset.le_add_right _ _) hs
      rwa [add_assoc, Multiset.singleton_add, Multiset.cons_coe] at hs

theorem Rules.deliverRows (rows : List (CdcRow F)) :
    Triple (P m b) (deliverRows producer rows) (fun _ ↦ P (m + rows) b) (G m b) := by
  have hless (s : State F V D) : G (m + rows) b s → G m b s := h.lessFailed m _ b s (Multiset.le_add_right _ _)
  have hsettle (before : ℕ) : Triple (P (m + rows) b) (Sink.settle producer before) (fun _ ↦ P (m + rows) b) (G m b) :=
    (h.settle before).weaken (fun _ hs ↦ hs) (fun _ _ hs ↦ hs) hless
  intro s hs
  unfold Sink.deliverRows
  rw [get_bind]
  refine (?_ : Triple (P m b) _ _ _) s hs
  cases s.self.canalEncoder with
  | some encoder =>
    refine .ite (fun _ ↦ .fail (h.failed m b)) fun _ ↦ .bind (h.encodeCanal rows encoder) fun encoder ↦ ?_
    have hexpire : Keeps (P (m + rows) b) (Sink.expireCanal producer encoder) := (h.closed (m + rows) b).expireCanal encoder
    exact .bind ((hexpire.relax (h.failed (m + rows) b)).weaken (fun _ hs ↦ hs) (fun _ _ hs ↦ hs) hless) fun _ ↦ hsettle _
  | none =>
    refine .ite (fun hempty ↦ .pure fun s hs ↦ ?_) fun _ ↦ .bind (h.encodeRows (fun m row ↦ h.encodePlain _ row) rows) fun _ ↦
      hsettle _
    simpa [List.isEmpty_iff.mp hempty] using hs

omit [DecidableEq V] in
theorem Rules.takeBatch :
    Triple (P m b) (takeBatch producer) (fun rows s ↦ rows = b ∧ P m [] s) (P m b) := by
  have hclosed := h.closed m b
  have hstamp (time : ℕ) : Keeps (P m b) (setSelf fun w ↦ { w with lastFlush := time } : SinkM F V D Unit) :=
    hclosed.setSelf fun _ ↦ ⟨rfl, rfl, rfl⟩
  refine .bind hclosed.time fun time ↦ .bind (hstamp time) fun _ ↦ .bind hclosed.ensureProducer fun _ ↦ ?_
  exact fun s hs ↦ ⟨h.batch m b s hs, h.taken m b [] s hs⟩

theorem Rules.flushBatch : Triple (P m b) (flushBatch producer) (fun _ ↦ P (m + b) [])
    (fun s ↦ P m b s ∨ G m [] s) := by
  refine .bind (h.takeBatch.weaken (fun _ hs ↦ hs) (fun _ _ hs ↦ hs) fun _ hs ↦ .inl hs) fun rows ↦ ?_
  refine .assuming fun hrows ↦ ?_
  subst hrows
  exact (h.deliverRows rows).weaken (fun _ hs ↦ hs) (fun _ _ hs ↦ hs) fun _ hs ↦ .inr hs

omit [DecidableEq V] in
theorem Rules.reach (c : SinkCall (CdcRow F)) (ht : c = .openWriter → IgnoresTransactions (P m b)) :
    Triple (P m b) (reach producer c) (fun _ ↦ P m (b ++ broughtRow c)) (P m (b ++ broughtRow c)) := by
  have hsame (x : SinkM F V D Bool) (hx : Keeps (P m b) x) : Keeps (P m (b ++ [])) x := (List.append_nil b).symm ▸ hx
  have hstay (s : State F V D) (hs : P m b s) : P m (b ++ []) s := (List.append_nil b).symm ▸ hs
  cases c with
  | openWriter =>
    have hopen : Keeps (P m b) (Sink.openWriter producer) := (h.closed m b).openWriter (ht rfl)
    exact (hsame _ (.bind hopen fun _ ↦ .pure false)).pre hstay
  | write row =>
    have hpush : Triple (P m b) (setSelf fun w ↦ { w with batch := w.batch ++ [row] } : SinkM F V D Unit)
        (fun _ ↦ P m (b ++ [row])) (P m (b ++ [row])) := by
      refine .modify fun s hs ↦ ?_
      rw [← h.batch m b s hs]
      exact h.taken m b _ s hs
    exact .bind hpush fun _ ↦ (h.closed m (b ++ [row])).isFull
  | pollFlush => exact (hsame _ (h.closed m b).isDue).pre hstay
  | prepareCommit n => exact (hsame _ (.pure true)).pre hstay
  | closeWriter => exact (hsame _ (.get fun _ ↦ .pure _)).pre hstay

omit [DecidableEq V] in
theorem Rules.finish {c : SinkCall (CdcRow F)} (hc : c ≠ .closeWriter) (ht : IgnoresTransactions (P m b)) :
    Triple (P m b) (finish producer c) (fun _ ↦ P m b) (G m b) := by
  cases c with
  | prepareCommit n =>
    exact .bind h.drain fun _ ↦
      (Keeps.get fun _ ↦ .when fun _ ↦ (h.closed m b).commitWindow ht n).relax (h.failed m b)
  | closeWriter => exact absurd rfl hc
  | _ => exact .pure fun _ hs ↦ hs

end Flush

section Rule

variable {producer : Producer F V D} [DecidableEq V]

variable {P G : Multiset (CdcRow F) → List (CdcRow F) → State F V D → Prop} {m : Multiset (CdcRow F)}
  {b : List (CdcRow F)} {s s' : State F V D}

theorem Rules.call (h : Rules producer P G) {c : SinkCall (CdcRow F)}
    (hfinish : ∀ m b, Triple (P m b) (SinkRules.finish producer c) (fun _ ↦ P m b) (G m b))
    (ht : c = .openWriter → IgnoresTransactions (P m b)) (hs : P m b s)
    {r : Except String Unit} (hrun : Sink.call producer c s = (r, s')) :
    (G m (b ++ broughtRow c) s' ∨ G (m + (b ++ broughtRow c : List (CdcRow F))) [] s' ∨
      LosesBatch producer s c ∧ G m [] s' ∧ r ≠ .ok ()) ∧
    (r = .ok () → P m (b ++ broughtRow c) s' ∨ P (m + (b ++ broughtRow c : List (CdcRow F))) [] s') := by
  have hreach := h.reach (m := m) (b := b) c ht
  rw [call_eq] at hrun
  rcases hout : SinkRules.reach producer c s with ⟨e | flushes, s₁⟩
  · cases (bind_error hout).symm.trans hrun
    exact ⟨.inl (h.failed _ _ _ (hreach.error hs hout)), nofun⟩
  have hs₁ := hreach.ok hs hout
  rw [bind_ok hout] at hrun
  have hend {m : Multiset (CdcRow F)} {b : List (CdcRow F)} {s₂ : State F V D} (hs₂ : P m b s₂)
      (hrun : SinkRules.finish producer c s₂ = (r, s')) : G m b s' ∧ (r = .ok () → P m b s') := by
    cases r with
    | error e => exact ⟨(hfinish m b).error hs₂ hrun, nofun⟩
    | ok u =>
      have hok := (hfinish m b).ok hs₂ hrun
      exact ⟨h.failed _ _ _ hok, fun _ ↦ hok⟩
  cases flushes with
  | false =>
    obtain ⟨hleft, hok⟩ := hend hs₁ hrun
    exact ⟨.inl hleft, fun hr ↦ .inl (hok hr)⟩
  | true =>
    rcases htake : Sink.takeBatch producer s₁ with ⟨e | rows, s₂⟩
    · have hflush : when (true = true) (Sink.flushBatch producer) s₁ = (.error e, s₂) := bind_error htake
      cases (bind_error hflush).symm.trans hrun
      exact ⟨.inl (h.failed _ _ _ (h.takeBatch.error hs₁ htake)), nofun⟩
    obtain ⟨hrows, hs₂⟩ := h.takeBatch.ok hs₁ htake
    rcases hdeliver : Sink.deliverRows producer rows s₂ with ⟨e | u, s₃⟩
    · have hflush : when (true = true) (Sink.flushBatch producer) s₁ = (.error e, s₃) := (bind_ok htake).trans hdeliver
      cases (bind_error hflush).symm.trans hrun
      exact ⟨.inr (.inr ⟨⟨s₁, rows, s₂, e, _, hout, htake, hdeliver⟩, (h.deliverRows rows).error hs₂ hdeliver, nofun⟩), nofun⟩
    · have hflush : when (true = true) (Sink.flushBatch producer) s₁ = (.ok u, s₃) := (bind_ok htake).trans hdeliver
      rw [bind_ok hflush] at hrun
      have hs₃ := (h.deliverRows rows).ok hs₂ hdeliver
      rw [hrows] at hs₃
      obtain ⟨hleft, hok⟩ := hend hs₃ hrun
      exact ⟨.inr (.inl hleft), fun hr ↦ .inr (hok hr)⟩

end Rule

end SeaTunnel.Kafka.SinkRules
