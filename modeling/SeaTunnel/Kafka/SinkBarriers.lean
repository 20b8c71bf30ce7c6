import SeaTunnel.Kafka.SinkRules

namespace SeaTunnel.Kafka.SinkBarriers

open Lib Lib.Runs Fallible Connectors.SinkClient Formats.CanalClient Kafka.Sink Kafka.SinkRules

variable {F V D : Type}

section Spec

def resolvedDelivery : SinkEvent F V → Option (InFlightDelivery V)
  | .swept delivery _ | .awaited delivery _ => some delivery
  | _ => none

def deliveredDelivery : SinkEvent F V → Option (InFlightDelivery V)
  | .swept delivery (.ok _) | .awaited delivery (.ok _) => some delivery
  | _ => none

def sweptFailure : SinkEvent F V → Bool
  | .swept _ (.error _) => true
  | _ => false

def awaitedFailure : SinkEvent F V → Bool
  | .awaited _ (.error _) => true
  | _ => false

def acceptedRow : SinkCall (CdcRow F) × Except String Unit → Option (CdcRow F)
  | (.write row, .ok _) => some row
  | _ => none

structure Sound (calls : List (SinkCall (CdcRow F) × Except String Unit)) (events : List (SinkEvent F V)) : Prop where
  encoded : (calls.filterMap acceptedRow).Subperm (events.filterMap encodedRow)
  delivered : (events.filterMap enqueuedDelivery).Perm (events.filterMap deliveredDelivery)

variable (producer : Producer F V D) [DecidableEq V]

def eventsOf (c : SinkCall (CdcRow F)) (s : State F V D) : List (SinkEvent F V) :=
  (call producer c s).2.history.drop s.history.length

/-- The call loses no batch, and of the deliveries that it finds reported or awaits
none has failed. -/
def Careful (s : State F V D) (c : SinkCall (CdcRow F)) : Prop :=
  (s.self.batch ≠ [] → ¬ LosesBatch producer s c) ∧
    (eventsOf producer c s).all fun e ↦ !sweptFailure e && !awaitedFailure e

end Spec

section Books

variable {producer : Producer F V D} {base : List (SinkEvent F V)} {m : Multiset (CdcRow F)} {b : List (CdcRow F)}
  {held ds : List (InFlightDelivery V)} {s : State F V D}

structure Books (base : List (SinkEvent F V)) (held : List (InFlightDelivery V)) (m : Multiset (CdcRow F))
    (b : List (CdcRow F)) (s : State F V D) : Prop where
  history : base <+: s.history
  batch : s.self.batch = b
  encoded : m ≤ observed encodedRow s.history
  enqueued : observed enqueuedDelivery s.history = ↑s.self.inFlight + ↑held + observed resolvedDelivery s.history

theorem Books.noted (hs : Books base held m b s) {e : SinkEvent F V} (henqueued : enqueuedDelivery e = none)
    (hresolved : resolvedDelivery e = none) : Books base held m b { s with history := s.history ++ [e] } := by
  refine ⟨hs.history.trans (List.prefix_append _ _), hs.batch, ?_, ?_⟩
  · rw [observed_append]
    exact hs.encoded.trans (Multiset.le_add_right _ _)
  · rw [observed_append, observed_append, observed_none henqueued, observed_none hresolved, add_zero, add_zero]
    exact hs.enqueued

theorem Books.closed : Closed producer (Books base held m b) where
  now _ hs := ⟨hs.history, hs.batch, hs.encoded, hs.enqueued⟩
  create _ _ hs := ⟨hs.history, hs.batch, hs.encoded, hs.enqueued⟩
  self _ _ hbatch hinFlight _ hs := ⟨hs.history, hbatch.trans hs.batch, hs.encoded, hinFlight ▸ hs.enqueued⟩
  enqueued s d hs := by
    refine ⟨hs.history.trans (List.prefix_append _ _), hs.batch, ?_, ?_⟩
    · rw [observed_append, observed_none (f := encodedRow) rfl, add_zero]
      exact hs.encoded
    · rw [observed_append, observed_append, observed_some (f := enqueuedDelivery) rfl,
        observed_none (f := resolvedDelivery) rfl, add_zero, hs.enqueued, ← Multiset.coe_add, Multiset.coe_singleton,
        add_right_comm, add_right_comm (s.self.inFlight : Multiset (InFlightDelivery V))]

theorem Books.ignoresTransactions : IgnoresTransactions (Books base held m b : State F V D → Prop) := by
  intro s db c r hs
  obtain ⟨hhistory, hbatch, hencoded, henqueued⟩ := hs.noted (e := .transaction c r) rfl rfl
  exact ⟨hhistory, hbatch, hencoded, henqueued⟩

theorem Books.row (row : CdcRow F) (hs : Books base held m b s) :
    Books base held (m + {row}) b { s with history := s.history ++ [.encoded row] } := by
  obtain ⟨hhistory, hbatch, -, henqueued⟩ := hs.noted (e := .encoded row) rfl rfl
  refine ⟨hhistory, hbatch, ?_, henqueued⟩
  rw [observed_append, observed_some (f := encodedRow) rfl]
  exact add_le_add_left hs.encoded _

theorem Books.met {d : InFlightDelivery V} (hs : Books base (d :: ds) m b s) {e : SinkEvent F V}
    (hencoded : encodedRow e = none) (henqueued : enqueuedDelivery e = none) (hresolved : resolvedDelivery e = some d) :
    Books base ds m b { s with history := s.history ++ [e] } := by
  refine ⟨hs.history.trans (List.prefix_append _ _), hs.batch, ?_, ?_⟩
  · rw [observed_append, observed_none hencoded, add_zero]
    exact hs.encoded
  · rw [observed_append, observed_append, observed_none henqueued, observed_some hresolved, add_zero, hs.enqueued,
      ← Multiset.cons_coe, ← Multiset.singleton_add]
    ac_rfl

theorem Books.handed (hs : Books base [] m b s) (n : ℕ) :
    Books base (s.self.inFlight.take n) m b { s with self := { s.self with inFlight := s.self.inFlight.drop n } } := by
  refine ⟨hs.history, hs.batch, hs.encoded, hs.enqueued.trans ?_⟩
  dsimp only
  rw [Multiset.coe_add, Multiset.coe_add, List.append_nil, Multiset.coe_eq_coe.mpr
    ((List.perm_append_comm).trans (.of_eq (List.take_append_drop n s.self.inFlight)))]

theorem triple_look {α : Type} {P : State F V D → Prop} {Q : α → State F V D → Prop} {E : State F V D → Prop}
    {f : D → α × D} (h : ∀ s, P s → Q (f s.db).1 { s with db := (f s.db).2 }) :
    Triple P (ask fun db ↦ (.ok (f db).1, (f db).2) : SinkM F V D α) Q E := fun s hs ↦ h s hs

theorem sweep_books (ds : List (InFlightDelivery V)) :
    Triple (Books base ds m b) (sweep producer ds) (fun _ ↦ Books base [] m b) (Books base [] m b) := by
  induction ds with
  | nil => exact .pure fun _ hs ↦ hs
  | cons d ds ih =>
    have hpoll : Triple (Books base (d :: ds) m b)
        (ask fun db ↦ (.ok (producer.poll d db).1, (producer.poll d db).2) : SinkM F V D (Option (Except String Unit)))
        (fun _ ↦ Books base (d :: ds) m b) (Books base [] m b) :=
      triple_look fun _ hs ↦ ⟨hs.history, hs.batch, hs.encoded, hs.enqueued⟩
    refine .bind hpoll fun outcome ↦ ?_
    cases outcome with
    | some result =>
      have hmet : Triple (Books base (d :: ds) m b) (record (.swept d result) : SinkM F V D Unit)
          (fun _ ↦ Books base ds m b) (Books base [] m b) := .modify fun s hs ↦ hs.met rfl rfl rfl
      exact .bind hmet fun _ ↦ ih
    | none =>
      have hkept : Triple (Books base (d :: ds) m b)
          (setSelf fun w ↦ { w with inFlight := w.inFlight ++ [d] } : SinkM F V D Unit)
          (fun _ ↦ Books base ds m b) (Books base [] m b) := .modify fun s hs ↦ by
        refine ⟨hs.history, hs.batch, hs.encoded, hs.enqueued.trans ?_⟩
        rw [← Multiset.cons_coe, ← Multiset.singleton_add, ← Multiset.coe_add, Multiset.coe_singleton]
        ac_rfl
      exact .bind hkept fun _ ↦ ih

theorem reap_books (ds : List (InFlightDelivery V)) :
    Triple (Books base ds m b) (reap producer ds) (fun _ ↦ Books base [] m b) (Books base [] m b) := by
  induction ds with
  | nil => exact .pure fun _ hs ↦ hs
  | cons d ds ih =>
    have hawait : Triple (Books base (d :: ds) m b)
        (ask fun db ↦ (.ok (producer.await d db).1, (producer.await d db).2) : SinkM F V D (Except String Unit))
        (fun _ ↦ Books base (d :: ds) m b) (Books base [] m b) :=
      triple_look fun _ hs ↦ ⟨hs.history, hs.batch, hs.encoded, hs.enqueued⟩
    refine .bind hawait fun result ↦ ?_
    have hmet : Triple (Books base (d :: ds) m b) (record (.awaited d result) : SinkM F V D Unit)
        (fun _ ↦ Books base ds m b) (Books base [] m b) := .modify fun s hs ↦ hs.met rfl rfl rfl
    exact .bind hmet fun _ ↦ .bind ih fun _ ↦ .pure fun _ hs ↦ hs

theorem reapFront_books (n : ℕ) : Keeps (Books base [] m b) (reapFront producer n) := by
  intro s hs
  have hreap : Triple (Books base (s.self.inFlight.take n) m b) (reap producer (s.self.inFlight.take n) >>= fun failed ↦
      when (0 < failed) (fail ("failed to deliver " ++ toString failed ++ " record(s)")))
      (fun _ ↦ Books base [] m b) (Books base [] m b) :=
    .bind (reap_books _) fun _ ↦ Keeps.when fun _ ↦ .fail _
  exact hreap _ (hs.handed n)

theorem books_rules (base : List (SinkEvent F V)) :
    Rules producer (Books base [] : Multiset (CdcRow F) → List (CdcRow F) → State F V D → Prop) (Books base []) where
  closed _ _ := Books.closed
  batch _ _ _ hs := hs.batch
  taken _ _ _ _ hs := ⟨hs.history, rfl, hs.encoded, hs.enqueued⟩
  row _ _ row _ hs := hs.row row
  failed _ _ _ hs := hs
  lessFailed _ _ _ _ hle hs := ⟨hs.history, hs.batch, hle.trans hs.encoded, hs.enqueued⟩
  sweep m b := by
    intro s hs
    have hhanded := hs.handed s.self.inFlight.length
    rw [List.take_length, List.drop_length] at hhanded
    exact sweep_books s.self.inFlight _ hhanded
  reap m b n := reapFront_books n

end Books

section Quiet

variable {producer : Producer F V D} {base : List (SinkEvent F V)} {b : List (CdcRow F)}

def Quiet (base : List (SinkEvent F V)) (b : List (CdcRow F)) (s : State F V D) : Prop :=
  s.self.batch = b ∧ ∃ events, s.history = base ++ events ∧ events.all fun e ↦ !awaitedFailure e

theorem Quiet.noted {s : State F V D} (hs : Quiet base b s) {e : SinkEvent F V} (he : awaitedFailure e = false) :
    Quiet base b { s with history := s.history ++ [e] } := by
  obtain ⟨hbatch, events, hhistory, hall⟩ := hs
  refine ⟨hbatch, events ++ [e], ?_, ?_⟩
  · rw [← List.append_assoc, ← hhistory]
  · rw [List.all_append, hall, List.all_cons, he]
    rfl

theorem Quiet.closed : Closed producer (Quiet base b) where
  now _ hs := hs
  create _ _ hs := hs
  self _ _ hbatch _ _ hs := ⟨hbatch.trans hs.1, hs.2⟩
  enqueued _ _ hs := hs.noted rfl

theorem Quiet.ignoresTransactions : IgnoresTransactions (Quiet base b : State F V D → Prop) :=
  fun _ _ _ _ hs ↦ hs.noted rfl

theorem sweep_quiet (ds : List (InFlightDelivery V)) : Keeps (Quiet base b) (sweep producer ds) := by
  induction ds with
  | nil => exact .pure ()
  | cons d ds ih =>
    refine .bind (keeps_ask fun _ _ hs ↦ hs) fun outcome ↦ ?_
    cases outcome with
    | some result => exact .bind (.modify fun s hs ↦ hs.noted rfl) fun _ ↦ ih
    | none => exact .bind (.modify fun s hs ↦ hs) fun _ ↦ ih

theorem reap_quiet (ds : List (InFlightDelivery V)) :
    Triple (Quiet base b) (reap producer ds) (fun failed s ↦ failed = 0 → Quiet base b s) fun _ ↦ True := by
  induction ds with
  | nil => exact .pure fun s hs _ ↦ hs
  | cons d ds ih =>
    have hawait : Triple (Quiet base b)
        (ask fun db ↦ (.ok (producer.await d db).1, (producer.await d db).2) : SinkM F V D (Except String Unit))
        (fun _ ↦ Quiet base b) (fun _ ↦ True) := triple_look fun _ hs ↦ hs
    refine .bind hawait fun result ↦ ?_
    cases result with
    | ok u =>
      have hmet : Triple (Quiet base b) (record (.awaited d (.ok u)) : SinkM F V D Unit) (fun _ ↦ Quiet base b)
          (fun _ ↦ True) := .modify fun s hs ↦ hs.noted rfl
      exact .bind hmet fun _ ↦ .bind ih fun failed ↦ .pure fun s hs ↦ hs
    | error e =>
      have hcounted : Triple (fun _ ↦ True) (reap producer ds >>= fun failed ↦ Pure.pure (failed + 1))
          (fun failed s ↦ failed = 0 → Quiet base b s) (fun _ ↦ True) := by
        refine .bind .trivial fun failed ↦ .pure fun s _ hzero ↦ ?_
        exact absurd hzero (Nat.succ_ne_zero failed)
      exact .bind .trivial fun _ ↦ hcounted

theorem quiet_rules (base : List (SinkEvent F V)) :
    Rules producer (fun _ ↦ Quiet base : Multiset (CdcRow F) → List (CdcRow F) → State F V D → Prop)
      (fun _ _ _ ↦ True) where
  closed _ _ := Quiet.closed
  batch _ _ _ hs := hs.1
  taken _ _ _ _ hs := ⟨rfl, hs.2⟩
  row _ _ _ _ hs := hs.noted rfl
  failed _ _ _ _ := trivial
  lessFailed _ _ _ _ _ hs := hs
  sweep m b := by
    intro s hs
    have hcleared : Quiet base b { s with self := { s.self with inFlight := [] } } := hs
    exact sweep_quiet s.self.inFlight _ hcleared
  reap m b n := by
    intro s hs
    have hhanded : Quiet base b { s with self := { s.self with inFlight := s.self.inFlight.drop n } } := hs
    have hreap : Triple (Quiet base b) (reap producer (s.self.inFlight.take n) >>= fun failed ↦
        when (0 < failed) (fail ("failed to deliver " ++ toString failed ++ " record(s)")))
        (fun _ ↦ Quiet base b) (fun _ ↦ True) := by
      refine .bind (reap_quiet _) fun failed ↦ .when (fun _ ↦ .fail fun _ _ ↦ trivial) fun hnone s hs ↦ ?_
      exact hs (by omega)
    exact hreap _ hhanded

end Quiet

section Calls

variable {producer : Producer F V D} [DecidableEq V]

theorem call_quiet {c : SinkCall (CdcRow F)} (hc : c ≠ .closeWriter) {s : State F V D}
    (hok : (call producer c s).1 = .ok ()) : (eventsOf producer c s).all fun e ↦ !awaitedFailure e := by
  have hstart : Quiet s.history s.self.batch s := ⟨rfl, [], (List.append_nil _).symm, rfl⟩
  have hrules : Rules producer _ _ := quiet_rules s.history
  have hquiet := (hrules.call (m := 0) (fun m b ↦ hrules.finish (m := m) hc Quiet.ignoresTransactions)
    (fun _ ↦ Quiet.ignoresTransactions) hstart rfl).2 hok
  have hend : ∃ events, (call producer c s).2.history = s.history ++ events ∧ events.all fun e ↦ !awaitedFailure e :=
    hquiet.elim And.right And.right
  obtain ⟨events, hhistory, hall⟩ := hend
  rwa [eventsOf, hhistory, List.drop_left]

omit [DecidableEq V] in
theorem finish_books {base : List (SinkEvent F V)} (c : SinkCall (CdcRow F)) (m : Multiset (CdcRow F))
    (b : List (CdcRow F)) : Keeps (Books base [] m b) (finish producer c) := by
  have hrules : Rules producer _ _ := books_rules base
  have hclosed := hrules.closed m b
  cases c with
  | closeWriter =>
    exact .get fun s ↦ .bind (.when fun _ ↦ hclosed.flushHeld s.self.canalEncoder) fun _ ↦
      .bind (keeps_swallow hrules.drain) fun _ ↦ .get fun _ ↦ .when fun _ ↦
        keeps_swallow (hclosed.closeTransaction Books.ignoresTransactions)
  | _ => exact hrules.finish nofun Books.ignoresTransactions

theorem call_books {base : List (SinkEvent F V)} {m : Multiset (CdcRow F)} {b : List (CdcRow F)} {s : State F V D}
    (hs : Books base [] m b s) (c : SinkCall (CdcRow F)) :
    s.history <+: (call producer c s).2.history ∧
      (Books base [] m (b ++ broughtRow c) (call producer c s).2 ∨
        Books base [] (m + (b ++ broughtRow c : List (CdcRow F))) [] (call producer c s).2 ∨
        LosesBatch producer s c ∧ Books base [] m [] (call producer c s).2 ∧ (call producer c s).1 ≠ .ok ()) := by
  have hrules (base : List (SinkEvent F V)) : Rules producer (Books base []) (Books base []) := books_rules base
  have hself : Books s.history [] m b s := ⟨List.prefix_rfl, hs.batch, hs.encoded, hs.enqueued⟩
  refine ⟨?_, ((hrules base).call (finish_books c) (fun _ ↦ Books.ignoresTransactions) hs rfl).1⟩
  rcases ((hrules s.history).call (finish_books c) (fun _ ↦ Books.ignoresTransactions) hself rfl).1 with h | h | ⟨-, h, -⟩
  · exact h.history
  · exact h.history
  · exact h.history

omit [DecidableEq V] in
theorem reap_inFlight (ds : List (InFlightDelivery V)) :
    Keeps (fun s : State F V D ↦ s.self.inFlight = []) (reap producer ds) := by
  induction ds with
  | nil => exact .pure 0
  | cons d ds ih =>
    exact .bind (keeps_ask fun _ _ hs ↦ hs) fun _ ↦ .bind (.modify fun _ hs ↦ hs) fun _ ↦ .bind ih fun _ ↦ .pure _

omit [DecidableEq V] in
theorem drain_inFlight {s s' : State F V D} (hrun : drain producer s = (.ok (), s')) : s'.self.inFlight = [] := by
  have hreap : Keeps (fun s : State F V D ↦ s.self.inFlight = [])
      (reap producer (s.self.inFlight.take s.self.inFlight.length) >>= fun failed ↦
        when (0 < failed) (fail ("failed to deliver " ++ toString failed ++ " record(s)"))) :=
    .bind (reap_inFlight _) fun _ ↦ .when fun _ ↦ .fail _
  exact hreap.ok (List.drop_length (l := s.self.inFlight)) hrun

omit [DecidableEq V] in
theorem commitWindow_inFlight (n : ℕ) : Keeps (fun s : State F V D ↦ s.self.inFlight = []) (commitWindow producer n) := by
  have hsend (f : D → Except String Unit × D) (c : TransactionCall) :
      Keeps (fun s : State F V D ↦ s.self.inFlight = []) (send f (.transaction c)) := keeps_send fun _ _ _ hs ↦ hs
  exact .bind (keeps_orElse (hsend _ _) (hsend _ _)) fun _ ↦ .bind (.modify fun _ hs ↦ hs) fun _ ↦
    .bind (hsend _ _) fun _ ↦ .modify fun _ hs ↦ hs

theorem prepareCommit_books {base : List (SinkEvent F V)} {m : Multiset (CdcRow F)} {b : List (CdcRow F)}
    {s s' : State F V D} (hs : Books base [] m b s) {n : ℕ} (hrun : call producer (.prepareCommit n) s = (.ok (), s')) :
    Books base [] (m + b) [] s' ∧ s'.self.inFlight = [] := by
  have hrules : Rules producer _ _ := books_rules base
  change (flushBatch producer >>= fun _ ↦ drain producer >>= fun _ ↦ get >>= fun s ↦
    when s.self.txnBase.isSome (commitWindow producer n)) s = _ at hrun
  rcases hout : flushBatch producer s with ⟨e | u, s₁⟩
  · cases (bind_error hout).symm.trans hrun
  have hs₁ := hrules.flushBatch.ok hs hout
  rw [bind_ok hout] at hrun
  rcases hdrain : drain producer s₁ with ⟨e | u, s₂⟩
  · cases (bind_error hdrain).symm.trans hrun
  rw [bind_ok hdrain, get_bind] at hrun
  have hempty := drain_inFlight hdrain
  constructor
  · exact (Keeps.when (c := s₂.self.txnBase.isSome = true) fun _ ↦ (hrules.closed _ _).commitWindow
      Books.ignoresTransactions n).ok
      (hrules.drain.ok hs₁ hdrain) hrun
  · exact (Keeps.when (c := s₂.self.txnBase.isSome = true) fun _ ↦ commitWindow_inFlight n).ok hempty hrun

end Calls

section Runs

variable {producer : Producer F V D} [DecidableEq V]

abbrev sink (producer : Producer F V D) :
    Machine (State F V D) (SinkCall (CdcRow F)) (SinkCall (CdcRow F) × Except String Unit) := machine (call producer)

theorem run_books (start : KafkaSinkWriter F V) (db : D) (hbatch : start.batch = []) (hinFlight : start.inFlight = [])
    (calls : List (SinkCall (CdcRow F))) :
    ∃ m b, Books [] [] m b ((sink producer).run { self := start, db } calls) := by
  have hstep : ∀ (_ : List (SinkCall (CdcRow F) × Except String Unit)) s c, (∃ m b, Books [] [] m b s) →
      ∃ m b, Books [] [] m b ((sink producer).next s c) := by
    rintro _ s c ⟨m, b, hs⟩
    rcases (call_books hs c).2 with h | h | ⟨-, h, -⟩
    · exact ⟨_, _, h⟩
    · exact ⟨_, _, h⟩
    · exact ⟨_, _, h⟩
  have hstart : ∃ m b, Books [] [] m b ({ self := start, db } : State F V D) :=
    ⟨0, [], List.nil_prefix, hbatch, Multiset.zero_le _, by rw [hinFlight]; rfl⟩
  exact Machine.invariant_all hstep (h := []) hstart calls

def Kept (base : List (SinkEvent F V)) (calls : List (SinkCall (CdcRow F) × Except String Unit)) (s : State F V D) :
    Prop :=
  (∃ m b, Books base [] m b s ∧ observed encodedRow base + (calls.filterMap acceptedRow : List (CdcRow F)) ≤ m + b) ∧
    (s.history.drop base.length).all fun e ↦ !sweptFailure e && !awaitedFailure e

theorem acceptedRow_brought (c : SinkCall (CdcRow F)) (r : Except String Unit) :
    List.Sublist ([(c, r)].filterMap acceptedRow) (broughtRow c) := by
  cases c with
  | write row =>
    cases r with
    | ok u => exact List.Sublist.refl _
    | error e => exact List.nil_sublist _
  | _ => exact List.Sublist.refl _

theorem Kept.next {base : List (SinkEvent F V)} {calls : List (SinkCall (CdcRow F) × Except String Unit)}
    {s : State F V D} (hs : Kept base calls s) {c : SinkCall (CdcRow F)} (hc : Careful producer s c) :
    Kept base (calls ++ (sink producer).emit s c) ((sink producer).next s c) := by
  obtain ⟨⟨m, b, hbooks, hrows⟩, hall⟩ := hs
  obtain ⟨hgrown, hcall⟩ := call_books hbooks c
  have haccepted := acceptedRow_brought c (call producer c s).1
  refine ⟨?_, ?_⟩
  · change ∃ m b, Books base [] m b (call producer c s).2 ∧
      observed encodedRow base + ((calls ++ [(c, (call producer c s).1)]).filterMap acceptedRow : List (CdcRow F)) ≤ m + b
    have hbrought : observed encodedRow base +
        ((calls ++ [(c, (call producer c s).1)]).filterMap acceptedRow : List (CdcRow F)) ≤
          m + (b ++ broughtRow c : List (CdcRow F)) := by
      rw [List.filterMap_append, ← Multiset.coe_add, ← Multiset.coe_add, ← add_assoc, ← add_assoc]
      exact add_le_add hrows (Multiset.coe_le.mpr haccepted.subperm)
    rcases hcall with h | h | ⟨hloses, h, hfailed⟩
    · exact ⟨m, _, h, hbrought⟩
    · exact ⟨_, [], h, hbrought.trans (Multiset.le_add_right _ _)⟩
    · have hempty : b = [] := by
        by_contra hne
        exact hc.1 (hbooks.batch ▸ hne) hloses
      have hnone : [(c, (call producer c s).1)].filterMap acceptedRow = [] := by
        cases c with
        | write row =>
          cases hr : (call producer (.write row) s).1 with
          | ok u => exact absurd hr hfailed
          | error e => rfl
        | _ => rfl
      refine ⟨m, [], h, ?_⟩
      rw [List.filterMap_append, hnone, List.append_nil, ← hempty]
      exact hrows
  · obtain ⟨events, hevents⟩ := hgrown
    obtain ⟨since, hsince⟩ := hbooks.history
    have hnew : eventsOf producer c s = events := by rw [eventsOf, ← hevents, List.drop_left]
    rw [← hsince, List.drop_left] at hall
    change ((call producer c s).2.history.drop base.length).all _ = true
    rw [← hevents, ← hsince, List.append_assoc, List.drop_left, List.all_append, hall, ← hnew]
    exact hc.2

omit [DecidableEq V] in
theorem delivered_of_met {events : List (SinkEvent F V)}
    (hall : events.all fun e ↦ !sweptFailure e && !awaitedFailure e) :
    events.filterMap resolvedDelivery = events.filterMap deliveredDelivery := by
  refine List.filterMap_congr fun e he ↦ ?_
  have hgood := List.all_eq_true.mp hall e he
  cases e with
  | swept d r =>
    cases r with
    | ok u => rfl
    | error e => cases hgood
  | awaited d r =>
    cases r with
    | ok u => rfl
    | error e => cases hgood
  | _ => rfl

omit [DecidableEq V] in
theorem sound_of_books {base events : List (SinkEvent F V)} {m : Multiset (CdcRow F)} {s : State F V D}
    {calls : List (SinkCall (CdcRow F) × Except String Unit)} (hs : Books base [] m [] s) (hinFlight : s.self.inFlight = [])
    (hbase : observed enqueuedDelivery base = observed resolvedDelivery base) (hhistory : base ++ events = s.history)
    (hrows : observed encodedRow base + (calls.filterMap acceptedRow : List (CdcRow F)) ≤ m)
    (hall : events.all fun e ↦ !sweptFailure e && !awaitedFailure e) : Sound calls events := by
  constructor
  · have hle := hrows.trans hs.encoded
    rw [← hhistory, observed_append] at hle
    exact Multiset.coe_le.mp (le_of_add_le_add_left hle)
  · have hmet := hs.enqueued
    rw [hinFlight, ← hhistory, observed_append, observed_append, hbase, Multiset.coe_nil, zero_add, zero_add] at hmet
    have hperm := Multiset.coe_eq_coe.mp (add_left_cancel hmet)
    rwa [delivered_of_met hall] at hperm

/-- After a barrier, or from a new writer: when the calls up to the next barrier that
passes are careful, the barrier is sound. A call that returns without an error has
awaited no delivery that failed. -/
theorem barrier_sound (start : KafkaSinkWriter F V) (db : D) (hbatch : start.batch = []) (hinFlight : start.inFlight = [])
    (before calls : List (SinkCall (CdcRow F))) (n : ℕ)
    (hbarrier : before = [] ∨ ∃ before' n', before = before' ++ [.prepareCommit n'] ∧
      (call producer (.prepareCommit n') ((sink producer).run { self := start, db } before')).1 = .ok ())
    (hcareful : (sink producer).Along (fun _ s c ↦ Careful producer s c) []
      ((sink producer).run { self := start, db } before) (calls ++ [.prepareCommit n]))
    (hok : (call producer (.prepareCommit n) ((sink producer).run { self := start, db } (before ++ calls))).1 = .ok ()) :
    Sound ((sink producer).trace ((sink producer).run { self := start, db } before) calls)
        (((sink producer).run { self := start, db } (before ++ calls ++ [.prepareCommit n])).history.drop
          ((sink producer).run { self := start, db } before).history.length) ∧
      ∀ s c, c ≠ .closeWriter → (call producer c s).1 = .ok () →
        (eventsOf producer c s).all fun e ↦ !awaitedFailure e := by
  refine ⟨?_, fun s c hc hok ↦ call_quiet hc hok⟩
  have hrun (is : List (SinkCall (CdcRow F))) : ∃ m b, Books [] [] m b ((sink producer).run { self := start, db } is) :=
    run_books start db hbatch hinFlight is
  have hclear : ∃ m, Books [] [] m [] ((sink producer).run { self := start, db } before) ∧
      ((sink producer).run { self := start, db } before).self.inFlight = [] := by
    rcases hbarrier with rfl | ⟨before', n', rfl, hok'⟩
    · obtain ⟨m, b, hbooks⟩ := hrun []
      obtain rfl : b = [] := hbooks.batch.symm.trans hbatch
      exact ⟨m, hbooks, hinFlight⟩
    · obtain ⟨m, b, hbooks⟩ := hrun before'
      rw [Machine.run_append]
      exact ⟨_, prepareCommit_books hbooks (Prod.ext hok' rfl)⟩
  obtain ⟨m₀, hbooks, hempty⟩ := hclear
  rw [Machine.run_append] at hok
  rw [Machine.run_append, Machine.run_append]
  generalize (sink producer).run { self := start, db } before = s₀ at *
  have hbase : observed enqueuedDelivery s₀.history = observed resolvedDelivery s₀.history := by
    have henqueued := hbooks.enqueued
    rwa [hempty, Multiset.coe_nil, zero_add, zero_add] at henqueued
  -- the calls up to the barrier
  have hstart : Kept s₀.history [] s₀ := by
    refine ⟨⟨_, [], ⟨List.prefix_rfl, hbooks.batch, le_rfl, hbooks.enqueued⟩, ?_⟩, ?_⟩
    · exact le_rfl
    · rw [List.drop_length]
      rfl
  obtain ⟨hcalls, hlast⟩ := Machine.along_append.mp hcareful
  have hstep (h : List (SinkCall (CdcRow F) × Except String Unit)) (s : State F V D) (c : SinkCall (CdcRow F))
      (hs : Kept s₀.history h s) (hc : Careful producer s c) :
      Kept s₀.history (h ++ (sink producer).emit s c) ((sink producer).next s c) := hs.next hc
  have hkept := Machine.invariant hstep hstart hcalls
  -- the barrier itself
  have hall := (Kept.next hkept hlast.1).2
  obtain ⟨⟨m, b, hbooks₁, hrows⟩, -⟩ := hkept
  obtain ⟨hbooks₂, hempty₂⟩ := prepareCommit_books hbooks₁ (Prod.ext hok rfl)
  obtain ⟨events, hevents⟩ := hbooks₂.history
  have hevents' : events = (call producer (.prepareCommit n) ((sink producer).run s₀ calls)).2.history.drop
      s₀.history.length := by rw [← hevents, List.drop_left]
  exact hevents' ▸ sound_of_books hbooks₂ hempty₂ hbase hevents hrows (hevents' ▸ hall)

end Runs

section Counterexample

def plainConversions : Conversions ℕ ℕ where
  convertField := id
  fieldToKey := toString
  toUppercase c := [c]
  toLowercase := id

def reporting (polled : Except String Unit) : Producer ℕ ℕ Unit where
  conversions := plainConversions
  text n := some (toString n)
  json fields := toString fields
  now _ := (0, ())
  create _ _ := (.ok (), ())
  poll _ _ := (some polled, ())
  await _ _ := (.ok (), ())
  beginTransaction _ := (.ok (), ())
  commitTransaction _ := (.ok (), ())
  abortTransaction _ := (.ok (), ())

def writer (batchSize : ℕ) (defaultTopic : String) : KafkaSinkWriter ℕ ℕ where
  config := { batchSize, batchTimeoutMs := 1000, asText := true, fieldDelimiter := ",", partitionKeyFields := [] }
  topicRouter := { defaultTopic }

def row (n : ℕ) : CdcRow ℕ := ⟨⟨.insert, [n]⟩, none⟩

theorem barrier_sound_delivered :
    Sound ((sink (reporting (.ok ()))).trace { self := writer 1 "t", db := () } [.write (row 1)])
        (((sink (reporting (.ok ()))).run { self := writer 1 "t", db := () } [.write (row 1), .prepareCommit 1]).history.drop 0) ∧
      ∀ s c, c ≠ .closeWriter → (call (reporting (.ok ())) c s).1 = .ok () →
        (eventsOf (reporting (.ok ())) c s).all fun e ↦ !awaitedFailure e := by
  refine barrier_sound (writer 1 "t") () rfl rfl [] [.write (row 1)] 1 (.inl rfl) ?_ rfl
  refine ⟨⟨fun hbatch ↦ absurd rfl hbatch, rfl⟩, ⟨fun hbatch ↦ absurd rfl hbatch, rfl⟩, trivial⟩

/-- Every call returns without an error, and the barrier passes over a delivery that the
sweep found to have failed. A flush that fails has lost the rows before it, and the
barrier after it passes over them. -/
theorem barrier_passes_over_failures :
    ((sink (reporting (.error "timed out"))).trace { self := writer 1 "t", db := () } [.write (row 1), .prepareCommit 1] =
        [(.write (row 1), .ok ()), (.prepareCommit 1, .ok ())] ∧
      ¬ Sound ((sink (reporting (.error "timed out"))).trace { self := writer 1 "t", db := () } [.write (row 1)])
        ((sink (reporting (.error "timed out"))).run { self := writer 1 "t", db := () }
          [.write (row 1), .prepareCommit 1]).history) ∧
    (call (reporting (.ok ())) (.prepareCommit 1) ((sink (reporting (.ok ()))).run
        { self := writer 2 "$\x7btable\x7d", db := () } [.write (row 1), .write (row 2)])).1 = .ok () ∧
      ¬ Sound ((sink (reporting (.ok ()))).trace { self := writer 2 "$\x7btable\x7d", db := () }
          [.write (row 1), .write (row 2)])
        ((sink (reporting (.ok ()))).run { self := writer 2 "$\x7btable\x7d", db := () }
          [.write (row 1), .write (row 2), .prepareCommit 1]).history := by
  refine ⟨⟨rfl, fun h ↦ ?_⟩, rfl, fun h ↦ ?_⟩
  · exact absurd h.delivered.length_eq (by decide +kernel)
  · exact absurd h.encoded.length_le (by decide +kernel)

end Counterexample

end SeaTunnel.Kafka.SinkBarriers
