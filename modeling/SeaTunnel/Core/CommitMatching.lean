import Mathlib.Data.List.Nodup
import SeaTunnel.Core.TaskSteps

namespace SeaTunnel.Core.CommitMatching

open Signaling TaskLoop TaskSteps Lib.Runs

variable {R Δ Ψ ρ τ σ γ : Type}

structure Ledger where
  triggered : List ℕ := []
  sent : List ℕ := []
  prepared : List (ℕ × List Bytes) := []
  reported : List (ℕ × List Bytes) := []
  resolved : List ℕ := []

def Ledger.note (l : Ledger) : Call R → Ledger
  | .driver (.trigger n) => { l with triggered := n :: l.triggered }
  | .driver (.sendEvent e) => { l with sent := e.checkpointId :: l.sent }
  | .prepareCommit n (.ok infos) => { l with prepared := (n, infos) :: l.prepared }
  | .report (.checkpoint r) => { l with reported := (r.checkpointId, r.commitInfos) :: l.reported }
  | .resolution e => { l with resolved := e.checkpointId :: l.resolved }
  | _ => l

def ledger (h : List (Call R)) : Ledger := h.foldl Ledger.note {}

@[simp] theorem ledger_append (h calls : List (Call R)) :
    ledger (h ++ calls) = calls.foldl Ledger.note (ledger h) := List.foldl_append

theorem mem_foldl_prepared {h : List (Call R)} {l : Ledger} {n : ℕ} {infos : List Bytes} :
    (n, infos) ∈ (h.foldl Ledger.note l).prepared ↔
      (n, infos) ∈ l.prepared ∨ .prepareCommit n (.ok infos) ∈ h := by
  induction h generalizing l with
  | nil => simp
  | cons c h ih =>
    rw [List.foldl_cons, ih, List.mem_cons, ← or_assoc]
    refine or_congr_left ?_
    unfold Ledger.note
    split <;> grind

theorem mem_foldl_reported {h : List (Call R)} {l : Ledger} {p : ℕ × List Bytes} :
    p ∈ (h.foldl Ledger.note l).reported ↔
      p ∈ l.reported ∨ ∃ r, .report (.checkpoint r) ∈ h ∧ (r.checkpointId, r.commitInfos) = p := by
  induction h generalizing l with
  | nil => simp
  | cons c h ih =>
    simp only [List.foldl_cons, ih, List.mem_cons, or_and_right, exists_or, ← or_assoc]
    refine or_congr_left ?_
    unfold Ledger.note
    split <;> grind

theorem mem_prepared {h : List (Call R)} {n : ℕ} {infos : List Bytes} :
    (n, infos) ∈ (ledger h).prepared ↔ .prepareCommit n (.ok infos) ∈ h := by
  simp [ledger, mem_foldl_prepared]

theorem mem_reported {h : List (Call R)} {r : TaskCheckpointReport}
    (hr : .report (.checkpoint r) ∈ h) :
    (r.checkpointId, r.commitInfos) ∈ (ledger h).reported :=
  mem_foldl_reported.mpr (.inr ⟨r, hr, rfl⟩)

/-- The promises of the driver: ids grow, and a barrier is resolved once, after
its `prepare_commit`. -/
def WellTimed (h : List (Call R)) (_ : TaskGroup Ψ ρ τ σ γ) : Input → Prop
  | .driver (.trigger n) => ∀ m ∈ (ledger h).triggered, m < n
  | .driver (.sendEvent e) =>
    e.checkpointId ∈ (ledger h).prepared.map Prod.fst ∧ e.checkpointId ∉ (ledger h).sent
  | _ => True

instance (h : List (Call R)) (g : TaskGroup Ψ ρ τ σ γ) : ∀ i, Decidable (WellTimed h g i)
  | .driver (.trigger n) => inferInstanceAs (Decidable (∀ m ∈ (ledger h).triggered, m < n))
  | .driver (.sendEvent _) => inferInstanceAs (Decidable (_ ∧ _))
  | .driver .close | .task _ | .cancel => isTrue trivial

def takesEvent (g : TaskGroup Ψ ρ τ σ γ) : Input → Option CheckpointEvent
  | .task _ =>
    match g.pc with
    | .events => g.context.handle.bind fun gate ↦ gate.pendingEvents.head?
    | _ => none
  | _ => none

/-- A resolution is taken only when every other reported barrier has been
resolved. -/
def NoOvertaking (h : List (Call R)) (g : TaskGroup Ψ ρ τ σ γ) (i : Input) : Prop :=
  ∀ e ∈ takesEvent g i, ∀ p ∈ (ledger h).reported,
    p.1 ≠ e.checkpointId → p.1 ∈ (ledger h).resolved

instance (h : List (Call R)) (g : TaskGroup Ψ ρ τ σ γ) (i : Input) :
    Decidable (NoOvertaking h g i) :=
  inferInstanceAs (Decidable (∀ e ∈ takesEvent g i, ∀ p ∈ (ledger h).reported,
    p.1 ≠ e.checkpointId → p.1 ∈ (ledger h).resolved))

structure Live (l : Ledger) (slot : List Bytes) (gate : Gate) : Prop where
  pending : ∀ n ∈ gate.pendingTrigger, n ∈ l.triggered ∧ ∀ p ∈ l.prepared, p.1 < n
  triggered : ∀ p ∈ l.prepared, p.1 ∈ l.triggered
  unique : ∀ p ∈ l.prepared, ∀ q ∈ l.prepared, p.1 = q.1 → p = q
  sent : ∀ n ∈ l.sent, n ∈ l.prepared.map Prod.fst
  queued : ∀ e ∈ gate.pendingEvents, e.checkpointId ∈ l.sent
  fresh : ∀ e ∈ gate.pendingEvents, e.checkpointId ∉ l.resolved
  distinct : (gate.pendingEvents.map CheckpointEvent.checkpointId).Nodup
  resolved : ∀ n ∈ l.resolved, n ∈ l.sent
  reported : ∀ p ∈ l.reported, p ∈ l.prepared
  slot : (slot = [] ∧ ∀ p ∈ l.reported, p.1 ∈ l.resolved) ∨
    ∃ p ∈ l.reported, p.1 ∉ l.resolved ∧ slot = p.2

namespace Live

variable {l : Ledger} {slot infos : List Bytes} {gate : Gate} {n : ℕ} {e : CheckpointEvent}

theorem trigger (hl : Live l slot gate) (hn : ∀ m ∈ l.triggered, m < n) :
    Live { l with triggered := n :: l.triggered } slot ((GateAction.trigger n).apply gate) := by
  refine { hl with pending := ?_, triggered := ?_ }
  · intro m hm
    obtain rfl : n = m := by simpa [GateAction.apply] using hm
    exact ⟨List.mem_cons_self, fun p hp ↦ hn p.1 (hl.triggered p hp)⟩
  · intro p hp
    exact List.mem_cons_of_mem _ (hl.triggered p hp)

theorem sendEvent (hl : Live l slot gate) (hp : e.checkpointId ∈ l.prepared.map Prod.fst)
    (hs : e.checkpointId ∉ l.sent) :
    Live { l with sent := e.checkpointId :: l.sent } slot ((GateAction.sendEvent e).apply gate) := by
  refine { hl with sent := ?_, queued := ?_, fresh := ?_, distinct := ?_, resolved := ?_ }
  · intro n hn
    rcases List.mem_cons.mp hn with rfl | hn
    · exact hp
    · exact hl.sent n hn
  · intro d hd
    rcases List.mem_append.mp hd with hd | hd
    · exact List.mem_cons_of_mem _ (hl.queued d hd)
    · rw [List.mem_singleton.mp hd]
      exact List.mem_cons_self
  · intro d hd
    rcases List.mem_append.mp hd with hd | hd
    · exact hl.fresh d hd
    · rw [List.mem_singleton.mp hd]
      exact fun hr ↦ hs (hl.resolved _ hr)
  · simp only [GateAction.apply, List.map_append, List.map_cons, List.map_nil]
    refine hl.distinct.append (List.nodup_singleton _) ?_
    intro m hm hm'
    obtain ⟨d, hd, rfl⟩ := List.mem_map.mp hm
    rw [List.mem_singleton] at hm'
    exact hs (hm' ▸ hl.queued d hd)
  · intro n hn
    exact List.mem_cons_of_mem _ (hl.resolved n hn)

theorem taken (hl : Live l slot gate) : Live l slot gate.takeTrigger.2 :=
  { hl with pending := by simp [Gate.takeTrigger] }

theorem torn (hl : Live l slot gate) (hn : gate.pendingTrigger = some n) :
    Live { l with prepared := (n, infos) :: l.prepared } slot gate.takeTrigger.2 := by
  obtain ⟨htrig, hnew⟩ := hl.pending n hn
  refine { hl.taken with pending := ?_, triggered := ?_, unique := ?_, sent := ?_, reported := ?_ }
  · simp [Gate.takeTrigger]
  · intro p hp
    rcases List.mem_cons.mp hp with rfl | hp
    · exact htrig
    · exact hl.triggered p hp
  · intro p hp q hq hpq
    rcases List.mem_cons.mp hp with rfl | hp <;> rcases List.mem_cons.mp hq with rfl | hq
    · rfl
    · exact absurd hpq (Nat.ne_of_gt (hnew q hq))
    · exact absurd hpq (Nat.ne_of_lt (hnew p hp))
    · exact hl.unique p hp q hq hpq
  · intro m hm
    exact List.mem_cons_of_mem _ (hl.sent m hm)
  · intro p hp
    exact List.mem_cons_of_mem _ (hl.reported p hp)

theorem cut (hl : Live l slot gate) (hn : gate.pendingTrigger = some n) :
    Live { l with prepared := (n, infos) :: l.prepared, reported := (n, infos) :: l.reported }
      infos gate.takeTrigger.2 := by
  have ht : Live { l with prepared := (n, infos) :: l.prepared } slot gate.takeTrigger.2 :=
    hl.torn hn
  have hunresolved : n ∉ l.resolved := by
    intro hr
    obtain ⟨p, hp, hpn⟩ := List.mem_map.mp (hl.sent n (hl.resolved n hr))
    exact absurd hpn (Nat.ne_of_lt ((hl.pending n hn).2 p hp))
  refine { ht with reported := ?_, slot := .inr ⟨_, List.mem_cons_self, hunresolved, rfl⟩ }
  intro p hp
  rcases List.mem_cons.mp hp with rfl | hp
  · exact List.mem_cons_self
  · exact List.mem_cons_of_mem _ (hl.reported p hp)

theorem slot_head (hl : Live l slot gate) (he : gate.pendingEvents.head? = some e)
    (hover : ∀ p ∈ l.reported, p.1 ≠ e.checkpointId → p.1 ∈ l.resolved) :
    (slot = [] ∧ ∀ p ∈ l.reported, p.1 ≠ e.checkpointId) ∨ (e.checkpointId, slot) ∈ l.reported := by
  have hfresh := hl.fresh e (List.mem_of_head? he)
  rcases hl.slot with ⟨hnil, hall⟩ | ⟨p, hp, hpr, rfl⟩
  · refine .inl ⟨hnil, fun p hp hpe ↦ hfresh ?_⟩
    rw [← hpe]
    exact hall p hp
  · have hid : p.1 = e.checkpointId := by
      by_contra hne
      exact hpr (hover p hp hne)
    rw [← hid]
    exact .inr hp

theorem resolve (hl : Live l slot gate) (he : gate.pendingEvents.head? = some e)
    (hover : ∀ p ∈ l.reported, p.1 ≠ e.checkpointId → p.1 ∈ l.resolved) :
    Live { l with resolved := e.checkpointId :: l.resolved } [] gate.pollEvent.2 := by
  obtain ⟨rest, hqueue⟩ : ∃ rest, gate.pendingEvents = e :: rest :=
    List.head?_eq_some_iff.mp he
  have hdistinct := hl.distinct
  rw [hqueue, List.map_cons, List.nodup_cons] at hdistinct
  have htail : gate.pollEvent.2.pendingEvents = rest := by simp [Gate.pollEvent, hqueue]
  have hmem : ∀ d ∈ rest, d ∈ gate.pendingEvents := fun d hd ↦ by simp [hqueue, hd]
  refine { hl with queued := ?_, fresh := ?_, distinct := ?_, resolved := ?_, slot := .inl ⟨rfl, ?_⟩ }
  · rw [htail]
    exact fun d hd ↦ hl.queued d (hmem d hd)
  · rw [htail]
    intro d hd hr
    rcases List.mem_cons.mp hr with hid | hr
    · exact hdistinct.1 (hid ▸ List.mem_map_of_mem hd)
    · exact hl.fresh d (hmem d hd) hr
  · rw [htail]
    exact hdistinct.2
  · intro n hn
    rcases List.mem_cons.mp hn with rfl | hn
    · exact hl.queued e (by simp [hqueue])
    · exact hl.resolved n hn
  · intro p hp
    by_cases hid : p.1 = e.checkpointId
    · simp [hid]
    · exact List.mem_cons_of_mem _ (hover p hp hid)

end Live

def Receives (l : Ledger) (n : ℕ) (infos : List Bytes) : Prop :=
  (n, infos) ∈ l.prepared ∧ ∀ infos', (n, infos') ∈ l.prepared → infos' = infos

def Matched (h : List (Call R)) : Call R → Prop
  | .commit n infos | .abort n infos => Receives (ledger h) n infos
  | _ => True

structure MatchInv (h : List (Call R)) (g : TaskGroup Ψ ρ τ σ γ) : Prop where
  matched : Always Matched [] h
  live : InLoop g.pc → ∀ gate ∈ g.context.handle, Live (ledger h) g.lastCommitInfos gate

def Silent (c : Call R) : Prop := (∀ l : Ledger, l.note c = l) ∧ ∀ h, Matched h c

variable {k : Connectors R Δ Ψ ρ τ σ γ} {h calls : List (Call R)} {g g' : TaskGroup Ψ ρ τ σ γ}

theorem foldl_silent (hc : ∀ c ∈ calls, Silent c) (l : Ledger) : calls.foldl Ledger.note l = l := by
  induction calls with
  | nil => rfl
  | cons c calls ih =>
    rw [List.foldl_cons, (hc c (by simp)).1 l]
    exact ih fun d hd ↦ hc d (by simp [hd])

theorem always_silent (hc : ∀ c ∈ calls, Silent c) : Always Matched h calls :=
  always_of_forall fun h' c hm ↦ (hc c hm).2 h'

theorem silent_snapshot {c : Call R} (hc : IsSnapshot c) : Silent c := by
  cases c <;> simp [IsSnapshot] at hc <;> exact ⟨fun _ ↦ rfl, fun _ ↦ trivial⟩

theorem silent_failureReport (taskId : String) (n : ℕ) (r : Except String Unit) :
    ∀ c ∈ failureReport (R := R) taskId n r, Silent c := by
  cases r <;> simp [failureReport, Silent, Ledger.note, Matched]

theorem MatchInv.extend (hi : MatchInv h g) (hcalls : Always Matched h calls)
    (hlive : InLoop g'.pc → ∀ gate ∈ g'.context.handle,
      Live (calls.foldl Ledger.note (ledger h)) g'.lastCommitInfos gate) :
    MatchInv (h ++ calls) g' where
  matched := always_append.mpr ⟨hi.matched, by simpa using hcalls⟩
  live := by simpa using hlive

theorem MatchInv.silent (hi : MatchInv h g) (hpc : InLoop g.pc) (hc : ∀ c ∈ calls, Silent c)
    (hcontext : g'.context = g.context) (hinfos : g'.lastCommitInfos = g.lastCommitInfos) :
    MatchInv (h ++ calls) g' := by
  refine hi.extend (always_silent hc) fun _ gate hgate ↦ ?_
  rw [foldl_silent hc, hinfos]
  exact hi.live hpc gate (hcontext ▸ hgate)

theorem MatchInv.stop (hi : MatchInv h g) (hcalls : Always Matched h calls)
    (hpc : ¬ InLoop g'.pc) : MatchInv (h ++ calls) g' :=
  hi.extend hcalls fun hloop ↦ absurd hloop hpc

theorem barrier_matched {n : ℕ} {r : Except String Unit} (hb : Barrier k n g r g' calls) :
    Always Matched h calls := by
  refine always_of_forall fun h' c hc ↦ ?_
  cases hb with
  | refused =>
    rw [List.mem_singleton.mp hc]
    trivial
  | torn e infos sink reader calls _ _ hcalls =>
    rcases List.mem_cons.mp hc with rfl | hc
    · trivial
    · exact (silent_snapshot (hcalls c hc)).2 h'
  | cut infos ws rs =>
    rcases List.mem_append.mp hc with hc | hc
    · simp only [List.mem_cons, List.not_mem_nil, or_false] at hc
      rcases hc with rfl | rfl | rfl <;> trivial
    · split at hc
      · rw [List.mem_singleton.mp hc]
        trivial
      · simp at hc

theorem barrier_live {n : ℕ} {r : Except String Unit} {gate : Gate}
    (hl : Live (ledger h) g.lastCommitInfos gate) (hn : gate.pendingTrigger = some n)
    (hb : Barrier k n { g with context.handle := some gate.takeTrigger.2 } r g' calls) :
    g'.context.handle = some gate.takeTrigger.2 ∧
      Live (calls.foldl Ledger.note (ledger h)) g'.lastCommitInfos gate.takeTrigger.2 := by
  cases hb with
  | refused => exact ⟨rfl, hl.taken⟩
  | torn e infos sink reader calls _ _ hcalls =>
    refine ⟨rfl, ?_⟩
    rw [List.foldl_cons, foldl_silent fun c hc ↦ silent_snapshot (hcalls c hc)]
    exact hl.torn hn
  | cut infos ws rs _ _ _ _ hcontext _ hinfos =>
    rw [hcontext, hinfos]
    exact ⟨rfl, hl.cut hn⟩

theorem event_matched {e : CheckpointEvent} {gate : Gate}
    (hl : Live (ledger h) g.lastCommitInfos gate) (he : gate.pendingEvents.head? = some e)
    (hover : ∀ p ∈ (ledger h).reported, p.1 ≠ e.checkpointId → p.1 ∈ (ledger h).resolved) :
    Always Matched (h ++ [Call.resolution e]) (phaseTwoCalls e g) := by
  unfold phaseTwoCalls
  split
  case isFalse => trivial
  case isTrue hcall =>
    rcases hl.slot_head he hover with ⟨hnil, -⟩ | hrep
    · exact absurd hnil hcall.2
    · have hprep := hl.reported _ hrep
      have hreceives : Receives (ledger (h ++ [Call.resolution (R := R) e])) e.checkpointId
          g.lastCommitInfos := by
        rw [ledger_append]
        exact ⟨hprep, fun infos hinfos ↦ congrArg Prod.snd (hl.unique _ hinfos _ hprep rfl)⟩
      refine ⟨?_, trivial⟩
      cases e <;> exact hreceives

theorem foldl_phaseTwo (e : CheckpointEvent) (g : TaskGroup Ψ ρ τ σ γ) (l : Ledger) :
    (phaseTwoCalls (R := R) e g).foldl Ledger.note l = l := by
  unfold phaseTwoCalls
  split
  · cases e <;> rfl
  · rfl

theorem matchInv_event {now : ℤ} {gate : Gate}
    {e : CheckpointEvent} {r : Except String Unit} {pc : Pc} (hi : MatchInv h g)
    (hover : NoOvertaking h g (.task now)) (hpc : g.pc = .events)
    (hgate : g.context.handle = some gate) (he : gate.pendingEvents.head? = some e)
    (hr : Resolved e { g with context.handle := some gate.pollEvent.2 } r g' calls)
    (hfail : InLoop pc → r = .ok ()) :
    MatchInv (h ++ Call.resolution e :: calls) { g' with pc } := by
  have hl := hi.live (by simp [InLoop, hpc]) gate hgate
  have hover := hover e (by simp [takesEvent, hpc, hgate, he])
  have hmatched := event_matched hl he hover
  have hfold : calls.foldl Ledger.note ((ledger h).note (.resolution (R := R) e)) =
      (ledger h).note (.resolution (R := R) e) := by
    rcases hr.calls with rfl | rfl
    · exact foldl_phaseTwo e _ _
    · rw [List.foldl_append, foldl_phaseTwo]
      rfl
  refine hi.extend ⟨trivial, ?_⟩ fun hloop gate' hgate' ↦ ?_
  · rcases hr.calls with rfl | rfl
    · exact hmatched
    · exact always_append.mpr ⟨hmatched, trivial, trivial⟩
  · have hhandle : g'.context.handle = some gate.pollEvent.2 := by rw [hr.context]
    obtain rfl : gate.pollEvent.2 = gate' := by simpa [hhandle] using hgate'
    rw [List.foldl_cons, hfold, hr.cleared (hfail hloop)]
    exact hl.resolve he hover

theorem matchInv_taskStep {now : ℤ} (hi : MatchInv h g)
    (hover : NoOvertaking h g (.task now)) (hstep : Step k g g' calls) :
    MatchInv (h ++ calls) g' := by
  cases hstep with
  | idle => simpa using hi
  | quiet _ hpc hsame => exact hi.silent hpc (by simp) hsame.context hsame.lastCommitInfos
  | barrier gate n r _ calls hpc hgate hn hb =>
    have hl := hi.live (by simp [InLoop, hpc]) gate hgate
    obtain ⟨hhandle, hlive⟩ := barrier_live hl hn hb
    have hsilent := silent_failureReport (R := R) g'.context.taskId n r
    refine hi.extend (always_append.mpr ⟨barrier_matched hb, always_silent hsilent⟩) ?_
    intro _ gate' hgate'
    obtain rfl : gate.takeTrigger.2 = gate' := by simpa [hhandle] using hgate'
    rw [List.foldl_append, foldl_silent hsilent]
    exact hlive
  | event gate e r g₁ calls pc hpc hgate he hr hfail _ =>
    exact matchInv_event hi hover hpc hgate he hr hfail
  | interval _ n now infos state hpc hhandle hsame =>
    refine hi.extend (by simp [Matched]) fun _ gate hgate ↦ ?_
    simp [hsame.context, hhandle] at hgate
  | intervalFailed _ e n res calls hpc hhandle hpc' hcalls =>
    refine hi.stop ⟨trivial, always_silent fun c hc ↦ silent_snapshot (hcalls c hc)⟩ ?_
    simp [InLoop, hpc']
  | broken _ e _ hpc hpc' hcalls =>
    refine hi.stop (always_of_forall fun h' c hc ↦ ?_) (by simp [InLoop, hpc'])
    obtain ⟨row, rfl | rfl⟩ := hcalls c hc <;> trivial
  | written _ output rows hpc hrows hcommitter hcontext hinfos =>
    refine hi.silent hpc (fun c hc ↦ ?_) hcontext hinfos
    rcases List.mem_cons.mp hc with rfl | hc
    · exact ⟨fun _ ↦ rfl, fun _ ↦ trivial⟩
    · obtain ⟨row, _, rfl⟩ := List.mem_map.mp hc
      exact ⟨fun _ ↦ rfl, fun _ ↦ trivial⟩
  | leave g₁ _ t t' calls hpc _ hexit hpc' =>
    refine hi.stop (always_append.mpr ⟨?_, ?_⟩) (by simp [InLoop, hpc'])
    · cases hexit with
      | none => trivial
      | flush => exact ⟨trivial, trivial⟩
      | barrier r _ _ _ hb => exact barrier_matched hb
    · split
      · exact ⟨trivial, trivial⟩
      · trivial

theorem matchInv_driver {a : GateAction} (hi : MatchInv h g)
    (hwell : WellTimed h g (.driver a)) :
    MatchInv (h ++ [Call.driver a]) { g with context.handle := g.context.handle.map a.apply } := by
  refine hi.extend (by simp [Matched]) fun hloop gate hgate ↦ ?_
  obtain ⟨gate₀, hgate₀, rfl⟩ : ∃ gate₀, g.context.handle = some gate₀ ∧ a.apply gate₀ = gate := by
    simpa using hgate
  have hl := hi.live hloop gate₀ hgate₀
  cases a with
  | trigger n => exact hl.trigger hwell
  | sendEvent e => exact hl.sendEvent hwell.1 hwell.2
  | close => exact { hl with }

theorem matchInv_step (k : Connectors R Δ Ψ ρ τ σ γ) (h : List (Call R)) (g : TaskGroup Ψ ρ τ σ γ)
    (i : Input) (hi : MatchInv h g) (hP : WellTimed h g i ∧ NoOvertaking h g i) :
    MatchInv (h ++ (machine k).emit g i) ((machine k).next g i) := by
  cases i with
  | task now => exact matchInv_taskStep hi hP.2 (taskStep_cases k now g)
  | driver a => exact matchInv_driver hi hP.1
  | cancel => exact hi.extend trivial fun hloop gate hgate ↦ hi.live hloop gate hgate

def Fresh (g : TaskGroup Ψ ρ τ σ γ) : Prop :=
  g.lastCommitInfos = [] ∧
    ∀ gate ∈ g.context.handle, gate.pendingTrigger = none ∧ gate.pendingEvents = []

theorem Fresh.matchInv (hg : Fresh g) : MatchInv ([] : List (Call R)) g where
  matched := trivial
  live := fun _ gate hgate ↦ by
    obtain ⟨htrigger, hevents⟩ := hg.2 gate hgate
    constructor <;> simp [htrigger, hevents, hg.1, ledger]

theorem takeEvents_emit (k : Connectors R Δ Ψ ρ τ σ γ) {gate : Gate} {e : CheckpointEvent}
    (he : gate.pendingEvents.head? = some e) :
    (takeEvents k gate g).2 = .resolution e ::
      (handleCheckpointEvent k e { g with context.handle := some gate.pollEvent.2 }).2.2 := by
  simp only [takeEvents, Gate.pollEvent, he]
  split
  · next hh => rw [hh]
  · next hh => rw [hh]

theorem takesEvent_emit (k : Connectors R Δ Ψ ρ τ σ γ) {now : ℤ} {e : CheckpointEvent}
    (htakes : takesEvent g (.task now) = some e) :
    g.pc = .events ∧ ∃ gate, g.context.handle = some gate ∧ gate.pendingEvents.head? = some e ∧
      ∃ rest, (machine k).emit g (.task now) = Call.resolution e :: phaseTwoCalls e g ++ rest := by
  simp only [takesEvent] at htakes
  split at htakes
  case h_2 => cases htakes
  case h_1 hpc =>
    obtain ⟨gate, hgate, he⟩ := Option.bind_eq_some_iff.mp htakes
    refine ⟨hpc, gate, hgate, he, ?_⟩
    have hr := handleCheckpointEvent_spec k e { g with context.handle := some gate.pollEvent.2 }
    have hemit : (machine k).emit g (.task now) = (takeEvents k gate g).2 := by
      simp only [Machine.emit, machine, taskStep, hpc, hgate]
    rcases hr.calls with hcalls | hcalls
    · exact ⟨[], by rw [hemit, takeEvents_emit k he, hcalls, List.append_nil]; rfl⟩
    · exact ⟨_, by rw [hemit, takeEvents_emit k he, hcalls]; rfl⟩

/-- Under the driver's promises, and while no resolution overtakes another
reported barrier, the committer sees for barrier `n` exactly the infos of
`prepare_commit` at barrier `n`, and the infos of a reported barrier do reach
it when its resolution is taken. -/
theorem resolutions_match_barriers (k : Connectors R Δ Ψ ρ τ σ γ) (g : TaskGroup Ψ ρ τ σ γ)
    (is : List Input) (hg : Fresh g) (hwell : (machine k).Along WellTimed [] g is)
    (hover : (machine k).Along NoOvertaking [] g is) :
    (∀ pre e infos post, (machine k).trace g is = pre ++ phaseTwo e infos :: post →
      Call.prepareCommit e.checkpointId (.ok infos) ∈ pre ∧
        ∀ infos', Call.prepareCommit e.checkpointId (.ok infos') ∈ pre → infos' = infos) ∧
    ∀ front now rest e r, is = front ++ Input.task now :: rest →
      takesEvent ((machine k).run g front) (.task now) = some e →
      ((machine k).run g front).committer.isSome →
      .report (.checkpoint r) ∈ (machine k).trace g front →
      r.checkpointId = e.checkpointId → r.commitInfos ≠ [] →
      ∃ tail, (machine k).emit ((machine k).run g front) (.task now) =
        .resolution e :: phaseTwo e r.commitInfos :: tail := by
  have hall := Machine.along_and hwell hover
  constructor
  · intro pre e infos post htrace
    have hrun := Machine.invariant (matchInv_step k) hg.matchInv hall
    have hmatched := always_split.mp hrun.matched pre _ post (by simpa using htrace)
    have hreceives : Receives (ledger pre) e.checkpointId infos := by
      cases e <;> exact hmatched
    exact ⟨mem_prepared.mp hreceives.1, fun infos' hp ↦ hreceives.2 infos' (mem_prepared.mpr hp)⟩
  · rintro front now rest e r rfl htakes hcommitter hr hid hinfos
    obtain ⟨hfront, ⟨-, hstep⟩, -⟩ := Machine.along_append.mp hall
    have hrun := Machine.invariant (matchInv_step k) hg.matchInv hfront
    obtain ⟨hpc, gate, hgate, he, tail, hemit⟩ := takesEvent_emit k htakes
    have hl := hrun.live (by simp [InLoop, hpc]) gate hgate
    have hrep : (e.checkpointId, r.commitInfos) ∈ (ledger ([] ++ (machine k).trace g front)).reported :=
      hid ▸ mem_reported (by simpa using hr)
    have hslot : ((machine k).run g front).lastCommitInfos = r.commitInfos := by
      rcases hl.slot_head he (hstep e htakes) with ⟨-, hnone⟩ | hslot
      · exact absurd rfl (hnone _ hrep)
      · exact congrArg Prod.snd (hl.unique _ (hl.reported _ hslot) _ (hl.reported _ hrep) rfl)
    refine ⟨tail, ?_⟩
    rw [hemit, phaseTwoCalls, hslot, if_pos ⟨hcommitter, hinfos⟩]
    rfl

theorem fresh_counterTask : Fresh counterTask :=
  ⟨rfl, by simp [counterTask]⟩

def completionQueued : List Input :=
  List.replicate 7 (Input.task 0) ++
    [Input.driver (.trigger 1), .task 0, .driver (.sendEvent (.completed 1)), .task 0]

theorem counter_resolution_matches :
    ∃ tail, (machine (counter 2)).emit ((machine (counter 2)).run counterTask completionQueued)
      (.task 0) = .resolution (.completed 1) :: phaseTwo (.completed 1) [[0], [0]] :: tail :=
  (resolutions_match_barriers (counter 2) counterTask (completionQueued ++ [Input.task 0])
    fresh_counterTask (by decide) (by decide)).2 completionQueued 0 [] (.completed 1)
    (barrierReport counterTask.context 1 [1] [] [[0], [0]]) rfl rfl rfl
    (List.mem_of_getElem? (i := 7) rfl) rfl (by decide)

def overtaking : List Input :=
  List.replicate 7 (Input.task 0) ++ [Input.driver (.trigger 1)] ++ List.replicate 6 (Input.task 0) ++
    [Input.driver (.sendEvent (.completed 1)), .driver (.trigger 2)] ++ List.replicate 3 (Input.task 0)

/-- The commit for barrier 1 receives the infos of barrier 2. -/
theorem overtaken_commit_mismatch :
    Fresh counterTask ∧ (machine (counter 2)).Along WellTimed [] counterTask overtaking ∧
      ∃ pre post, (machine (counter 2)).trace counterTask overtaking =
          pre ++ phaseTwo (.completed 1) [[1], [1]] :: post ∧
        Call.prepareCommit 1 (.ok [[0], [0]]) ∈ pre := by
  refine ⟨fresh_counterTask, by decide, ((machine (counter 2)).trace counterTask overtaking).take 18,
    [.report (.commitDone "t" 1)], rfl, List.mem_of_getElem? (i := 4) rfl⟩

end SeaTunnel.Core.CommitMatching
