import SeaTunnel.Core.TaskSteps

namespace SeaTunnel.Core.BarrierCut

open Signaling TaskLoop TaskSteps Lib.Runs

variable {R Δ Ψ ρ τ σ γ : Type}

def records (h : List (Call R)) : List R :=
  h.filterMap fun
    | .record row => some row
    | _ => none

def writes (h : List (Call R)) : List R :=
  h.filterMap fun
    | .write row => some row
    | _ => none

def cutState : Call R → Option Bytes
  | .report (.checkpoint r) => some r.readerState
  | .onCheckpoint _ _ state => some state
  | _ => none

@[simp] theorem records_append (h t : List (Call R)) :
    records (h ++ t) = records h ++ records t := List.filterMap_append

@[simp] theorem writes_append (h t : List (Call R)) :
    writes (h ++ t) = writes h ++ writes t := List.filterMap_append

@[simp] theorem records_write (rows : List R) : records (rows.map Call.write) = [] := by
  simp [records]

@[simp] theorem writes_write (rows : List R) : writes (rows.map Call.write) = rows := by
  simp [writes, List.filterMap_map]

variable (k : Connectors R Δ Ψ ρ τ σ γ)

/-- What the transform chain makes of a sequence of records, one after the
other, from the transforms `ts`. -/
def chainOutputs (ts : List τ) (rs : List R) : Except String (List R) × List τ :=
  flatMapState (applyTransforms k) ts rs

theorem flatMapState_snoc {S A B : Type} (f : S → A → Except String (List B) × S)
    {s s' s'' : S} {as : List A} {a : A} {out out' : List B}
    (h : flatMapState f s as = (.ok out, s')) (h' : f s' a = (.ok out', s'')) :
    flatMapState f s (as ++ [a]) = (.ok (out ++ out'), s'') := by
  induction as generalizing s out with
  | nil =>
    simp only [flatMapState, Prod.mk.injEq, Except.ok.injEq] at h
    obtain ⟨rfl, rfl⟩ := h
    simp [flatMapState, h']
  | cons x as ih =>
    simp only [flatMapState] at h
    rcases hx : f s x with ⟨e | first, t⟩
    · simp [hx] at h
    · rcases hr : flatMapState f t as with ⟨e | rest, u⟩
      · simp [hx, hr] at h
      · simp only [hx, hr, Prod.mk.injEq, Except.ok.injEq] at h
        obtain ⟨rfl, rfl⟩ := h
        simp only [List.cons_append, flatMapState, hx, ih hr, List.append_assoc]

def CutAt (ts : List τ) (pre : List (Call R)) (e : Call R) : Prop :=
  ∀ state, cutState e = some state →
    ∃ front, pre = front ++ [Call.readerSnapshot (.ok state)] ∧
      (chainOutputs k ts (records front)).1 = .ok (writes front)

def Aligned (ts : List τ) (h : List (Call R)) (g : TaskGroup Ψ ρ τ σ γ) : Prop :=
  chainOutputs k ts (records h) = (.ok (writes h), g.transforms)

structure CutInv (ts : List τ) (h : List (Call R)) (g : TaskGroup Ψ ρ τ σ γ) : Prop where
  cuts : Always (CutAt k ts) [] h
  aligned : (∀ r, g.pc ≠ .returned r) → Aligned k ts h g

variable {k}
variable {ts : List τ} {h calls : List (Call R)} {g g' : TaskGroup Ψ ρ τ σ γ}

def Rowless (c : Call R) : Prop := records [c] = [] ∧ writes [c] = []

def Plain (c : Call R) : Prop := cutState c = none ∧ Rowless c

theorem rowless_calls (hc : ∀ c ∈ calls, Rowless c) : records calls = [] ∧ writes calls = [] := by
  induction calls with
  | nil => exact ⟨rfl, rfl⟩
  | cons c calls ih =>
    obtain ⟨hrec, hwr⟩ := hc c (by simp)
    obtain ⟨hrecs, hwrs⟩ := ih fun d hd ↦ hc d (by simp [hd])
    rw [← List.singleton_append, records_append, writes_append, hrec, hwr, hrecs, hwrs]
    exact ⟨rfl, rfl⟩

theorem always_plain (hc : ∀ c ∈ calls, cutState c = none) : Always (CutAt k ts) h calls :=
  always_of_forall fun _ c hmem state hs ↦ by simp [hc c hmem] at hs

theorem Aligned.rowless (ha : Aligned k ts h g) (hc : ∀ c ∈ calls, Rowless c)
    (htransforms : g'.transforms = g.transforms) : Aligned k ts (h ++ calls) g' := by
  obtain ⟨hrec, hwr⟩ := rowless_calls hc
  unfold Aligned at ha ⊢
  rw [records_append, writes_append, hrec, hwr, htransforms]
  simpa using ha

theorem Aligned.written (ha : Aligned k ts h g) {output : R} {rows : List R}
    (hrows : applyTransforms k g.transforms output = (.ok rows, g'.transforms)) :
    Aligned k ts (h ++ Call.record output :: rows.map .write) g' := by
  unfold Aligned at ha ⊢
  have hrec : records (.record output :: rows.map Call.write) = [output] := by
    rw [← List.singleton_append, records_append, records_write, List.append_nil]
    rfl
  have hwr : writes (.record output :: rows.map Call.write) = rows := by
    rw [← List.singleton_append, writes_append, writes_write]
    rfl
  rw [records_append, writes_append, hrec, hwr]
  exact flatMapState_snoc _ ha hrows

theorem plain_snapshot {c : Call R} (hc : IsSnapshot c) : Plain c := by
  cases c <;> simp [IsSnapshot] at hc <;> exact ⟨rfl, rfl, rfl⟩

theorem plain_prepareCommit (n : ℕ) (result : Except String (List Bytes)) :
    Plain (Call.prepareCommit (R := R) n result) := ⟨rfl, rfl, rfl⟩

theorem plain_phaseTwo (e : CheckpointEvent) (g : TaskGroup Ψ ρ τ σ γ) :
    ∀ c ∈ phaseTwoCalls (R := R) e g, Plain c := by
  unfold phaseTwoCalls
  cases e <;> split <;> simp [phaseTwo, Plain, Rowless, cutState, records, writes]

theorem plain_failureReport (taskId : String) (n : ℕ) (r : Except String Unit) :
    ∀ c ∈ failureReport (R := R) taskId n r, Plain c := by
  cases r <;> simp [failureReport, Plain, Rowless, cutState, records, writes]

theorem Aligned.plain (ha : Aligned k ts h g) (hc : ∀ c ∈ calls, Plain c)
    (htransforms : g'.transforms = g.transforms) :
    Always (CutAt k ts) h calls ∧ Aligned k ts (h ++ calls) g' :=
  ⟨always_plain fun c hm ↦ (hc c hm).1, ha.rowless (fun c hm ↦ (hc c hm).2) htransforms⟩

theorem barrier_cut {n : ℕ} {r : Except String Unit} (hb : Barrier k n g r g' calls)
    (ha : Aligned k ts h g) :
    Always (CutAt k ts) h calls ∧ Aligned k ts (h ++ calls) g' := by
  cases hb with
  | refused e sink => exact ha.plain (by simpa using plain_prepareCommit n _) rfl
  | torn e infos sink reader calls _ _ hcalls =>
    refine ha.plain (fun c hc ↦ ?_) rfl
    rcases List.mem_cons.mp hc with rfl | hc
    · exact plain_prepareCommit n _
    · exact plain_snapshot (hcalls c hc)
  | cut infos ws rs _ _ htransforms =>
    have hsnap : ∀ c ∈ [Call.prepareCommit (R := R) n (.ok infos), .writerSnapshot (.ok ws)],
        Rowless c := by simp [Rowless, records, writes]
    have hfront : Aligned k ts (h ++ [Call.prepareCommit n (.ok infos), .writerSnapshot (.ok ws)]) g :=
      ha.rowless hsnap rfl
    refine ⟨?_, ha.rowless ?_ htransforms⟩
    · by_cases hh : g.context.handle.isSome
      · simp only [hh, if_true]
        refine always_append.mpr ⟨always_plain (by simp [cutState]), ?_, trivial⟩
        intro state hs
        obtain rfl : rs = state := by simpa [cutState, barrierReport] using hs
        exact ⟨_, by simp, congrArg Prod.fst hfront⟩
      · simp only [hh]
        exact always_plain (by simp [cutState])
    · intro c hc
      rcases List.mem_append.mp hc with hc | hc
      · simp only [List.mem_cons, List.not_mem_nil, or_false] at hc
        rcases hc with rfl | rfl | rfl <;> exact ⟨rfl, rfl⟩
      · split at hc
        · rw [List.mem_singleton.mp hc]
          exact ⟨rfl, rfl⟩
        · simp at hc

theorem CutInv.running (hi : CutInv k ts h g) (hpc : InLoop g.pc) : Aligned k ts h g :=
  hi.aligned fun r hr ↦ by simp [InLoop, hr] at hpc

theorem CutInv.extend (hi : CutInv k ts h g)
    (hnext : Always (CutAt k ts) h calls ∧ Aligned k ts (h ++ calls) g') :
    CutInv k ts (h ++ calls) g' :=
  ⟨always_append.mpr ⟨hi.cuts, by simpa using hnext.1⟩, fun _ ↦ hnext.2⟩

theorem CutInv.stop (hi : CutInv k ts h g) (hnext : Always (CutAt k ts) h calls)
    {r : Except RunError TaskState} (hpc : g'.pc = .returned r) : CutInv k ts (h ++ calls) g' :=
  ⟨always_append.mpr ⟨hi.cuts, by simpa using hnext⟩, fun hne ↦ absurd hpc (hne r)⟩

theorem exit_cuts {t : TaskState} (he : Exit k g t g' calls) (ha : Aligned k ts h g) :
    Always (CutAt k ts) h calls := by
  cases he with
  | none => trivial
  | flush => exact always_plain (by simp [cutState])
  | barrier r _ _ _ hb => exact (barrier_cut hb ha).1

theorem cutInv_taskStep (hi : CutInv k ts h g) (hstep : Step k g g' calls) :
    CutInv k ts (h ++ calls) g' := by
  cases hstep with
  | idle => simpa using hi
  | quiet _ hpc hsame => exact hi.extend ((hi.running hpc).plain (by simp) hsame.transforms)
  | barrier gate n r _ calls hpc hgate hn hb =>
    have ha := hi.running (by simp [InLoop, hpc])
    have hbarrier : Always (CutAt k ts) h calls ∧ Aligned k ts (h ++ calls) g' := barrier_cut hb ha
    obtain ⟨hcuts, hal⟩ := hbarrier
    obtain ⟨hcuts', hal'⟩ := hal.plain (plain_failureReport g'.context.taskId n r) rfl
    refine hi.extend ⟨always_append.mpr ⟨hcuts, hcuts'⟩, ?_⟩
    simpa only [List.append_assoc] using hal'
  | event gate e r g₁ calls pc hpc hgate he hr hfail _ =>
    have ha := hi.running (by simp [InLoop, hpc])
    refine hi.extend (ha.plain (fun c hc ↦ ?_) hr.transforms)
    rcases List.mem_cons.mp hc with rfl | hc
    · exact ⟨rfl, rfl, rfl⟩
    · rcases hr.calls with rfl | rfl
      · exact plain_phaseTwo e _ c hc
      · rcases List.mem_append.mp hc with hc | hc
        · exact plain_phaseTwo e _ c hc
        · rw [List.mem_singleton.mp hc]
          exact ⟨rfl, rfl, rfl⟩
  | interval _ n now infos state hpc hhandle hsame =>
    have ha := hi.running hpc
    have hfront : Aligned k ts (h ++ [Call.prepareCommit n (.ok infos)]) g :=
      ha.rowless (by simp [Rowless, records, writes]) rfl
    refine hi.extend ⟨⟨?_, ?_, ?_, trivial⟩, ha.rowless ?_ hsame.transforms⟩
    · intro s hs
      simp [cutState] at hs
    · intro s hs
      simp [cutState] at hs
    · intro s hs
      obtain rfl : state = s := by simpa [cutState] using hs
      exact ⟨_, rfl, congrArg Prod.fst hfront⟩
    · simp [Rowless, records, writes]
  | intervalFailed _ e n res calls hpc hhandle hpc' hcalls =>
    refine hi.stop (always_plain fun c hc ↦ ?_) hpc'
    rcases List.mem_cons.mp hc with rfl | hc
    · rfl
    · exact (plain_snapshot (hcalls c hc)).1
  | broken _ e _ hpc hpc' hcalls =>
    refine hi.stop (always_plain fun c hc ↦ ?_) hpc'
    obtain ⟨row, rfl | rfl⟩ := hcalls c hc <;> rfl
  | written _ output rows hpc hrows =>
    refine hi.extend ⟨always_plain fun c hc ↦ ?_, (hi.running hpc).written hrows⟩
    rcases List.mem_cons.mp hc with rfl | hc
    · rfl
    · obtain ⟨row, _, rfl⟩ := List.mem_map.mp hc
      rfl
  | leave g₁ _ t t' calls hpc _ hexit hpc' =>
    have ha := hi.aligned fun r hr ↦ by simp [hpc] at hr
    refine hi.stop (always_append.mpr ⟨exit_cuts hexit ha, ?_⟩) hpc'
    split
    · exact always_plain (by simp [cutState])
    · trivial

theorem cutInv_step (h : List (Call R)) (g : TaskGroup Ψ ρ τ σ γ) (i : Input)
    (hi : CutInv k ts h g) :
    CutInv k ts (h ++ (machine k).emit g i) ((machine k).next g i) := by
  cases i with
  | task now => exact cutInv_taskStep hi (taskStep_cases k now g)
  | driver a =>
    refine ⟨always_append.mpr ⟨hi.cuts, always_plain (by simp [machine, Machine.emit, cutState])⟩,
      fun hne ↦ ?_⟩
    refine (hi.aligned hne).rowless (fun c hc ↦ ?_) rfl
    rw [List.mem_singleton.mp hc]
    exact ⟨rfl, rfl⟩
  | cancel =>
    refine ⟨always_append.mpr ⟨hi.cuts, trivial⟩, fun hne ↦ ?_⟩
    exact (hi.aligned hne).rowless (by simp [machine, Machine.emit]) rfl

/-- Whenever a barrier makes a source position known, the rows handed to the
sink are exactly the chain's outputs over the records polled before
`reader.snapshot_state`, which is the call right before. -/
theorem barrier_cut_consistent (k : Connectors R Δ Ψ ρ τ σ γ) (g : TaskGroup Ψ ρ τ σ γ)
    (is : List Input) (pre post : List (Call R)) (e : Call R) (state : Bytes)
    (htrace : (machine k).trace g is = pre ++ e :: post) (he : cutState e = some state) :
    ∃ front, pre = front ++ [Call.readerSnapshot (.ok state)] ∧
      (chainOutputs k g.transforms (records front)).1 = .ok (writes front) := by
  have hinit : CutInv k g.transforms [] g := ⟨trivial, fun _ ↦ rfl⟩
  have hrun : CutInv k g.transforms ([] ++ (machine k).trace g is) ((machine k).run g is) :=
    Machine.invariant_all cutInv_step hinit is
  have hcut := always_split.mp hrun.cuts pre e post (by simpa using htrace)
  simpa [CutAt] using hcut state he

theorem counter_barrier_cut :
    ∃ front, [Call.record 0, .write 0, .write 0, .driver (.trigger 1),
        .prepareCommit 1 (.ok [[0], [0]]), .writerSnapshot (.ok []), .readerSnapshot (.ok [1])] =
        front ++ [Call.readerSnapshot (.ok [1])] ∧
      (chainOutputs (counter 1) [()] (records front)).1 = .ok (writes front) :=
  barrier_cut_consistent (counter 1) counterTask
    (List.replicate 6 (Input.task 0) ++ [Input.driver (.trigger 1)] ++ List.replicate 2 (Input.task 0)) _ []
    (.report (.checkpoint (barrierReport counterTask.context 1 [1] [] [[0], [0]]))) [1] rfl rfl

end SeaTunnel.Core.BarrierCut
