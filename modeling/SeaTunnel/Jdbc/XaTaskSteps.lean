import SeaTunnel.Jdbc.XaTask

namespace SeaTunnel.Jdbc.XaTaskSteps

open Core.Signaling Core.TaskLoop Core.TaskSteps Core.BarrierCut Lib Lib.Runs XaSink XaBranches XaHeld
  XaPhaseTwo XaTask

variable {F D Δ Ψ ρ τ : Type} {x : Pipeline F D Δ Ψ ρ τ} {a : Account F} {view : D → View F} {strict : Bool}
variable {targets : List (ℕ × List (Row F))} {total : List (Row F)} {g : Group F D Ψ ρ τ}

section Poll

theorem writeAll_ready (hl : Lawful x.server view) {rows : List (Row F)} {s : Client (XaSinkWriter F) F D}
    (hready : Ready a view total s) (hkeyed : ∀ row ∈ rows, Keyed s.self row) :
    match writeAll (connectors x) s rows with
    | (.ok _, s', _) => Ready a view (total ++ rows) s'
    | (.error _, s', _) => Weak a view s' := by
  induction rows generalizing s total with
  | nil => simpa [writeAll] using hready
  | cons row rows ih =>
    have hwrite := @write_ready _ _ a view x.server total hl row
    have hsettled : Keeps (Settled s.self) (write x.server row) := write_settled
    have hpre : Ready a view total s ∧ Keyed s.self row := ⟨hready, hkeyed row (by simp)⟩
    rcases hrun : write x.server row s with ⟨e | u, s'⟩
    · have hweak := hwrite.error hpre hrun
      simpa only [writeAll, connectors, hrun] using hweak
    · have hnext := hwrite.ok hpre hrun
      have hsame := hsettled.ok ⟨hready.conn, rfl, rfl, rfl⟩ hrun
      have hrest := ih hnext fun row' hrow' ↦ hsame.keyed.mpr (hkeyed row' (by simp [hrow']))
      have hwrite' : (connectors x).writer.write s row = (.ok u, s') := hrun
      simp only [writeAll, hwrite']
      rcases hw : writeAll (connectors x) s' rows with ⟨e | u', s'', calls⟩
      · rw [hw] at hrest
        exact hrest
      · rw [hw] at hrest
        simpa using hrest

theorem cuts_eq_nil {calls : List (Call (Row F))} (h : ∀ c ∈ calls, ∀ r, c ≠ .report (.checkpoint r)) :
    cuts x total calls = [] := by
  refine List.filterMap_eq_nil_iff.mpr fun c hc ↦ ?_
  split
  · next r => exact absurd rfl (h _ hc r)
  · rfl

theorem pollOnce_sound (hl : Lawful x.server view) {strict : Bool} {targets : List (ℕ × List (Row F))}
    (now : ℤ) (hpc : g.pc = .poll) (hsound : Sound x a view strict targets total g)
    (hkeyed : ∀ row ∈ pendingRows x g, Keyed g.sink.self row) :
    Sound x a view strict (cuts x total (pollOnce (connectors x) now g).2 ++ targets)
      (total ++ writes (pollOnce (connectors x) now g).2)
      (share g.pc (pollOnce (connectors x) now g).1) := by
  have hready := hsound.ready (by simp [hpc, Active])
  have hcommitter : g.committer.isSome := by
    obtain ⟨c, hc, -⟩ := hsound.synced
    simp [hc]
  have hnot : g.pc ≠ .events := by simp [hpc]
  have hquiet : cuts x total ([] : List (Call (Row F))) ++ targets = targets := rfl
  have hnone : total ++ writes ([] : List (Call (Row F))) = total := by simp [writes]
  unfold pollOnce
  split
  · rw [hquiet, hnone]
    exact sound_ready hnot hcommitter hsound.handle trivial hready
  · next output reader hpoll =>
    split
    · rw [show writes [Call.record output] = [] from rfl, List.append_nil]
      exact sound_returned hnot hcommitter hsound.handle rfl hsound.recoverable
    · next rows transforms htransforms =>
      have hpending : pendingRows x g = rows := by
        have hsource : x.source.pollNext g.reader = (.ok (.record output), reader) := hpoll
        simp only [pendingRows, hsource, htransforms]
      rw [hpending] at hkeyed
      have hwrites := writeAll_ready hl hready hkeyed
      have hcalls := writeAll_calls (connectors x) g.sink rows
      dsimp only
      split
      · rw [show writes [Call.record output] = [] from rfl, List.append_nil]
        exact sound_returned hnot hcommitter hsound.handle rfl hsound.recoverable
      · split
        · next e sink calls hrun =>
          rw [hrun] at hwrites hcalls
          have hcuts : cuts x total (Call.record output :: calls) = [] := by
            refine cuts_eq_nil fun c hc r ↦ ?_
            rcases List.mem_cons.mp hc with rfl | hc
            · simp
            · obtain ⟨row, rfl | rfl⟩ := hcalls c hc
              · simp
              · simp
          rw [hcuts, List.nil_append]
          exact sound_returned hnot hcommitter hsound.handle rfl (Weak.recoverable hwrites)
        · next sink calls hrun =>
          rw [hrun] at hwrites
          obtain rfl := writeAll_ok (connectors x) hrun
          have hcuts : cuts x total (Call.record output :: rows.map Call.write) = [] := by
            refine cuts_eq_nil fun c hc r ↦ ?_
            rcases List.mem_cons.mp hc with rfl | hc
            · simp
            · obtain ⟨row, -, rfl⟩ := List.mem_map.mp hc
              simp
          have hrows : writes (Call.record output :: rows.map Call.write) = rows := by
            rw [← List.singleton_append, writes_append, writes_write]
            rfl
          rw [hcuts, List.nil_append, hrows]
          exact sound_ready hnot hcommitter hsound.handle trivial hwrites
  · split
    · next hchange => cases hchange
    · next hchange =>
      cases hchange
      split
      · rw [hquiet, hnone]
        exact sound_ready hnot hcommitter hsound.handle trivial hready
      · split
        · rw [hquiet, hnone]
          exact sound_returned hnot hcommitter hsound.handle rfl hsound.recoverable
        · rw [hquiet, hnone]
          exact sound_ready hnot hcommitter hsound.handle trivial hready
  · have hflush := @pollFlush_ready _ _ (owed a x.info strict targets g.lastCommitInfos) view x.server total hl
    split
    · next hrun =>
      rw [hquiet, hnone]
      exact sound_returned hnot hcommitter hsound.handle rfl (Weak.recoverable (hflush.error hready hrun))
    · next hrun =>
      rw [hquiet, hnone]
      exact sound_ready hnot hcommitter hsound.handle trivial (hflush.ok hready hrun)
  · rw [hquiet, hnone]
    exact sound_ready hnot hcommitter hsound.handle trivial hready

end Poll

section Triggers

theorem executeBarrier_same (n : ℕ) (now : ℤ) (g : Group F D Ψ ρ τ) :
    (executeBarrier (connectors x) n now g).2.1.context = g.context ∧
      (executeBarrier (connectors x) n now g).2.1.committer = g.committer ∧
      (executeBarrier (connectors x) n now g).2.1.pc = g.pc := by
  unfold executeBarrier
  split
  · exact ⟨rfl, rfl, rfl⟩
  · split
    · exact ⟨rfl, rfl, rfl⟩
    · split
      · exact ⟨rfl, rfl, rfl⟩
      · exact ⟨rfl, rfl, rfl⟩

theorem takeTriggers_some {now : ℤ} {gate : Gate} {n : ℕ} (hn : gate.pendingTrigger = some n) :
    ∃ tail, takeTriggers (connectors x) now gate g =
        ((executeBarrier (connectors x) n now { g with context.handle := some gate.takeTrigger.2 }).2.1,
          (executeBarrier (connectors x) n now { g with context.handle := some gate.takeTrigger.2 }).2.2 ++ tail) ∧
      writes tail = [] ∧ ∀ c ∈ tail, ∀ r, c ≠ .report (.checkpoint r) := by
  simp only [takeTriggers, Gate.takeTrigger, hn]
  split
  · next g' calls heq => exact ⟨[], by rw [heq, List.append_nil], rfl, by simp⟩
  · next e g' calls heq => exact ⟨[_], by rw [heq], rfl, by simp⟩

theorem takeTriggers_sound (hl : Lawful x.server view) (now : ℤ) {gate : Gate}
    (hpc : g.pc = .triggers) (hgate : g.context.handle = some gate)
    (hsound : Sound x a view strict targets total g) (hcareful : Careful x a view strict targets g) :
    Sound x a view strict (cuts x total (takeTriggers (connectors x) now gate g).2 ++ targets)
      (total ++ writes (takeTriggers (connectors x) now gate g).2)
      (share g.pc (takeTriggers (connectors x) now gate g).1) := by
  have hready := hsound.ready (by simp [hpc, Active])
  have hcommitter : g.committer.isSome := by
    obtain ⟨c, hc, -⟩ := hsound.synced
    simp [hc]
  have hnot : g.pc ≠ .events := by simp [hpc]
  cases hn : gate.pendingTrigger with
  | none =>
    simp only [takeTriggers, Gate.takeTrigger, hn, cuts_nil, List.nil_append]
    rw [show writes ([] : List (Call (Row F))) = [] from rfl, List.append_nil]
    exact sound_ready hnot hcommitter hsound.handle trivial hready
  | some n =>
    have hdue : barrierDue g = true := by simp [barrierDue, hpc, hgate, hn]
    obtain ⟨tail, htake, hwrites, htail⟩ := @takeTriggers_some _ _ _ _ _ _ x g now gate n hn
    have hcuts : cuts x total tail = [] := cuts_eq_nil htail
    let g₀ : Group F D Ψ ρ τ := { g with context.handle := some gate.takeTrigger.2 }
    obtain ⟨hcut, -, hnone⟩ := executeBarrier_ready hl n now (g := g₀) rfl hready
      (hcareful.flush hdue) hcareful.window fun hs ↦ hcareful.intact hs hpc hdue
    obtain ⟨hcontext, hsame, hsamepc⟩ := @executeBarrier_same _ _ _ _ _ _ x n now g₀
    rw [htake, cuts_append, hcuts, writes_append, hnone, hwrites, List.append_nil, List.append_nil,
      List.append_nil]
    refine sound_ready hnot (by rw [hsame]; exact hcommitter) (by rw [hcontext]; rfl) ?_ hcut
    rw [hsamepc]
    change Active g.pc
    rw [hpc]
    trivial

end Triggers

section Leave

theorem exitBarrier_ready (hl : Lawful x.server view) (now : ℤ) {terminal : TaskState}
    (hpc : g.pc = .leave terminal) (hsound : Sound x a view strict targets total g)
    (hcareful : Careful x a view strict targets g) :
    ∃ g' calls, (exitBarrier (connectors x) now terminal g).2 = (g', calls) ∧
      Ready (owed a x.info false (cuts x total calls ++ targets) g'.lastCommitInfos) view total g'.sink ∧
      (g'.sink.self.txnOpen = true → g'.sink.self.lastCommittedWindow + 1 < 2 ^ 64) ∧
      writes calls = [] ∧ g'.context = g.context ∧ g'.committer = g.committer := by
  have hready : Ready (owed a x.info false targets g.lastCommitInfos) view total g.sink :=
    Ready.mono (hsound.ready (by simp [hpc, Active])) rfl (fun _ hp ↦ hp) fun _ _ ↦ by simp
  by_cases ht : terminal = .completed ∨ terminal = .cancelled
  · have hdue : barrierDue g = true := by simpa [barrierDue, hpc] using ht
    obtain ⟨hcut, hopen, hnone⟩ := executeBarrier_ready hl finalCheckpointId now hsound.handle hready
      (hcareful.flush hdue) hcareful.window (by simp)
    obtain ⟨hcontext, hsame, -⟩ := @executeBarrier_same _ _ _ _ _ _ x finalCheckpointId now g
    have hexit : (exitBarrier (connectors x) now terminal g).2 =
        (executeBarrier (connectors x) finalCheckpointId now g).2 := by
      simp only [exitBarrier, ht, if_true, hsound.handle]
      split
      · next heq => rw [heq]
      · next heq => rw [heq]
    exact ⟨_, _, hexit, hcut, hopen, hnone, hcontext, hsame⟩
  · refine ⟨g, [], ?_, hready, fun _ ↦ hcareful.window, rfl, rfl, rfl⟩
    simp only [exitBarrier, ht, if_false]

theorem leaveRun_sound (hl : Lawful x.server view) (now : ℤ) {terminal : TaskState}
    (hpc : g.pc = .leave terminal) (hsound : Sound x a view strict targets total g)
    (hcareful : Careful x a view strict targets g) :
    Sound x a view strict (cuts x total (leaveRun (connectors x) now terminal g).2 ++ targets)
      (total ++ writes (leaveRun (connectors x) now terminal g).2)
      (share g.pc (leaveRun (connectors x) now terminal g).1) := by
  obtain ⟨g', calls, hexit, hready, hopen, hnone, hcontext, hsame⟩ :=
    exitBarrier_ready hl now hpc hsound hcareful
  have hfull : exitBarrier (connectors x) now terminal g =
      ((exitBarrier (connectors x) now terminal g).1, g', calls) := by rw [← hexit]
  have hhandle : g'.context.handle.isSome := by rw [hcontext]; exact hsound.handle
  have hcommitter : g'.committer.isSome := by
    obtain ⟨c, hc, -⟩ := hsound.synced
    simp [hsame, hc]
  have hclosed := (closeWriter_recoverable hl).snd ⟨hready, hopen⟩
  have hcuts : cuts x total (calls ++ [Call.report (.done g'.context.taskId)]) = cuts x total calls := by
    simp [cuts]
  have hwrites : writes (calls ++ [Call.report (.done g'.context.taskId)]) = [] := by
    rw [writes_append, hnone]
    rfl
  rw [leaveRun, hfull]
  simp only [hhandle, if_true, hcuts, hwrites, List.append_nil]
  exact sound_returned (by simp [hpc]) hcommitter hhandle rfl (recoverable_owed hclosed fun _ hp ↦ hp)

end Leave

section Events

theorem Standing.released {infos : List Bytes} {w : XaSinkWriter F} {v : View F}
    (h : Standing (owed a x.info strict targets infos) total w v)
    (hsettled : ∀ xid ∈ heldXids x.info infos, v.prepared xid = none) :
    Standing (owed a x.info strict targets []) total w v := by
  obtain ⟨ds, hheld, heven⟩ := h
  refine ⟨ds, ⟨hheld.conn, hheld.base, hheld.describes, hheld.covered, hheld.closed, hheld.opened, hheld.dead,
    hheld.targets, fun d hd hle hs ↦ ?_⟩, heven⟩
  have hnone := hsettled d.xid (hheld.allowed d hd hle hs)
  rw [hheld.describes.prepared d hd] at hnone
  cases hnone

theorem settle_commit_ready (hl : Lawful x.server view) (n : ℕ)
    {c : Client XaSinkCommitter F D} (hc : g.committer = some c) (hworld : c.world = g.sink.world)
    (hready : Ready (owed a x.info strict targets g.lastCommitInfos) view total g.sink)
    (hsafe : ∀ xid ∈ heldXids x.info g.lastCommitInfos,
      CommitSafe (owed a x.info strict targets g.lastCommitInfos) xid) :
    ∃ r c' calls, settle (connectors x).committer.commit (Call.commit (R := Row F) n) g =
        (r, { g with committer := some c' }, calls) ∧
      Ready (owed a x.info strict targets g.lastCommitInfos) view total { g.sink with world := c'.world } ∧
      (r = .ok () → Ready (owed a x.info strict targets []) view total { g.sink with world := c'.world }) ∧
      writes calls = [] ∧ cuts x total calls = [] := by
  have hstanding : Standing (owed a x.info strict targets g.lastCommitInfos) total g.sink.self
      (view c.world.db) := by
    rw [hworld]
    exact hready.even
  by_cases hinfos : g.lastCommitInfos = []
  · refine ⟨.ok (), c, [], ?_, ⟨hstanding, hready.keyed⟩, fun _ ↦ ⟨?_, hready.keyed⟩, rfl, rfl⟩
    · simp only [settle, hc]
      rw [if_pos hinfos, ← hc]
    · rw [hinfos] at hstanding
      exact hstanding
  · have hcommit := @commitBytes_standing _ _ _ _ _ _ x _ view total hl g.sink.self g.lastCommitInfos hsafe
    refine ⟨(commitBytes x g.lastCommitInfos c).1, (commitBytes x g.lastCommitInfos c).2,
      [.commit n g.lastCommitInfos], ?_, ⟨?_, hready.keyed⟩, fun hok ↦ ⟨?_, hready.keyed⟩, rfl, rfl⟩
    · simp only [settle, hc, hinfos, if_false]
      rfl
    · exact (hcommit.weaken (fun _ hs ↦ hs) (fun _ _ hs ↦ hs.1) fun _ hs ↦ hs).snd hstanding
    · obtain ⟨hafter, hsettled⟩ := hcommit.ok hstanding (Prod.ext hok rfl)
      exact Standing.released hafter hsettled

theorem handleCheckpointEvent_ready (hl : Lawful x.server view) (e : CheckpointEvent)
    {c : Client XaSinkCommitter F D} (hc : g.committer = some c) (hworld : c.world = g.sink.world)
    (hready : Ready (owed a x.info strict targets g.lastCommitInfos) view total g.sink)
    (hcompleted : ∀ n, e = .completed n → ∀ xid ∈ heldXids x.info g.lastCommitInfos,
      CommitSafe (owed a x.info strict targets g.lastCommitInfos) xid)
    (haborted : ∀ n, e = .aborted n → g.lastCommitInfos = []) :
    ∃ r g' c' calls, handleCheckpointEvent (connectors x) e g = (r, g', calls) ∧ g'.committer = some c' ∧
      g'.sink = g.sink ∧ g'.context = g.context ∧ g'.pc = g.pc ∧
      Ready (owed a x.info strict targets g'.lastCommitInfos) view total { g.sink with world := c'.world } ∧
      writes calls = [] ∧ cuts x total calls = [] := by
  cases e with
  | aborted n =>
    have hinfos := haborted n rfl
    refine ⟨.ok (), { g with lastCommitInfos := [] }, c, [], ?_, hc, rfl, rfl, rfl, ?_, rfl, rfl⟩
    · simp only [handleCheckpointEvent, settle, hc, hinfos, if_true]
    · rw [hinfos] at hready
      rw [hworld]
      exact hready
  | completed n =>
    obtain ⟨r, c', calls, hsettle, hkept, hreleased, hwrites, hcuts⟩ :=
      settle_commit_ready hl n hc hworld hready (hcompleted n rfl)
    cases r with
    | error e =>
      refine ⟨.error e, { g with committer := some c' }, c', calls, ?_, rfl, rfl, rfl, rfl, hkept, hwrites, hcuts⟩
      simp only [handleCheckpointEvent, hsettle]
    | ok u =>
      rcases hnotify : (connectors x).reader.notifyCheckpointComplete g.reader n with ⟨e | u', reader⟩
      · refine ⟨.error ("notify_checkpoint_complete failed: " ++ e),
          { g with committer := some c', reader, lastCommitInfos := [] }, c', calls, ?_, rfl, rfl, rfl,
          rfl, hreleased rfl, hwrites, hcuts⟩
        simp only [handleCheckpointEvent, hsettle, hnotify]
      · refine ⟨.ok (), { g with committer := some c', reader, lastCommitInfos := [] }, c',
          calls ++ if g.context.handle.isSome then [.report (.commitDone g.context.taskId n)] else [], ?_, rfl,
          rfl, rfl, rfl, hreleased rfl, ?_, ?_⟩
        · simp only [handleCheckpointEvent, hsettle, hnotify]
        · rw [writes_append, hwrites]
          split
          · rfl
          · rfl
        · rw [cuts_append, hcuts]
          split
          · rfl
          · rfl

theorem takeEvents_some {gate : Gate} {e : CheckpointEvent} (he : gate.pendingEvents.head? = some e) :
    takeEvents (connectors x) gate g =
      match handleCheckpointEvent (connectors x) e { g with context.handle := some gate.pollEvent.2 } with
      | (.ok _, g, calls) => (g, .resolution e :: calls)
      | (.error msg, g, calls) => ({ g with pc := .leave (.failed msg) }, .resolution e :: calls) := by
  simp only [takeEvents, Gate.pollEvent, he]
  split
  · next heq => rw [heq]
  · next heq => rw [heq]

theorem takeEvents_sound (hl : Lawful x.server view) {gate : Gate}
    (hpc : g.pc = .events) (hgate : g.context.handle = some gate)
    (hsound : Sound x a view strict targets total g) (hcareful : Careful x a view strict targets g) :
    Sound x a view strict (cuts x total (takeEvents (connectors x) gate g).2 ++ targets)
      (total ++ writes (takeEvents (connectors x) gate g).2)
      (share g.pc (takeEvents (connectors x) gate g).1) := by
  obtain ⟨c, hc, hworld⟩ := hsound.synced
  have hready := hsound.ready (by simp [hpc, Active])
  rw [hpc]
  cases he : gate.pendingEvents.head? with
  | none =>
    simp only [takeEvents, Gate.pollEvent, he, cuts_nil, List.nil_append]
    rw [show writes ([] : List (Call (Row F))) = [] from rfl, List.append_nil]
    refine sound_event hc hsound.handle trivial ?_
    rw [hworld]
    exact hready
  | some e =>
    have htakes : Core.CommitMatching.takesEvent g (.task 0) = some e := by
      simp [Core.CommitMatching.takesEvent, hpc, hgate, he]
    let g₀ : Group F D Ψ ρ τ := { g with context.handle := some gate.pollEvent.2 }
    obtain ⟨r, g', c', calls, hevent, hc', hsink, hcontext, hsamepc, hkept, hwrites, hcuts⟩ :=
      handleCheckpointEvent_ready hl e (g := g₀) hc hworld hready
        (fun n hn ↦ hcareful.completed n (hn ▸ htakes)) fun n hn ↦ hcareful.aborted n (hn ▸ htakes)
    have hhandle : g'.context.handle.isSome := by rw [hcontext]; rfl
    have hactive : Active g'.pc := by
      rw [hsamepc]
      change Active g.pc
      rw [hpc]
      trivial
    have hrows : writes (Call.resolution e :: calls) = [] := hwrites
    have hnone : cuts x total (Call.resolution e :: calls) = [] := hcuts
    have htake := takeEvents_some (x := x) (g := g) he
    rw [hevent] at htake
    rw [← hsink] at hkept
    cases r with
    | ok u =>
      rw [htake, hrows, hnone, List.append_nil]
      exact sound_event hc' hhandle hactive hkept
    | error msg =>
      rw [htake, hrows, hnone, List.append_nil]
      exact sound_event hc' hhandle trivial hkept

end Events

section Step

theorem taskStep_sound (hl : Lawful x.server view) (now : ℤ) (hstart : g.pc ≠ .start)
    (hsound : Sound x a view strict targets total g) (hcareful : Careful x a view strict targets g) :
    Sound x a view strict (cuts x total (taskStep (connectors x) now g).2 ++ targets)
      (total ++ writes (taskStep (connectors x) now g).2)
      (share g.pc (taskStep (connectors x) now g).1) := by
  have hcommitter : g.committer.isSome := by
    obtain ⟨c, hc, -⟩ := hsound.synced
    simp [hc]
  have hnone : total ++ writes ([] : List (Call (Row F))) = total := by simp [writes]
  cases hpc : g.pc with
  | start => exact absurd hpc hstart
  | loopTop =>
    have hready := hsound.ready (by simp [hpc, Active])
    simp only [taskStep, hpc]
    split
    · rw [cuts_nil, hnone]
      exact sound_ready (by simp) hcommitter hsound.handle trivial hready
    · rw [if_pos hsound.handle, cuts_nil, hnone]
      exact sound_ready (by simp) hcommitter hsound.handle trivial hready
  | triggers =>
    obtain ⟨gate, hgate⟩ := Option.isSome_iff_exists.mp hsound.handle
    have htake := takeTriggers_sound hl now hpc hgate hsound hcareful
    simp only [taskStep, hpc, hgate] at htake ⊢
    exact htake
  | events =>
    obtain ⟨gate, hgate⟩ := Option.isSome_iff_exists.mp hsound.handle
    have htake := takeEvents_sound hl hpc hgate hsound hcareful
    simp only [taskStep, hpc, hgate] at htake ⊢
    exact htake
  | interval =>
    have hready := hsound.ready (by simp [hpc, Active])
    have hquiet : maybeTriggerCheckpoint (connectors x) now g = (.ok none, g, []) := by
      rw [maybeTriggerCheckpoint, if_pos (.inr hsound.handle)]
    simp only [taskStep, hpc, hquiet]
    rw [cuts_nil, hnone]
    exact sound_ready (by simp) hcommitter hsound.handle trivial hready
  | poll =>
    have hpoll := pollOnce_sound hl now hpc hsound (hcareful.keyed hpc)
    simp only [taskStep, hpc] at hpoll ⊢
    exact hpoll
  | leave terminal =>
    have hleave := leaveRun_sound hl now hpc hsound hcareful
    simp only [taskStep, hpc] at hleave ⊢
    exact hleave
  | returned r =>
    simp only [taskStep, hpc]
    rw [cuts_nil, hnone]
    exact sound_returned (by simp) hcommitter hsound.handle hpc hsound.recoverable

theorem start_sound (hl : Lawful x.server view) (now : ℤ) (hpc : g.pc = .start)
    (hsound : Sound x a view strict targets total g) :
    (taskStep (connectors x) now g).2 = [] ∧
      ((∃ e, (taskStep (connectors x) now g).1.pc = .returned (.error e) ∧
          ∀ total', Sound x a view strict targets total' (share g.pc (taskStep (connectors x) now g).1)) ∨
        (taskStep (connectors x) now g).1.pc = .loopTop ∧
          Recovering (owed a x.info strict targets []) (view (taskStep (connectors x) now g).1.sink.world.db) [] ∧
          ∀ total', (view (taskStep (connectors x) now g).1.sink.world.db).committed.Perm total' →
            Sound x a view strict targets total' (share g.pc (taskStep (connectors x) now g).1)) := by
  have hcommitter : g.committer.isSome := by
    obtain ⟨c, hc, -⟩ := hsound.synced
    simp [hc]
  obtain ⟨hidle, hinfos⟩ := hsound.idle hpc
  have hopen := @openWriter_recovers _ _ (owed a x.info strict targets g.lastCommitInfos) view x.server hl
  have hpre := And.intro hsound.recoverable hidle
  have hnot : g.pc ≠ .events := by simp [hpc]
  simp only [taskStep, hpc]
  rw [hpc] at hnot
  split
  · exact ⟨rfl, .inl ⟨_, rfl, fun _ ↦ sound_returned hnot hcommitter hsound.handle rfl hsound.recoverable⟩⟩
  · split
    · next hrun =>
      refine ⟨rfl, .inl ⟨_, rfl, fun _ ↦ ?_⟩⟩
      exact sound_returned hnot hcommitter hsound.handle rfl (hopen.error hpre hrun)
    · next hrun =>
      obtain ⟨hrecovering, hidle'⟩ := hopen.ok hpre hrun
      refine ⟨rfl, .inr ⟨rfl, hinfos ▸ hrecovering, fun total' hrows ↦ ?_⟩⟩
      refine sound_ready hnot hcommitter hsound.handle trivial ⟨⟨[], hrecovering.held hidle', .inr ?_⟩, ?_⟩
      · simpa [attachedRows, hrecovering.attached, hidle'.buffer] using hrows
      · simp [hidle'.buffer]

theorem share_synced {pc : Pc} {c : Client XaSinkCommitter F D}
    (hc : g.committer = some c) (hworld : c.world = g.sink.world) : share pc g = g := by
  unfold share
  rw [hc]
  dsimp only
  split
  · rw [hworld, ← hc]
  · rw [← hworld, ← hc]

theorem Sound.gate (h : Sound x a view strict targets total g) (pc : Pc)
    {context : TaskContext} (hhandle : context.handle.isSome) :
    Sound x a view strict targets total (share pc { g with context }) := by
  obtain ⟨c, hc, hworld⟩ := h.synced
  have hsame : share pc { g with context } = { g with context } := share_synced hc hworld
  rw [hsame]
  exact ⟨h.synced, hhandle, h.recoverable, h.idle, h.ready⟩

end Step

section Reports

theorem executeBarrier_report {n : ℕ} {now : ℤ} :
    writes (executeBarrier (connectors x) n now g).2.2 = [] ∧
      ∀ r, .report (.checkpoint r) ∈ (executeBarrier (connectors x) n now g).2.2 →
        ∃ state, x.state.fromSlice r.writerState = .ok state ∧
          state.lastCommittedWindow = (executeBarrier (connectors x) n now g).2.1.sink.self.lastCommittedWindow := by
  rcases hprepare : prepareBytes x n g.sink with ⟨e | bytes, sink⟩
  · simp [executeBarrier, connectors, hprepare, writes]
  · rcases hreader : x.source.snapshotState g.reader with ⟨e | readerState, reader⟩
    · simp [executeBarrier, connectors, hprepare, snapshotBytes_eq, hreader, writes]
    · simp only [executeBarrier, connectors, hprepare, snapshotBytes_eq, hreader]
      split
      · refine ⟨rfl, fun r hr ↦ ?_⟩
        simp only [List.cons_append, List.nil_append, List.mem_cons, reduceCtorEq, Call.report.injEq,
          TaskToDriver.checkpoint.injEq, List.not_mem_nil, or_false, false_or] at hr
        rw [hr]
        exact ⟨_, x.state.fromSlice_toVec _, rfl⟩
      · exact ⟨rfl, by simp⟩

theorem exitBarrier_report {now : ℤ} {terminal : TaskState} :
    writes (exitBarrier (connectors x) now terminal g).2.2 = [] ∧
      ∀ r, .report (.checkpoint r) ∈ (exitBarrier (connectors x) now terminal g).2.2 →
        ∃ state, x.state.fromSlice r.writerState = .ok state := by
  unfold exitBarrier
  split
  · split
    · have hbarrier := @executeBarrier_report _ _ _ _ _ _ x g finalCheckpointId now
      split
      · next heq =>
        rw [heq] at hbarrier
        exact ⟨hbarrier.1, fun r hr ↦ (hbarrier.2 r hr).imp fun _ h ↦ h.1⟩
      · next heq =>
        rw [heq] at hbarrier
        exact ⟨hbarrier.1, fun r hr ↦ (hbarrier.2 r hr).imp fun _ h ↦ h.1⟩
    · split
      · exact ⟨rfl, by simp⟩
      · exact ⟨rfl, by simp⟩
  · exact ⟨rfl, by simp⟩

theorem Step.report {k : Connectors (Row F) Δ Ψ ρ τ (Client (XaSinkWriter F) F D)
      (Client XaSinkCommitter F D)} {g g' : Group F D Ψ ρ τ} {calls : List (Call (Row F))}
    (h : Step k g g' calls) {r : TaskCheckpointReport} (hr : .report (.checkpoint r) ∈ calls) :
    g.pc = .triggers ∨ ∃ terminal, g.pc = .leave terminal := by
  cases h with
  | idle => simp at hr
  | quiet => simp at hr
  | barrier gate n res g' calls hpc => exact .inl hpc
  | event gate e res g' calls pc hpc hgate he hres =>
    exfalso
    have hphase : .report (.checkpoint r) ∉ phaseTwoCalls (R := Row F) e
        { g with context.handle := some gate.pollEvent.2 } := by
      unfold phaseTwoCalls
      split
      · cases e <;> simp [phaseTwo]
      · simp
    rcases hres.calls with rfl | rfl
    · simp [hphase] at hr
    · simp [hphase] at hr
  | interval => simp at hr
  | intervalFailed g' e n res calls hpc hhandle hpc' hcalls =>
    rcases List.mem_cons.mp hr with hr | hr
    · cases hr
    · exact (hcalls _ hr).elim
  | broken g' e calls hpc hpc' hcalls =>
    obtain ⟨row, hrow | hrow⟩ := hcalls _ hr
    · cases hrow
    · cases hrow
  | written => simp at hr
  | leave g₁ g' terminal t' calls hpc => exact .inr ⟨terminal, hpc⟩

theorem taskStep_report {now : ℤ} {r : TaskCheckpointReport}
    (h : .report (.checkpoint r) ∈ (taskStep (connectors x) now g).2) :
    writes (taskStep (connectors x) now g).2 = [] ∧
      ∃ state, x.state.fromSlice r.writerState = .ok state ∧
        (Active (taskStep (connectors x) now g).1.pc →
          state.lastCommittedWindow = (taskStep (connectors x) now g).1.sink.self.lastCommittedWindow) := by
  rcases Step.report (taskStep_cases (connectors x) now g) h with hpc | ⟨terminal, hpc⟩
  · simp only [taskStep, hpc] at h ⊢
    cases hgate : g.context.handle with
    | none => simp [hgate] at h
    | some gate =>
      simp only [hgate] at h ⊢
      cases hn : gate.pendingTrigger with
      | none => simp [takeTriggers, Gate.takeTrigger, hn] at h
      | some n =>
        obtain ⟨tail, htake, hwrites, htail⟩ := @takeTriggers_some _ _ _ _ _ _ x g now gate n hn
        obtain ⟨hnone, hdecodes⟩ := @executeBarrier_report _ _ _ _ _ _ x
          { g with context.handle := some gate.takeTrigger.2 } n now
        rw [htake] at h ⊢
        refine ⟨by rw [writes_append, hnone, hwrites]; rfl, ?_⟩
        rcases List.mem_append.mp h with hbarrier | hrest
        · exact (hdecodes r hbarrier).imp fun state h ↦ ⟨h.1, fun _ ↦ h.2⟩
        · exact absurd rfl (htail _ hrest r)
  · obtain ⟨hnone, hdecodes⟩ := @exitBarrier_report _ _ _ _ _ _ x g now terminal
    simp only [taskStep, hpc, leaveRun] at h ⊢
    refine ⟨?_, ?_⟩
    · rw [writes_append, hnone]
      split
      · rfl
      · rfl
    · rcases List.mem_append.mp h with hexit | hdone
      · exact (hdecodes r hexit).imp fun _ h ↦ ⟨h, fun hactive ↦ hactive.elim⟩
      · split at hdone
        · simp at hdone
        · simp at hdone

end Reports

section Control

@[simp] theorem share_pc (pc : Pc) (g : Group F D Ψ ρ τ) : (share pc g).pc = g.pc := by
  unfold share
  split
  · rfl
  · split
    · rfl
    · rfl

@[simp] theorem share_lastCommitInfos (pc : Pc) (g : Group F D Ψ ρ τ) :
    (share pc g).lastCommitInfos = g.lastCommitInfos := by
  unfold share
  split
  · rfl
  · split
    · rfl
    · rfl

@[simp] theorem share_self (pc : Pc) (g : Group F D Ψ ρ τ) : (share pc g).sink.self = g.sink.self := by
  unfold share
  split
  · rfl
  · split
    · rfl
    · rfl

theorem pollOnce_pc (now : ℤ) (g : Group F D Ψ ρ τ) : (pollOnce (connectors x) now g).1.pc ≠ .start := by
  unfold pollOnce
  split
  · simp
  · split
    · simp
    · dsimp only
      split
      · simp
      · split
        · simp
        · simp
  · split
    · simp
    · split
      · simp
      · split
        · simp
        · simp
  · split
    · simp
    · simp
  · simp

theorem takeTriggers_pc (now : ℤ) (gate : Gate) (hpc : g.pc = .triggers) :
    (takeTriggers (connectors x) now gate g).1.pc ≠ .start := by
  cases hn : gate.pendingTrigger with
  | none => simp [takeTriggers, Gate.takeTrigger, hn]
  | some n =>
    obtain ⟨tail, htake, -, -⟩ := @takeTriggers_some _ _ _ _ _ _ x g now gate n hn
    obtain ⟨-, -, hsame⟩ := @executeBarrier_same _ _ _ _ _ _ x n now
      { g with context.handle := some gate.takeTrigger.2 }
    rw [htake, hsame]
    simp [hpc]

theorem takeEvents_pc (gate : Gate) (hpc : g.pc = .events) :
    (takeEvents (connectors x) gate g).1.pc ≠ .start := by
  cases he : gate.pendingEvents.head? with
  | none => simp [takeEvents, Gate.pollEvent, he]
  | some e =>
    have hr := handleCheckpointEvent_spec (connectors x) e { g with context.handle := some gate.pollEvent.2 }
    rw [takeEvents_some he]
    split
    · next heq =>
      rw [heq] at hr
      rw [hr.pc]
      simp [hpc]
    · simp

theorem taskStep_pc (now : ℤ) (g : Group F D Ψ ρ τ) : (taskStep (connectors x) now g).1.pc ≠ .start := by
  cases hpc : g.pc with
  | start =>
    simp only [taskStep, hpc]
    split
    · simp
    · split
      · simp
      · simp
  | loopTop =>
    simp only [taskStep, hpc]
    split
    · simp
    · split
      · simp
      · simp
  | triggers =>
    simp only [taskStep, hpc]
    split
    · simp
    · next gate _ => exact takeTriggers_pc now gate hpc
  | events =>
    simp only [taskStep, hpc]
    split
    · simp
    · next gate _ => exact takeEvents_pc gate hpc
  | interval =>
    simp only [taskStep, hpc]
    split
    · simp
    · simp
    · simp
  | poll =>
    simp only [taskStep, hpc]
    exact pollOnce_pc now g
  | leave terminal => simp [taskStep, hpc, leaveRun]
  | returned r => simp [taskStep, hpc]

end Control

end SeaTunnel.Jdbc.XaTaskSteps
