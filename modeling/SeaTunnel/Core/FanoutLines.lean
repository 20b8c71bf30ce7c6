import SeaTunnel.Core.FanoutSteps

namespace SeaTunnel.Core.FanoutLines

open Signaling Fanout FanoutSinkWriter FanoutSteps Lib Lib.Runs

variable {R Δ σ : Type} {N : ℕ} {f f' : FanoutSinkWriter N R Δ σ} {h events : List (Event N R Δ)}

section LineSteps

inductive LineStep (n : ℕ) (a b : SinkHandle R Δ σ) : List (Post R Δ) → List (Post R Δ × Outcome Reply) → Prop
  | same (hsame : SameLine a b) : LineStep n a b [] []
  | posted (command : SinkCommand R Δ) (hopen : a.worker.gone = false) (hworker : b.worker = a.worker)
      (hqueue : b.queue = a.queue ++ [⟨n, command⟩]) (hanswers : b.answers = a.answers) :
      LineStep n a b [⟨n, command⟩] []
  | taken (p : Post R Δ) (hopen : a.worker = .waiting) (hqueue : a.queue = p :: b.queue)
      (hworker : b.worker = .busy p) (hanswers : b.answers = a.answers) : LineStep n a b [] []
  | performed (p : Post R Δ) (outcome : Outcome Reply) (hbusy : a.worker = .busy p)
      (hgone : b.worker.gone = true ↔ Kills (p, outcome)) (hhand : inHand b.worker = [])
      (hqueue : b.worker.gone = false → b.queue = a.queue)
      (hanswers : b.answers = a.answers ∨
        ∃ result, b.answers = a.answers.insert p.serial result ∧ outcome = outcomeOf result) :
      LineStep n a b [] [(p, outcome)]
  | left (hopen : a.worker = .waiting) (hgone : b.worker.gone = true) (hanswers : b.answers = a.answers) :
      LineStep n a b [] []

structure LinesStep (f f' : FanoutSinkWriter N R Δ σ) (events : List (Event N R Δ)) : Prop where
  lines : ∀ s, LineStep f.nextSerial (f.handles s) (f'.handles s) (postedTo s events) (performedBy s events)
  serial : f.nextSerial ≤ f'.nextSerial
  fresh : ∀ s p, .posted s p ∈ events → f'.nextSerial = f.nextSerial + 1

theorem LinesStep.quiet (hlines : ∀ s, SameLine (f.handles s) (f'.handles s))
    (hserial : f.nextSerial ≤ f'.nextSerial) (hevents : ∀ e ∈ events, IsQuiet e) : LinesStep f f' events where
  lines := by
    intro s
    rw [postedTo_quiet hevents, performedBy_quiet hevents]
    exact .same (hlines s)
  serial := hserial
  fresh := fun s p hp ↦ (hevents _ hp).elim

theorem linesStep_post (s : Fin N) (command : SinkCommand R Δ) (hopen : (f.handles s).worker.gone = false)
    (pc : Pc N R Δ) :
    LinesStep f ((f.post s command).used.go pc) [.posted s ⟨f.nextSerial, command⟩] where
  lines := by
    intro t
    by_cases hts : t = s
    · subst hts
      have hposted : postedTo t [Event.posted (N := N) t ⟨f.nextSerial, command⟩] = [⟨f.nextSerial, command⟩] := by
        simp [postedTo]
      rw [hposted]
      exact .posted command hopen (by simp [post]) (by simp [post]) (by simp [post])
    · have hposted : postedTo t [Event.posted (N := N) s ⟨f.nextSerial, command⟩] = [] := by
        simp [postedTo, Ne.symm hts]
      rw [hposted]
      refine .same ?_
      simpa [post, hts] using SameLine.refl (f.handles t)
  serial := Nat.le_succ _
  fresh := fun _ _ _ ↦ rfl

theorem linesStep_marks {s : Fin N} {r : Option String × Result N R Δ σ} (hmarks : Marks s f r)
    (g : FanoutSinkWriter N R Δ σ) (tail : List (Event N R Δ)) (hg : g.handles = r.2.1.handles)
    (hserial : f.nextSerial ≤ g.nextSerial) (htail : ∀ e ∈ tail, IsQuiet e) : LinesStep f g (r.2.2 ++ tail) := by
  refine .quiet (fun t ↦ ?_) hserial fun e he ↦ ?_
  · rw [hg]
    exact hmarks.same t
  · rcases List.mem_append.mp he with he | he
    · rcases hmarks.events with ⟨hnil, -⟩ | ⟨reason, hone⟩
      · simp [hnil] at he
      · rw [hone, List.mem_singleton] at he
        rw [he]
        trivial
    · exact htail e he

theorem endCall_quiet (call : SinkCommand R Δ) (posts : List (Fin N × ℕ)) (result : Except String Reply) :
    (f.endCall call posts result).1.handles = f.handles ∧
      (f.endCall call posts result).1.nextSerial = f.nextSerial ∧
      ∀ e ∈ (f.endCall call posts result).2, IsQuiet e := by
  cases call <;> simp [endCall, IsQuiet]

theorem linesStep_same (hhandles : f'.handles = f.handles) (hserial : f'.nextSerial = f.nextSerial)
    (hevents : ∀ e ∈ events, IsQuiet e) : LinesStep f f' events :=
  .quiet (fun s ↦ by rw [hhandles]; exact .refl _) (by rw [hserial]) hevents

theorem linesStep_endCall {s : Fin N} {r : Option String × Result N R Δ σ} (hmarks : Marks s f r)
    (g : FanoutSinkWriter N R Δ σ) (hg : g.handles = r.2.1.handles) (hserial : f.nextSerial ≤ g.nextSerial)
    (call : SinkCommand R Δ) (posts : List (Fin N × ℕ)) (result : Except String Reply) :
    LinesStep f (g.endCall call posts result).1 (r.2.2 ++ (g.endCall call posts result).2) := by
  obtain ⟨hhandles, hsame, hquiet⟩ := @endCall_quiet _ _ _ _ g call posts result
  exact linesStep_marks hmarks _ _ (hhandles.trans hg) (hsame ▸ hserial) hquiet

theorem linesStep_sends {call : SinkCommand R Δ} {s : Fin N} {posts : List (Fin N × ℕ)} {pc : Pc N R Δ}
    {r : Result N R Δ σ} (hsends : Sends f call s posts pc r) : LinesStep f r.1 r.2 := by
  cases hsends with
  | panicked => exact .quiet (fun _ ↦ ⟨rfl, rfl, rfl, rfl⟩) le_rfl (by simp)
  | waits => exact linesStep_same rfl rfl (by simp)
  | sent hopen => exact linesStep_post s call hopen pc
  | lost g events hmarks =>
    have hserial : g.nextSerial = f.nextSerial := hmarks.serial
    have hlines := linesStep_marks hmarks (g.used.go pc) [] rfl (by simp [hserial]) (by simp)
    simpa using hlines
  | ended e g events hmarks =>
    have hserial : g.nextSerial = f.nextSerial := hmarks.serial
    exact linesStep_endCall hmarks g.used rfl (by simp [hserial]) call _ _

theorem ackStep_lines {call : SinkCommand R Δ} {posts acks : List (Fin N × ℕ)} {s : Fin N} {n : ℕ}
    {results : List Reply} {lockFree timedOut : Bool} :
    LinesStep f (f.ackStep call posts s n acks results lockFree timedOut).1
      (f.ackStep call posts s n acks results lockFree timedOut).2 := by
  unfold ackStep
  split
  · exact linesStep_same rfl rfl (by simp)
  · exact linesStep_same rfl rfl (by simp)
  · next g events hack =>
    have hmarks := ackResult_marks hack
    have hserial : g.nextSerial = f.nextSerial := hmarks.serial
    have hlines := linesStep_marks hmarks (g.go (.awaiting call posts acks results)) [] rfl (by simp [hserial]) (by simp)
    simpa using hlines
  · next e g events hack =>
    have hmarks := ackResult_marks hack
    have hserial : g.nextSerial = f.nextSerial := hmarks.serial
    exact linesStep_endCall hmarks g rfl (by simp [hserial]) call posts _

theorem spawn_sameLine (a : SinkHandle R Δ σ) (hfresh : a.tx = false → a.worker = .unborn) :
    SameLine a (spawn a) := by
  unfold spawn
  split
  · exact .refl a
  · next htx =>
    have hunborn := hfresh (by simpa using htx)
    exact ⟨by simp [hunborn, inHand], by simp [hunborn, Worker.gone], rfl, rfl⟩

theorem callStep_lines (call : SinkCommand R Δ) : LinesStep f (f.callStep call).1 (f.callStep call).2 := by
  unfold callStep
  split
  · split
    · exact .quiet (fun _ ↦ ⟨rfl, rfl, rfl, rfl⟩) le_rfl (by simp [IsQuiet])
    · next hfresh =>
      refine .quiet (fun s ↦ spawn_sameLine _ fun htx ↦ ?_) le_rfl (by simp [IsQuiet])
      have hunspawned : ¬ (f.handles s).worker.spawned := fun hspawned ↦ hfresh ⟨s, htx, hspawned⟩
      cases hworker : (f.handles s).worker with
      | unborn => rfl
      | _ => simp [hworker, Worker.spawned] at hunspawned
  · split
    · exact linesStep_same rfl rfl (by simp [IsQuiet])
    · exact linesStep_same rfl rfl (by simp [IsQuiet])
  · exact linesStep_same rfl rfl (by simp [IsQuiet])

theorem linesStep_update {s : Fin N} {a : SinkHandle R Δ σ} (hhandles : f'.handles = (f.update s a).handles)
    (hsame : SameLine (f.handles s) a) (hserial : f'.nextSerial = f.nextSerial)
    (hevents : ∀ e ∈ events, IsQuiet e) : LinesStep f f' events := by
  refine .quiet (fun t ↦ ?_) (by rw [hserial]) hevents
  rw [hhandles]
  by_cases hts : t = s
  · subst hts
    simpa using hsame
  · simpa [hts] using SameLine.refl (f.handles t)

theorem joinStep_lines {s : Fin N} {todo : List (Fin N)} :
    LinesStep f (f.joinStep s todo).1 (f.joinStep s todo).2 := by
  unfold joinStep
  split
  · exact linesStep_update rfl ⟨rfl, rfl, rfl, rfl⟩ rfl (by simp)
  · split
    all_goals exact linesStep_same rfl rfl (by simp)

theorem muxStep_lines (json : Serde) (lockFree timedOut : Bool) (f : FanoutSinkWriter N R Δ σ) :
    LinesStep f (f.muxStep json lockFree timedOut).1 (f.muxStep json lockFree timedOut).2 := by
  unfold muxStep
  split
  · exact linesStep_same rfl rfl (by simp)
  · exact linesStep_same rfl rfl (by simp)
  · exact linesStep_sends (sendStep_sends _)
  · exact linesStep_same rfl rfl (by simp)
  · exact ackStep_lines
  · next call posts results _ =>
    obtain ⟨hhandles, hserial, hquiet⟩ :=
      @endCall_quiet _ _ _ _ f call posts (.ok (f.broadcastResult json call results))
    exact linesStep_same hhandles hserial hquiet
  · exact linesStep_sends (writeStep_sends _ _)
  · exact linesStep_same rfl rfl (by simp [IsQuiet])
  · exact joinStep_lines
  · exact linesStep_same rfl rfl (by simp [IsQuiet])

theorem linesStep_task {s : Fin N} {a : SinkHandle R Δ σ} {done : List (Post R Δ × Outcome Reply)}
    (hhandles : f'.handles = (f.update s a).handles) (hline : LineStep f.nextSerial (f.handles s) a [] done)
    (hserial : f'.nextSerial = f.nextSerial) (hposts : ∀ t p, .posted t p ∉ events)
    (hdone : performedBy s events = done) (hothers : ∀ t, t ≠ s → performedBy t events = []) :
    LinesStep f f' events where
  lines := by
    intro t
    have hnone : postedTo t events = [] := by
      refine List.eq_nil_iff_forall_not_mem.mpr fun p hp ↦ ?_
      exact hposts t p (mem_postedTo.mp hp)
    rw [hnone, hhandles]
    by_cases hts : t = s
    · subst hts
      rw [hdone]
      simpa using hline
    · rw [hothers t hts]
      refine .same ?_
      simpa [hts] using SameLine.refl (f.handles t)
  serial := by rw [hserial]
  fresh := fun t p hp ↦ absurd hp (hposts t p)

theorem recvStep_lines (s : Fin N) : LinesStep f (f.recvStep s) [] := by
  unfold recvStep
  dsimp only
  split
  · next p queue hworker hqueue =>
    exact linesStep_task rfl (.taken p hworker hqueue rfl rfl) rfl (by simp) rfl fun _ _ ↦ rfl
  · next hworker hqueue =>
    split
    · exact linesStep_same rfl rfl (by simp)
    · exact linesStep_task rfl (.left hworker rfl rfl) rfl (by simp) rfl fun _ _ ↦ rfl
  · exact linesStep_same rfl rfl (by simp)

theorem afterCommand_line (n : ℕ) (p : Post R Δ) (outcome : Outcome Reply) (a : SinkHandle R Δ σ) (writer : σ)
    (hbusy : a.worker = .busy p) :
    LineStep n a (afterCommand p outcome { a with writer }) [] [(p, outcome)] := by
  unfold afterCommand
  split
  · exact .performed p _ hbusy (by simp [Kills, Worker.gone]) rfl (by simp [Worker.gone]) (.inl rfl)
  · next reply =>
    split
    · next hcommand =>
      exact .performed p _ hbusy (by simp [Kills, Worker.gone, hcommand]) rfl (fun _ ↦ rfl) (.inl rfl)
    · next hcommand =>
      exact .performed p _ hbusy (by simp [Kills, Worker.gone, hcommand, exit]) rfl (by simp [Worker.gone, exit])
        (.inr ⟨.ok reply, rfl, rfl⟩)
    · next hwrite hclose =>
      refine .performed p _ hbusy ?_ rfl (fun _ ↦ rfl) (.inr ⟨.ok reply, rfl, rfl⟩)
      simpa [Kills, Worker.gone, answer] using hclose
  · next e =>
    split
    · next row hcommand =>
      exact .performed p _ hbusy (by simp [Kills, Worker.gone, hcommand, exit]) rfl (by simp [Worker.gone, exit])
        (.inl rfl)
    · next hcommand =>
      exact .performed p _ hbusy (by simp [Kills, Worker.gone, hcommand, exit]) rfl (by simp [Worker.gone, exit])
        (.inr ⟨.error e, rfl, rfl⟩)
    · next hwrite hclose =>
      refine .performed p _ hbusy ?_ rfl (fun _ ↦ rfl) (.inr ⟨.error e, rfl, rfl⟩)
      simpa [Kills, Worker.gone, answer] using ⟨hwrite, hclose⟩

theorem performStep_lines (k : InnerWriter R Δ σ) (s : Fin N) :
    LinesStep f (f.performStep k s).1 (f.performStep k s).2 := by
  unfold performStep
  dsimp only
  split
  · next p hworker =>
    refine linesStep_task rfl (afterCommand_line _ p _ _ _ hworker) rfl (by simp) (by simp [performedBy]) ?_
    intro t hts
    simp [performedBy, Ne.symm hts]
  · next message hworker =>
    refine linesStep_update rfl ?_ rfl (by simp)
    exact ⟨by simp [hworker, inHand], by simp [hworker, Worker.gone], rfl, rfl⟩
  · exact linesStep_same rfl rfl (by simp)

theorem tickStep_lines (k : InnerWriter R Δ σ) (s : Fin N) :
    LinesStep f (f.tickStep k s).1 (f.tickStep k s).2 := by
  unfold tickStep
  dsimp only
  split
  · next hworker _ _ =>
    split
    · exact linesStep_update rfl ⟨rfl, rfl, rfl, rfl⟩ rfl (by simp [IsQuiet])
    · exact linesStep_task rfl (.left hworker rfl rfl) rfl (by simp) rfl fun _ _ ↦ rfl
    · exact linesStep_task rfl (.left hworker rfl rfl) rfl (by simp) rfl fun _ _ ↦ rfl
  · exact linesStep_same rfl rfl (by simp)

theorem machine_lines (k : InnerWriter R Δ σ) (json : Serde) (f : FanoutSinkWriter N R Δ σ) (i : Input N R Δ) :
    LinesStep f ((machine k json).next f i) ((machine k json).emit f i) := by
  cases i with
  | call call =>
    rcases machine_call k json call f with ⟨-, hstep⟩ | ⟨-, hstep⟩
    · simp only [Machine.next, Machine.emit, hstep]
      exact callStep_lines call
    · simp only [Machine.next, Machine.emit, hstep]
      exact linesStep_same rfl rfl (by simp)
  | mux lockFree timedOut => exact muxStep_lines json lockFree timedOut f
  | recv s => exact recvStep_lines s
  | perform s => exact performStep_lines k s
  | tick s => exact tickStep_lines k s

end LineSteps

section Line

variable {sent posts : List (Post R Δ)} {done more : List (Post R Δ × Outcome Reply)} {a b : SinkHandle R Δ σ}

structure Line (sent : List (Post R Δ)) (done : List (Post R Δ × Outcome Reply)) (a : SinkHandle R Δ σ) : Prop where
  order : a.worker.gone = false → done.map Prod.fst ++ inHand a.worker ++ a.queue = sent
  started : done.map Prod.fst <+: sent
  answers : ∀ n result, a.answers.lookup n = some result → ∃ p, p.serial = n ∧ (p, outcomeOf result) ∈ done
  steady : a.worker.gone = false → ∀ x ∈ done, ¬ Kills x
  final : done.Pairwise fun x _ ↦ ¬ Kills x

theorem Line.init (name : String) (writer : σ) : Line (R := R) (Δ := Δ) [] [] { name, writer } :=
  ⟨fun _ ↦ rfl, List.prefix_rfl, fun n result hresult ↦ by simp at hresult, by simp, .nil⟩

theorem Line.same (hline : Line sent done a) (hsame : SameLine a b) : Line sent done b where
  order := by
    rw [hsame.gone, hsame.hand, hsame.queue]
    exact hline.order
  started := hline.started
  answers := by
    rw [hsame.answers]
    exact hline.answers
  steady := by
    rw [hsame.gone]
    exact hline.steady
  final := hline.final

theorem Line.perform {p : Post R Δ} {outcome : Outcome Reply} (hline : Line sent done a) (hbusy : a.worker = .busy p)
    (hgone : b.worker.gone = true ↔ Kills (p, outcome)) (hhand : inHand b.worker = [])
    (hqueue : b.worker.gone = false → b.queue = a.queue)
    (hanswers : b.answers = a.answers ∨
      ∃ result, b.answers = a.answers.insert p.serial result ∧ outcome = outcomeOf result) :
    Line sent (done ++ [(p, outcome)]) b := by
  have hopen : a.worker.gone = false := by simp [hbusy, Worker.gone]
  have hhere : done.map Prod.fst ++ [p] ++ a.queue = sent := by simpa [hbusy, inHand] using hline.order hopen
  constructor
  · intro hopen'
    simpa [hhand, hqueue hopen'] using hhere
  · rw [List.map_append]
    exact ⟨a.queue, hhere⟩
  · intro n result hresult
    have hold : a.answers.lookup n = some result → ∃ q, q.serial = n ∧ (q, outcomeOf result) ∈ done ++ [(p, outcome)] := by
      intro hlookup
      obtain ⟨q, hq, hmem⟩ := hline.answers n result hlookup
      exact ⟨q, hq, List.mem_append_left _ hmem⟩
    rcases hanswers with hsame | ⟨result', hinsert, rfl⟩
    · exact hold (hsame ▸ hresult)
    · rw [hinsert] at hresult
      by_cases hn : n = p.serial
      · subst hn
        rw [AList.lookup_insert, Option.some.injEq] at hresult
        exact ⟨p, rfl, by simp [hresult]⟩
      · rw [AList.lookup_insert_ne hn] at hresult
        exact hold hresult
  · intro hopen' x hx
    rcases List.mem_append.mp hx with hx | hx
    · exact hline.steady hopen x hx
    · rw [List.mem_singleton.mp hx, ← hgone, hopen']
      exact Bool.false_ne_true
  · refine List.pairwise_append.mpr ⟨hline.final, List.pairwise_singleton _ _, fun x hx y _ ↦ ?_⟩
    exact hline.steady hopen x hx

theorem Line.step {n : ℕ} (hline : Line sent done a) (hstep : LineStep n a b posts more) :
    Line (sent ++ posts) (done ++ more) b := by
  cases hstep with
  | same hsame => simpa using hline.same hsame
  | posted command hopen hworker hqueue hanswers =>
    rw [List.append_nil]
    refine ⟨fun _ ↦ ?_, hline.started.trans (List.prefix_append _ _), ?_, ?_, hline.final⟩
    · rw [hworker, hqueue, ← List.append_assoc, hline.order hopen]
    · rw [hanswers]
      exact hline.answers
    · rw [hworker]
      exact hline.steady
  | taken p hopen hqueue hworker hanswers =>
    have hwas : a.worker.gone = false := by simp [hopen, Worker.gone]
    rw [List.append_nil, List.append_nil]
    refine ⟨fun _ ↦ ?_, hline.started, ?_, fun _ ↦ hline.steady hwas, hline.final⟩
    · have hhere := hline.order hwas
      simpa [hopen, inHand, hworker, hqueue] using hhere
    · rw [hanswers]
      exact hline.answers
  | performed p outcome hbusy hgone hhand hqueue hanswers =>
    rw [List.append_nil]
    exact hline.perform hbusy hgone hhand hqueue hanswers
  | left hopen hgone hanswers =>
    rw [List.append_nil, List.append_nil]
    refine ⟨by simp [hgone], hline.started, ?_, by simp [hgone], hline.final⟩
    rw [hanswers]
    exact hline.answers

end Line

structure LinesInv (h : List (Event N R Δ)) (f : FanoutSinkWriter N R Δ σ) : Prop where
  line : ∀ s, Line (postedTo s h) (performedBy s h) (f.handles s)
  serials : ∀ s, (postedTo s h).Pairwise fun p q ↦ p.serial < q.serial
  bound : ∀ s p, .posted s p ∈ h → p.serial < f.nextSerial

theorem linesInv_init (names : Fin N → String) (writers : Fin N → σ) (policy : SinkFailurePolicy)
    (ackTimeout : String) : LinesInv (R := R) (Δ := Δ) [] (withAckTimeout names writers policy ackTimeout) :=
  ⟨fun s ↦ .init _ _, fun _ ↦ .nil, by simp⟩

theorem LinesInv.step {f' : FanoutSinkWriter N R Δ σ} {events : List (Event N R Δ)} (hi : LinesInv h f)
    (hstep : LinesStep f f' events) : LinesInv (h ++ events) f' := by
  have hposts : ∀ s, postedTo s events = [] ∨ ∃ command, postedTo s events = [⟨f.nextSerial, command⟩] := by
    intro s
    have hline := hstep.lines s
    generalize postedTo s events = posts, performedBy s events = done at hline
    cases hline with
    | posted command => exact .inr ⟨command, rfl⟩
    | _ => exact .inl rfl
  constructor
  · intro s
    rw [postedTo_append, performedBy_append]
    exact (hi.line s).step (hstep.lines s)
  · intro s
    rw [postedTo_append]
    rcases hposts s with hnone | ⟨command, hone⟩
    · rw [hnone, List.append_nil]
      exact hi.serials s
    · rw [hone]
      refine List.pairwise_append.mpr ⟨hi.serials s, List.pairwise_singleton _ _, fun p hp q hq ↦ ?_⟩
      rw [List.mem_singleton.mp hq]
      exact hi.bound s p (mem_postedTo.mp hp)
  · intro s p hp
    rcases List.mem_append.mp hp with hp | hp
    · exact (hi.bound s p hp).trans_le hstep.serial
    · rw [hstep.fresh s p hp]
      rcases hposts s with hnone | ⟨command, hone⟩
      · have hmem := mem_postedTo.mpr hp
        simp [hnone] at hmem
      · have hmem := mem_postedTo.mpr hp
        rw [hone, List.mem_singleton] at hmem
        rw [hmem]
        exact Nat.lt_succ_self _

theorem linesInv_step (k : InnerWriter R Δ σ) (json : Serde) (h : List (Event N R Δ)) (f : FanoutSinkWriter N R Δ σ)
    (i : Input N R Δ) (hi : LinesInv h f) :
    LinesInv (h ++ (machine k json).emit f i) ((machine k json).next f i) :=
  hi.step (machine_lines k json f i)

section Consequences

variable {s : Fin N} {p q : Post R Δ} {outcome : Outcome Reply}

theorem LinesInv.posted_of_performed (hi : LinesInv h f) (hperformed : .performed s p outcome ∈ h) :
    .posted s p ∈ h := by
  have hmem : p ∈ (performedBy s h).map Prod.fst := List.mem_map.mpr ⟨_, mem_performedBy.mpr hperformed, rfl⟩
  exact mem_postedTo.mp ((hi.line s).started.subset hmem)

theorem LinesInv.serial_inj (hi : LinesInv h f) (hp : .posted s p ∈ h) (hq : .posted s q ∈ h)
    (heq : p.serial = q.serial) : p = q := by
  by_contra hne
  have hsym : Std.Symm fun p q : Post R Δ ↦ p.serial ≠ q.serial := ⟨fun _ _ ↦ Ne.symm⟩
  have hdistinct : (postedTo s h).Pairwise fun p q ↦ p.serial ≠ q.serial := (hi.serials s).imp fun hlt ↦ hlt.ne
  exact hdistinct.forall (mem_postedTo.mpr hp) (mem_postedTo.mpr hq) hne heq

theorem LinesInv.performed_of_answer (hi : LinesInv h f) {n : ℕ} {command : SinkCommand R Δ} {reply : Reply}
    (hposted : .posted s ⟨n, command⟩ ∈ h) (hanswer : (f.handles s).answers.lookup n = some (.ok reply)) :
    .performed s ⟨n, command⟩ (.ok reply) ∈ h := by
  obtain ⟨p, hserial, hmem⟩ := (hi.line s).answers n _ hanswer
  have hperformed := mem_performedBy.mp hmem
  have hsame := hi.serial_inj (hi.posted_of_performed hperformed) hposted hserial
  rw [← hsame]
  exact hperformed

theorem LinesInv.performed_before (hi : LinesInv h f) (hp : .posted s p ∈ h) (hlt : p.serial < q.serial)
    (hperformed : .performed s q outcome ∈ h) : ∃ o, .performed s p o ∈ h ∧ ¬ Kills (p, o) := by
  obtain ⟨rest, hsplit⟩ := (hi.line s).started
  obtain ⟨front, back, hdone⟩ := List.append_of_mem (mem_performedBy.mpr hperformed)
  have hserials := hi.serials s
  have hmem := mem_postedTo.mpr hp
  rw [← hsplit, hdone] at hserials hmem
  simp only [List.map_append, List.map_cons, List.append_assoc, List.cons_append] at hserials hmem
  have hlater := (List.pairwise_cons.mp (List.pairwise_append.mp hserials).2.1).1
  have hfront : p ∈ front.map Prod.fst := by
    rcases List.mem_append.mp hmem with hmem | hmem
    · exact hmem
    · rcases List.mem_cons.mp hmem with rfl | hmem
      · exact absurd hlt (Nat.lt_irrefl _)
      · exact absurd (hlater p hmem) (Nat.lt_asymm hlt)
  obtain ⟨⟨p', o⟩, hx, rfl⟩ := List.mem_map.mp hfront
  have hfinal := (hi.line s).final
  rw [hdone] at hfinal
  refine ⟨o, mem_performedBy.mp (by simp [hdone, hx]), ?_⟩
  exact (List.pairwise_append.mp hfinal).2.2 _ hx (q, outcome) List.mem_cons_self

end Consequences

end SeaTunnel.Core.FanoutLines
