import SeaTunnel.Core.FanoutCoverage

namespace SeaTunnel.Core.FanoutFailures

open Signaling Fanout FanoutSinkWriter FanoutSteps FanoutLines FanoutAcks Lib Lib.Runs

variable {R Δ σ : Type} {N : ℕ} {f f' : FanoutSinkWriter N R Δ σ} {h events : List (Event N R Δ)}
variable {json : Serde}

section Property

def IsFailed {α : Type} : Outcome α → Prop
  | .ok _ => False
  | _ => True

/-- A sink has failed: its writer, its idle flush, or the wait for it. -/
def IsFailure : Event N R Δ → Prop
  | .performed _ _ outcome => IsFailed outcome
  | .flushed _ outcome => IsFailed outcome
  | .markedDead _ _ => True
  | _ => False

def IsWriteOrPrepare : SinkCommand R Δ → Bool
  | .write _ | .prepareCommit _ => true
  | _ => false

/-- A `write` or a `prepare_commit` succeeds only when no sink had failed before it was called. -/
def Sticky (h : List (Event N R Δ)) : Event N R Δ → Prop
  | .returned c _ (.ok _) => IsWriteOrPrepare c → ∀ before after, h = before ++ .called c :: after →
      (∀ c', .called c' ∉ after) → ∀ e ∈ before, ¬ IsFailure e
  | _ => True

def EndsWell (i : Input N R Δ) (f : FanoutSinkWriter N R Δ σ) : Bool :=
  match i, f.pc with
  | .mux _ _, .awaiting call _ [] _ => IsWriteOrPrepare call
  | .mux _ _, .writing _ last [] _ => !(f.handles last).dead
  | _, _ => false

/-- No sink is given up when a call ends well. -/
def NoneDead (_ : List (Event N R Δ)) (f : FanoutSinkWriter N R Δ σ) (i : Input N R Δ) : Prop :=
  EndsWell i f → ∀ s, ¬ IsDead f s

instance (h : List (Event N R Δ)) (f : FanoutSinkWriter N R Δ σ) (i : Input N R Δ) : Decidable (NoneDead h f i) :=
  inferInstanceAs (Decidable (_ → _))

end Property

section Lines

variable {a b : SinkHandle R Δ σ} {n : ℕ} {posts : List (Post R Δ)} {done : List (Post R Δ × Outcome Reply)}

def onLine (a : SinkHandle R Δ σ) : List (Post R Δ) := inHand a.worker ++ a.queue

theorem LineStep.gone (hstep : LineStep n a b posts done) (hgone : a.worker.gone = true) : b.worker.gone = true := by
  cases hstep with
  | same hsame => rw [hsame.gone, hgone]
  | posted command hopen => rw [hgone] at hopen; cases hopen
  | taken p hopen => rw [hopen] at hgone; cases hgone
  | performed p outcome hbusy => rw [hbusy] at hgone; cases hgone
  | left hopen hleft => exact hleft

theorem LineStep.onLine (hstep : LineStep n a b posts done) (hopen : b.worker.gone = false) {p : Post R Δ}
    (hp : p ∈ onLine b) : p ∈ FanoutFailures.onLine a ∨ p ∈ posts := by
  unfold FanoutFailures.onLine at hp ⊢
  cases hstep with
  | same hsame => exact .inl (by rwa [← hsame.hand, ← hsame.queue])
  | posted command _ hworker hqueue _ =>
    rw [hworker, hqueue, ← List.append_assoc, List.mem_append] at hp
    exact hp
  | taken q hwaiting hqueue hworker _ =>
    rw [hworker] at hp
    rw [hwaiting, hqueue]
    exact .inl hp
  | performed q outcome hbusy hgone hhand hqueue hanswers =>
    rw [hhand, hqueue hopen] at hp
    exact .inl (List.mem_append_right _ hp)
  | left hwaiting hgone _ =>
    rw [hgone] at hopen
    cases hopen

theorem LinesInv.performed_off {s : Fin N} {p q : Post R Δ} {outcome : Outcome Reply} (hi : LinesInv h f)
    (hopen : (f.handles s).worker.gone = false) (hp : p ∈ onLine (f.handles s))
    (hq : .performed s q outcome ∈ h) : p.serial ≠ q.serial := by
  have hserials := hi.serials s
  rw [← (hi.line s).order hopen, List.append_assoc] at hserials
  have hdone : q ∈ (performedBy s h).map Prod.fst := List.mem_map.mpr ⟨_, mem_performedBy.mpr hq, rfl⟩
  exact ((List.pairwise_append.mp hserials).2.2 q hdone p hp).ne'

theorem LinesInv.performed_inj {s : Fin N} {p q : Post R Δ} {o o' : Outcome Reply} (hi : LinesInv h f)
    (hp : .performed s p o ∈ h) (hq : .performed s q o' ∈ h) (hserial : p.serial = q.serial) : o = o' := by
  have hdone : ((performedBy s h).map Prod.fst).Pairwise fun p q ↦ p.serial < q.serial :=
    (hi.serials s).sublist (hi.line s).started.sublist
  have hserials := List.pairwise_map.mp hdone
  by_contra hne
  have hsym : Std.Symm fun x y : Post R Δ × Outcome Reply ↦ x.1.serial ≠ y.1.serial := ⟨fun _ _ ↦ Ne.symm⟩
  have hdistinct := hserials.imp fun hlt ↦ Nat.ne_of_lt hlt
  exact hdistinct.forall (mem_performedBy.mpr hp) (mem_performedBy.mpr hq) (fun heq ↦ hne (congrArg Prod.snd heq))
    hserial

end Lines

section Settled

def pendingOf : Pc N R Δ → List (Fin N × ℕ)
  | .awaiting _ _ acks _ => acks
  | pc => postsOf pc

structure Settled (h : List (Event N R Δ)) (f : FanoutSinkWriter N R Δ σ) : Prop where
  onLine : ∀ s p, (f.handles s).worker.gone = false → p ∈ onLine (f.handles s) →
    (∃ row, p.command = .write row) ∨ (s, p.serial) ∈ pendingOf f.pc
  performed : ∀ s p outcome, .performed s p outcome ∈ h → IsFailed outcome →
    (f.handles s).worker.gone = true ∨ (s, p.serial) ∈ pendingOf f.pc
  flushed : ∀ s outcome, .flushed s outcome ∈ h → IsFailed outcome → (f.handles s).worker.gone = true

def Answered (h : List (Event N R Δ)) (s : Fin N) (n : ℕ) : Prop :=
  (∃ c reply, .performed s ⟨n, c⟩ (.ok reply) ∈ h) ∨ ∃ row, .posted s ⟨n, .write row⟩ ∈ h

theorem kills_of_write_failed {p : Post R Δ} {outcome : Outcome Reply} {row : R} (hwrite : p.command = .write row)
    (hfailed : IsFailed outcome) : Kills (p, outcome) := by
  cases outcome with
  | ok reply => exact hfailed.elim
  | err e => exact .inl ⟨row, hwrite⟩
  | panic message => trivial

theorem Settled.gone_of_write (hl : LinesInv h f) {s : Fin N} {p : Post R Δ} {outcome : Outcome Reply} {row : R}
    (hperformed : .performed s p outcome ∈ h) (hwrite : p.command = .write row) (hfailed : IsFailed outcome) :
    (f.handles s).worker.gone = true := by
  by_contra hopen
  have hsteady := (hl.line s).steady (by simpa using hopen) _ (mem_performedBy.mpr hperformed)
  exact hsteady (kills_of_write_failed hwrite hfailed)

theorem Settled.step (hi : Settled h f) (hl : LinesInv h f) (hlines : LinesStep f f' events)
    (hflushed : ∀ s outcome, .flushed s outcome ∈ events → IsFailed outcome → (f'.handles s).worker.gone = true)
    (hposted : ∀ s p, .posted s p ∈ events → (s, p.serial) ∈ pendingOf f'.pc)
    (hpending : ∀ s n, (s, n) ∈ pendingOf f.pc → (s, n) ∈ pendingOf f'.pc ∨ Answered h s n) :
    Settled (h ++ events) f' := by
  have hgone := fun s ↦ LineStep.gone (hlines.lines s)
  -- what is on a line is not answered
  have hwaiting : ∀ s p, (f.handles s).worker.gone = false → p ∈ FanoutFailures.onLine (f.handles s) →
      (∃ row, p.command = .write row) ∨ (s, p.serial) ∈ pendingOf f'.pc := by
    intro s p hopen hp
    rcases hi.onLine s p hopen hp with hrow | hpend
    · exact .inl hrow
    · rcases hpending s p.serial hpend with hpend | ⟨c, reply, hdone⟩ | ⟨row, hsent⟩
      · exact .inr hpend
      · exact (LinesInv.performed_off hl hopen hp hdone rfl).elim
      · have hsent' : .posted s p ∈ h := by
          refine mem_postedTo.mp ?_
          rw [← (hl.line s).order hopen, List.append_assoc]
          exact List.mem_append_right _ hp
        exact .inl ⟨row, congrArg Post.command (hl.serial_inj hsent' hsent rfl)⟩
  constructor
  · intro s p hopen hp
    rcases LineStep.onLine (hlines.lines s) hopen hp with hold | hnew
    · have hwas : (f.handles s).worker.gone = false := by
        by_contra hnot
        rw [hgone s (by simpa using hnot)] at hopen
        cases hopen
      exact hwaiting s p hwas hold
    · exact .inr (hposted s p (mem_postedTo.mp hnew))
  · intro s p outcome hp hfailed
    rcases List.mem_append.mp hp with hp | hp
    · rcases hi.performed s p outcome hp hfailed with hleft | hpend
      · exact .inl (hgone s hleft)
      · rcases hpending s p.serial hpend with hpend | ⟨c, reply, hdone⟩ | ⟨row, hsent⟩
        · exact .inr hpend
        · rw [LinesInv.performed_inj hl hp hdone rfl] at hfailed
          exact hfailed.elim
        · have hwrite := congrArg Post.command (hl.serial_inj (hl.posted_of_performed hp) hsent rfl)
          exact .inl (hgone s (gone_of_write hl hp hwrite hfailed))
    · have hline := hlines.lines s
      have hmem := mem_performedBy.mpr hp
      generalize postedTo s events = posts, performedBy s events = done at hline hmem
      cases hline with
      | performed q o hbusy hkills hhand hqueue hanswers =>
        obtain ⟨rfl, rfl⟩ := by simpa using hmem
        by_cases hkill : Kills (p, outcome)
        · exact .inl (hkills.mpr hkill)
        · have hhere : p ∈ FanoutFailures.onLine (f.handles s) := by simp [FanoutFailures.onLine, hbusy, inHand]
          rcases hwaiting s p (by simp [hbusy, Worker.gone]) hhere with ⟨row, hwrite⟩ | hpend
          · exact absurd (kills_of_write_failed hwrite hfailed) hkill
          · exact .inr hpend
      | _ => cases hmem
  · intro s outcome hp hfailed
    rcases List.mem_append.mp hp with hp | hp
    · exact hgone s (hi.flushed s outcome hp hfailed)
    · exact hflushed s outcome hp hfailed

end Settled

section Calls

def InCall (h : List (Event N R Δ)) (f : FanoutSinkWriter N R Δ σ) (c : SinkCommand R Δ) : Prop :=
  ∃ before after, h = before ++ .called c :: after ∧ (∀ c', .called c' ∉ after) ∧
    (∀ s reason, .markedDead s reason ∉ after) ∧
      ((∀ s, ¬ IsDead f s) → (∃ e ∈ before, IsFailure e) → ∃ s ∈ todoOf f.pc, (f.handles s).worker.gone = true)

structure FailInv (h : List (Event N R Δ)) (f : FanoutSinkWriter N R Δ σ) : Prop where
  acks : AcksInv h f
  policy : f.policy = .fail
  alive : ∀ s n, (s, n) ∈ postsOf f.pc → ¬ IsDead f s
  settled : f.pc ≠ .panicked → (∀ s, ¬ IsDead f s) → Settled h f
  call : ∀ c, callOf f.pc = some c → InCall h f c

theorem failInv_init (names : Fin N → String) (writers : Fin N → σ) (ackTimeout : String) :
    FailInv (R := R) (Δ := Δ) [] (withAckTimeout names writers .fail ackTimeout) where
  acks := acksInv_init names writers .fail ackTimeout
  policy := rfl
  alive := nofun
  settled := fun _ _ ↦ ⟨fun s p _ hp ↦ by simp [onLine, withAckTimeout, inHand] at hp, nofun, nofun⟩
  call := nofun

variable {c : SinkCommand R Δ}

theorem FailInv.not_lost (hi : FailInv h f) {s : Fin N} {todo : List (Fin N)} {posts : List (Fin N × ℕ)}
    (haddress : addressing f.pc = some (c, s :: todo, posts))
    (hpolicy : (f.handles s).dead = false → f.policy = .isolate) : False := by
  have hlive := (hi.acks.addressed _ _ _ haddress).alive s List.mem_cons_self
  have hisolate := hpolicy (by simpa [IsDead] using hlive)
  rw [hi.policy] at hisolate
  cases hisolate

theorem FailInv.ack_alive (hi : FailInv h f) {s : Fin N} {n : ℕ} {posts acks : List (Fin N × ℕ)} {results : List Reply}
    (hpc : f.pc = .awaiting c posts ((s, n) :: acks) results) : (s, n) ∈ posts ∧ ¬ IsDead f s := by
  obtain ⟨done, hsplit, -⟩ := (hi.acks.awaited _ _ _ _ hpc).answered
  have hmem : (s, n) ∈ posts := by simp [hsplit]
  exact ⟨hmem, hi.alive s n (by rw [hpc]; exact hmem)⟩

theorem FailInv.not_missed (hi : FailInv h f) {s : Fin N} {n : ℕ} {posts acks : List (Fin N × ℕ)}
    {results : List Reply} (hpc : f.pc = .awaiting c posts ((s, n) :: acks) results)
    (hpolicy : (f.handles s).dead = false → f.policy = .isolate) : False := by
  have hisolate := hpolicy (by simpa [IsDead] using (hi.ack_alive hpc).2)
  rw [hi.policy] at hisolate
  cases hisolate

theorem alive_step (hi : FailInv h f) (hstep : MuxStep json f f' events) (s : Fin N) (n : ℕ)
    (hn : (s, n) ∈ postsOf f'.pc) : ¬ IsDead f' s := by
  cases hstep with
  | rest events hpc hdead hevents =>
    rw [hdead.iff]
    exact hi.alive s n (hpc ▸ hn)
  | begun call hidle hdead haddress =>
    rw [(addressing_eq haddress).2.2] at hn
    cases hn
  | refused row e hidle halive hf' =>
    subst hf'
    exact hi.alive s n hn
  | sent call t todo posts haddress haddress' hdead hopen =>
    rw [hdead.iff]
    rw [(addressing_eq haddress').2.2] at hn
    rcases List.mem_append.mp hn with hn | hn
    · exact hi.alive s n (by rw [(addressing_eq haddress).2.2]; exact hn)
    · obtain ⟨rfl, -⟩ := by simpa using hn
      exact (hi.acks.addressed _ _ _ haddress).alive s List.mem_cons_self
  | lost events call t todo posts haddress haddress' hdead hpolicy hmarks => exact (hi.not_lost haddress hpolicy).elim
  | collected call posts hpc hpc' hdead =>
    rw [hpc'] at hn
    rw [hdead.iff]
    exact hi.alive s n (by rw [hpc]; exact hn)
  | acked call posts t m acks results reply hpc hpc' hdead hanswer =>
    rw [hpc'] at hn
    rw [hdead.iff]
    exact hi.alive s n (by rw [hpc]; exact hn)
  | missed events call posts t m acks results hpc hpc' hdead hpolicy hmarks => exact (hi.not_missed hpc hpolicy).elim
  | aborted call posts t reason e hcall hclose hpc' hdead hpolicy halive => rw [hpc'] at hn; cases hn
  | finished call posts results hpc hclose hf' => subst hf'; cases hn
  | written row last posts hpc hf' => subst hf'; cases hn
  | closing posts results hpc hpc' hdead => rw [hpc'] at hn; cases hn
  | cutShort t reason hcall hpc' hdead => rw [hpc'] at hn; cases hn
  | joined todo todo' hpc hpc' hdead => rw [hpc'] at hn; cases hn
  | closed hpc hf' => subst hf'; cases hn
  | panicked events hpc' hdead hevents => rw [hpc'] at hn; cases hn

theorem pendingOf_eq {pc : Pc N R Δ} {todo : List (Fin N)} {posts : List (Fin N × ℕ)}
    (haddress : addressing pc = some (c, todo, posts)) : pendingOf pc = posts := by
  rw [← (addressing_eq haddress).2.2]
  cases pc <;> first | rfl | cases haddress

theorem settled_step (hi : FailInv h f) (hstep : MuxStep json f f' events) (hlines : LinesStep f f' events)
    (hflushed : ∀ s outcome, .flushed s outcome ∈ events → IsFailed outcome → (f'.handles s).worker.gone = true)
    (hpanic : f'.pc ≠ .panicked) (hlive : ∀ s, ¬ IsDead f' s) : Settled (h ++ events) f' := by
  have hgo : f.pc ≠ .panicked → (∀ s, ¬ IsDead f s) →
      (∀ s p, .posted s p ∈ events → (s, p.serial) ∈ pendingOf f'.pc) →
      (∀ s n, (s, n) ∈ pendingOf f.pc → (s, n) ∈ pendingOf f'.pc ∨ Answered h s n) → Settled (h ++ events) f' :=
    fun hwas hwasLive ↦ (hi.settled hwas hwasLive).step hi.acks.lines hlines hflushed
  cases hstep with
  | rest events hpc hdead hevents =>
    refine hgo (hpc ▸ hpanic) (fun s ↦ (hdead.iff s).not.mp (hlive s)) (fun s p hp ↦ (hevents _ hp).elim) ?_
    intro s n hn
    rw [hpc]
    exact .inl hn
  | begun call hidle hdead haddress =>
    refine hgo (by simp [hidle]) (fun s ↦ (hdead.iff s).not.mp (hlive s)) (by simp) fun s n hn ↦ ?_
    rw [hidle] at hn
    cases hn
  | refused row e hidle halive hf' =>
    subst hf'
    exact hgo hpanic hlive (by simp) fun s n hn ↦ .inl hn
  | sent call t todo posts haddress haddress' hdead hopen =>
    have hpc : f.pc ≠ .panicked := by
      intro hpc
      rw [hpc] at haddress
      cases haddress
    refine hgo hpc (fun s ↦ (hdead.iff s).not.mp (hlive s)) (fun s p hp ↦ ?_) fun s n hn ↦ .inl ?_
    · obtain ⟨rfl, rfl⟩ := by simpa using hp
      simp [pendingOf_eq haddress']
    · rw [pendingOf_eq haddress] at hn
      rw [pendingOf_eq haddress']
      exact List.mem_append_left _ hn
  | lost events call t todo posts haddress haddress' hdead hpolicy hmarks => exact (hi.not_lost haddress hpolicy).elim
  | collected call posts hpc hpc' hdead =>
    refine hgo (by simp [hpc]) (fun s ↦ (hdead.iff s).not.mp (hlive s)) (by simp) fun s n hn ↦ .inl ?_
    rw [hpc] at hn
    rw [hpc']
    exact hn
  | acked call posts t m acks results reply hpc hpc' hdead hanswer =>
    refine hgo (by simp [hpc]) (fun s ↦ (hdead.iff s).not.mp (hlive s)) (by simp) fun s n hn ↦ ?_
    rw [hpc] at hn
    rw [hpc']
    rcases List.mem_cons.mp hn with hfirst | hrest
    · obtain ⟨rfl, rfl⟩ := by simpa using hfirst
      obtain ⟨hmem, halive⟩ := hi.ack_alive hpc
      have hposted := (hi.acks.awaited _ _ _ _ hpc).posted s n hmem halive
      exact .inr (.inl ⟨call, reply, hi.acks.lines.performed_of_answer hposted hanswer⟩)
    · exact .inl hrest
  | missed events call posts t m acks results hpc hpc' hdead hpolicy hmarks => exact (hi.not_missed hpc hpolicy).elim
  | aborted call posts t reason e hcall hclose hpc' hdead hpolicy halive =>
    exact absurd ((hdead.iff t).mpr (.inr rfl)) (hlive t)
  | finished call posts results hpc hclose hf' =>
    subst hf'
    refine hgo (by simp [hpc]) hlive (by simp) fun s n hn ↦ ?_
    rw [hpc] at hn
    cases hn
  | written row last posts hpc hf' =>
    subst hf'
    refine hgo (by simp [hpc]) hlive (by simp) fun s n hn ↦ ?_
    rw [hpc] at hn
    have haddressed := hi.acks.addressed (.write row) [] posts (by rw [hpc]; rfl)
    exact .inr (.inr ⟨row, haddressed.posted s n hn (hlive s)⟩)
  | closing posts results hpc hpc' hdead =>
    refine hgo (by simp [hpc]) (fun s ↦ (hdead.iff s).not.mp (hlive s)) (by simp) fun s n hn ↦ ?_
    rw [hpc] at hn
    cases hn
  | cutShort t reason hcall hpc' hdead => exact absurd ((hdead.iff t).mpr (.inr rfl)) (hlive t)
  | joined todo todo' hpc hpc' hdead =>
    refine hgo (by simp [hpc]) (fun s ↦ (hdead.iff s).not.mp (hlive s)) (by simp) fun s n hn ↦ ?_
    rw [hpc] at hn
    cases hn
  | closed hpc hf' =>
    subst hf'
    refine hgo (by simp [hpc]) hlive (by simp) fun s n hn ↦ ?_
    rw [hpc] at hn
    cases hn
  | panicked events hpc' hdead hevents => exact absurd hpc' hpanic

theorem FailInv.begun (hi : FailInv h f) (hidle : f.pc = .idle) (hlive : ∀ s, ¬ IsDead f s)
    (hfailure : ∃ e ∈ h, IsFailure e) : ∃ s ∈ f.alive, (f.handles s).worker.gone = true := by
  have hsettled := hi.settled (by simp [hidle]) hlive
  have hnone : ∀ s n, (s, n) ∉ pendingOf f.pc := by simp [hidle, pendingOf, postsOf]
  obtain ⟨e, he, hfailed⟩ := hfailure
  cases e with
  | performed s p outcome =>
    exact ⟨s, mem_alive.mpr (hlive s), (hsettled.performed s p outcome he hfailed).resolve_right (hnone s _)⟩
  | flushed s outcome => exact ⟨s, mem_alive.mpr (hlive s), hsettled.flushed s outcome he hfailed⟩
  | markedDead s reason => exact absurd ((hi.acks.deaths s).mpr ⟨reason, he⟩) (hlive s)
  | _ => exact hfailed.elim

theorem InCall.step (hi : InCall h f c) (hlines : LinesStep f f' events) (hdead : SameDead f f')
    (hcalled : ∀ c', .called c' ∉ events) (hmarked : ∀ s reason, .markedDead s reason ∉ events)
    (htodo : ∀ s ∈ todoOf f.pc, (f.handles s).worker.gone = true → s ∈ todoOf f'.pc) : InCall (h ++ events) f' c := by
  obtain ⟨before, after, rfl, hafter, hnodead, hleft⟩ := hi
  refine ⟨before, after ++ events, by simp, by simp [hafter, hcalled], by simp [hnodead, hmarked], ?_⟩
  intro hlive hfailure
  obtain ⟨s, hs, hgone⟩ := hleft (fun s ↦ (hdead.iff s).not.mp (hlive s)) hfailure
  exact ⟨s, htodo s hs hgone, LineStep.gone (hlines.lines s) hgone⟩

theorem call_step (hi : FailInv h f) (hstep : MuxStep json f f' events) (hlines : LinesStep f f' events)
    (hcall' : callOf f'.pc = some c) : InCall (h ++ events) f' c := by
  cases hstep with
  | rest events hpc hdead hevents =>
    refine (hi.call c (hpc ▸ hcall')).step hlines hdead (fun c' hmem ↦ hevents _ hmem) (fun s r hmem ↦ hevents _ hmem) ?_
    intro s hs _
    rw [hpc]
    exact hs
  | begun call hidle hdead haddress =>
    obtain ⟨hcall, htodo, -⟩ := addressing_eq haddress
    obtain rfl := Option.some.inj (hcall.symm.trans hcall')
    refine ⟨h, [], rfl, by simp, by simp, fun hlive hfailure ↦ ?_⟩
    obtain ⟨s, hs, hgone⟩ := hi.begun hidle (fun s ↦ (hdead.iff s).not.mp (hlive s)) hfailure
    exact ⟨s, htodo.symm ▸ hs, LineStep.gone (hlines.lines s) hgone⟩
  | refused row e hidle halive hf' =>
    subst hf'
    rw [hidle] at hcall'
    cases hcall'
  | sent call t todo posts haddress haddress' hdead hopen =>
    obtain ⟨hcall, htodo, -⟩ := addressing_eq haddress
    obtain ⟨hcall₂, htodo', -⟩ := addressing_eq haddress'
    obtain rfl := Option.some.inj (hcall₂.symm.trans hcall')
    refine (hi.call call hcall).step hlines hdead (by simp) (by simp) fun s hs hgone ↦ ?_
    rw [htodo] at hs
    rw [htodo']
    rcases List.mem_cons.mp hs with rfl | hs
    · rw [hgone] at hopen
      cases hopen
    · exact hs
  | lost events call t todo posts haddress haddress' hdead hpolicy hmarks => exact (hi.not_lost haddress hpolicy).elim
  | collected call posts hpc hpc' hdead =>
    rw [hpc'] at hcall'
    refine (hi.call c (by rw [hpc]; exact hcall')).step hlines hdead (by simp) (by simp) fun s hs _ ↦ ?_
    rw [hpc] at hs
    cases hs
  | acked call posts t m acks results reply hpc hpc' hdead hanswer =>
    rw [hpc'] at hcall'
    refine (hi.call c (by rw [hpc]; exact hcall')).step hlines hdead (by simp) (by simp) fun s hs _ ↦ ?_
    rw [hpc] at hs
    cases hs
  | missed events call posts t m acks results hpc hpc' hdead hpolicy hmarks => exact (hi.not_missed hpc hpolicy).elim
  | aborted call posts t reason e hcall hclose hpc' hdead hpolicy halive => rw [hpc'] at hcall'; cases hcall'
  | finished call posts results hpc hclose hf' => subst hf'; cases hcall'
  | written row last posts hpc hf' => subst hf'; cases hcall'
  | closing posts results hpc hpc' hdead => rw [hpc'] at hcall'; cases hcall'
  | cutShort t reason hcall hpc' hdead => rw [hpc'] at hcall'; cases hcall'
  | joined todo todo' hpc hpc' hdead => rw [hpc'] at hcall'; cases hcall'
  | closed hpc hf' => subst hf'; cases hcall'
  | panicked events hpc' hdead hevents => rw [hpc'] at hcall'; cases hcall'

theorem failInv_step (k : InnerWriter R Δ σ) (json : Serde) (h : List (Event N R Δ)) (f : FanoutSinkWriter N R Δ σ)
    (i : Input N R Δ) (hi : FailInv h f) :
    FailInv (h ++ (machine k json).emit f i) ((machine k json).next f i) where
  acks := acksInv_step k json h f i hi.acks
  policy := (machine_fixed k json f i).policy.trans hi.policy
  alive := alive_step hi (machine_mux k json f i)
  settled := by
    refine settled_step hi (machine_mux k json f i) (machine_lines k json f i) fun s outcome hmem hfailed ↦ ?_
    rcases machine_flushed hmem with rfl | hgone
    · exact hfailed.elim
    · exact hgone
  call := fun _ ↦ call_step hi (machine_mux k json f i) (machine_lines k json f i)

end Calls

section Runs

variable {c : SinkCommand R Δ}

theorem FailInv.sticky (hi : FailInv h f) (hcall : callOf f.pc = some c) (htodo : todoOf f.pc = [])
    (hc : IsWriteOrPrepare c) (posts : List (Fin N × ℕ)) (reply : Reply) :
    Sticky h (.returned c posts (.ok reply)) ↔ ∀ s, ¬ IsDead f s := by
  obtain ⟨before, after, hsplit, hafter, hmarked, hleft⟩ := hi.call c hcall
  constructor
  · intro hsticky s hgone
    obtain ⟨reason, hmem⟩ := (hi.acks.deaths s).mp hgone
    rw [hsplit] at hmem
    rcases List.mem_append.mp hmem with hmem | hmem
    · exact hsticky hc before after hsplit hafter _ hmem trivial
    · exact hmarked s reason ((List.mem_cons.mp hmem).resolve_left nofun)
  · intro hlive _ before' after' hsplit' hafter' e he hfailed
    obtain rfl := Text.append_cons_inj_left (hafter c) (hafter' c) (hsplit.symm.trans hsplit')
    obtain ⟨s, hs, -⟩ := hleft hlive ⟨e, he, hfailed⟩
    rw [htodo] at hs
    cases hs

theorem sticky_emit_iff (k : InnerWriter R Δ σ) (json : Serde) (h : List (Event N R Δ))
    (f : FanoutSinkWriter N R Δ σ) (i : Input N R Δ) (hi : FailInv h f) :
    Always Sticky h ((machine k json).emit f i) ↔ NoneDead h f i := by
  constructor
  · intro hsticky hends
    unfold EndsWell at hends
    split at hends
    · next lockFree timedOut call posts results hpc =>
      have hemit : (machine k json).emit f (.mux lockFree timedOut) =
          [.returned call posts (.ok (f.broadcastResult json call results))] := by
        have hclose : call ≠ .close := by
          rintro rfl
          cases hends
        cases call <;> simp [Machine.emit, machine, muxStep, hpc, endCall] at hclose ⊢
      rw [hemit] at hsticky
      exact (hi.sticky (by rw [hpc]; rfl) (by rw [hpc]; rfl) hends _ _).mp hsticky.1
    · next lockFree timedOut row last posts hpc =>
      have hemit : (machine k json).emit f (.mux lockFree timedOut) =
          [.returned (.write row) posts (.ok .unit)] := by
        have hlast : (f.handles last).dead = false := by simpa using hends
        simp [Machine.emit, machine, muxStep, hpc, writeResult, hlast]
      rw [hemit] at hsticky
      have hcall : callOf f.pc = some (.write row) := by rw [hpc]; rfl
      exact (hi.sticky hcall (by rw [hpc]; rfl) rfl _ _).mp hsticky.1
    · cases hends
  · intro hnone
    have hmux := machine_mux k json f i
    refine hmux.always (fun h' e he ↦ ?_) fun e hmem he ↦ ?_
    · unfold Sticky
      split
      · next c posts reply =>
        intro hc
        exact absurd trivial (by cases c <;> first | exact he | cases hc)
      · trivial
    · obtain ⟨c, posts, reply, rfl, hclose⟩ := exists_of_succeeds he
      intro hc
      obtain ⟨-, -, ⟨results, hpc, -⟩ | ⟨row, last, rfl, hpc, hlast⟩⟩ := hmux.returned_ok hmem hclose
      · obtain ⟨lockFree, timedOut, rfl⟩ := machine_returned hmem (by simp [hpc])
        have hwell : EndsWell (.mux lockFree timedOut) f := by simpa [EndsWell, hpc] using hc
        have hsticky := (hi.sticky (by rw [hpc]; rfl) (by rw [hpc]; rfl) hc posts reply).mpr (hnone hwell)
        exact hsticky hc
      · obtain ⟨lockFree, timedOut, rfl⟩ := machine_returned hmem (by simp [hpc])
        have hwell : EndsWell (.mux lockFree timedOut) f := by simp [EndsWell, hpc, hlast]
        have hsticky := (hi.sticky (by rw [hpc]; rfl) (by rw [hpc]; rfl) hc posts reply).mpr (hnone hwell)
        exact hsticky hc

/-- Under the policy `Fail` a call after a failure is refused exactly when no sink is
given up at the end of a call that ends well. -/
theorem fail_sticky_iff (k : InnerWriter R Δ σ) (json : Serde) (names : Fin N → String) (writers : Fin N → σ)
    (ackTimeout : String) (is : List (Input N R Δ)) :
    Always Sticky [] ((machine k json).trace (withAckTimeout names writers .fail ackTimeout) is) ↔
      (machine k json).Along NoneDead [] (withAckTimeout names writers .fail ackTimeout) is :=
  always_iff_along (failInv_step k json) (sticky_emit_iff k json) (failInv_init names writers ackTimeout) is

section Example

open FanoutCoverage

def unprepared : InnerWriter ℕ Unit Bool where
  openWriter := fun s ↦ (.ok (), s)
  write := fun s _ ↦ (.ok (), s)
  applySchemaChange := fun s _ ↦ (.ok (), s)
  prepareCommit := fun s _ ↦ (if s then .ok [] else .err "connection lost", s)
  snapshotState := fun s ↦ (.ok [], s)
  pollFlush := fun s ↦ (.ok (), s)
  closeWriter := fun s ↦ (.ok (), s)

def rowAfterFailure : List (Input 2 ℕ Unit) :=
  [.call .openWriter] ++ List.replicate 2 (.mux true false) ++ bothWork ++ List.replicate 4 (.mux true false) ++
    [.call (.prepareCommit 1)] ++ List.replicate 2 (.mux true false) ++ bothWork ++ List.replicate 2 (.mux true false) ++
    [.call (.write 7)] ++ List.replicate 2 (.mux true false)

theorem write_after_failure :
    ¬ Always Sticky [] ((machine unprepared FanoutWire.serdeJson.toSerde).trace
      (withAckTimeout twoNames (fun s ↦ decide (s = 1)) .fail "60s") rowAfterFailure) := by
  rw [always_iff_along (failInv_step _ _) (sticky_emit_iff _ _) (failInv_init _ _ _)]
  decide

end Example

end Runs

end SeaTunnel.Core.FanoutFailures
