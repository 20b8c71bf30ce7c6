import SeaTunnel.Core.FanoutCoverage

namespace SeaTunnel.Core.FanoutWrites

open Signaling Fanout FanoutSinkWriter FanoutSteps FanoutAcks Lib Lib.Runs

variable {R Δ σ : Type} {N : ℕ} {f f' : FanoutSinkWriter N R Δ σ} {h events : List (Event N R Δ)}
variable {json : Serde}

section Property

/-- A `write` succeeds if and only if some sink has accepted the row. -/
def Answered (h : List (Event N R Δ)) : Event N R Δ → Prop
  | .returned (.write row) posts result =>
    (∃ reply, result = .ok reply) ↔ ∃ s n, (s, n) ∈ posts ∧ .posted s ⟨n, .write row⟩ ∈ h
  | _ => True

def lastOf : Input N R Δ → Pc N R Δ → Option (Fin N)
  | .mux _ _, .writing _ last [] _ => some last
  | _, _ => none

/-- The last sink accepts the row, or no sink does. -/
def LastAccepts (_ : List (Event N R Δ)) (f : FanoutSinkWriter N R Δ σ) (i : Input N R Δ) : Prop :=
  (lastOf i f.pc).all fun last ↦ !(f.handles last).dead || f.alive.isEmpty

instance (h : List (Event N R Δ)) (f : FanoutSinkWriter N R Δ σ) (i : Input N R Δ) : Decidable (LastAccepts h f i) :=
  inferInstanceAs (Decidable (_ = true))

end Property

section Broadcasts

def broadcastOf : Pc N R Δ → Option (SinkCommand R Δ)
  | .sending call _ _ | .awaiting call _ _ _ => some call
  | _ => none

variable {call : SinkCommand R Δ} {s : Fin N} {posts : List (Fin N × ℕ)} {pc : Pc N R Δ} {r : Result N R Δ σ}

theorem broadcastOf_endCall (f : FanoutSinkWriter N R Δ σ) (call : SinkCommand R Δ) (posts : List (Fin N × ℕ))
    (result : Except String Reply) : broadcastOf (f.endCall call posts result).1.pc = none := by
  cases call <;> rfl

theorem broadcastOf_sends (hsends : Sends f call s posts pc r) {c : SinkCommand R Δ}
    (hc : broadcastOf r.1.pc = some c) : broadcastOf f.pc = some c ∨ broadcastOf pc = some c := by
  cases hsends with
  | panicked => cases hc
  | waits => exact .inl hc
  | sent hopen => exact .inr hc
  | lost g events hmarks => exact .inr hc
  | ended e g events hmarks =>
    rw [broadcastOf_endCall] at hc
    cases hc

theorem broadcastOf_callStep {c : SinkCommand R Δ} (hidle : f.pc = .idle)
    (hc : broadcastOf (f.callStep call).1.pc = some c) (row : R) : c ≠ .write row := by
  unfold callStep at hc
  split at hc
  · split at hc
    · cases hc
    · obtain rfl := Option.some.inj hc
      exact nofun
  · split at hc
    · rw [hidle] at hc
      cases hc
    · cases hc
  · next hopen hwrite =>
    obtain rfl := Option.some.inj hc
    exact hwrite row

theorem broadcastOf_muxStep {c : SinkCommand R Δ} {lockFree timedOut : Bool}
    (hc : broadcastOf (f.muxStep json lockFree timedOut).1.pc = some c) : broadcastOf f.pc = some c := by
  unfold muxStep at hc
  split at hc
  · exact hc
  · exact hc
  · next call s todo posts hpc =>
    rcases broadcastOf_sends (sendStep_sends call) hc with hold | hnext
    · exact hold
    · rw [hpc]
      exact hnext
  · next call posts hpc =>
    rw [hpc]
    exact hc
  · next call posts s n acks results hpc =>
    unfold ackStep at hc
    split at hc
    · exact hc
    · rw [hpc]
      exact hc
    · rw [hpc]
      exact hc
    · rw [broadcastOf_endCall] at hc
      cases hc
  · rw [broadcastOf_endCall] at hc
    cases hc
  · next row last s todo posts hpc =>
    rcases broadcastOf_sends (writeStep_sends row last) hc with hold | hnext
    · exact hold
    · cases hnext
  · cases hc
  · next s todo hpc =>
    unfold joinStep at hc
    split at hc
    · exact hc
    · split at hc
      · cases hc
      · cases hc
      · exact hc
  · cases hc

theorem recvStep_pc : (f.recvStep s).pc = f.pc := by
  unfold recvStep
  dsimp only
  split
  · rfl
  · split <;> rfl
  · rfl

theorem performStep_pc (k : InnerWriter R Δ σ) : (f.performStep k s).1.pc = f.pc := by
  unfold performStep
  dsimp only
  split <;> rfl

theorem tickStep_pc (k : InnerWriter R Δ σ) : (f.tickStep k s).1.pc = f.pc := by
  unfold tickStep
  dsimp only
  split
  · split <;> rfl
  · rfl

theorem broadcastOf_next (k : InnerWriter R Δ σ) (json : Serde) (i : Input N R Δ) {row : R}
    (hrow : broadcastOf f.pc ≠ some (.write row)) :
    broadcastOf ((machine k json).next f i).pc ≠ some (.write row) := by
  intro hc
  cases i with
  | call call =>
    rcases machine_call k json call f with ⟨hidle, hstep⟩ | ⟨-, hstep⟩
    · rw [Machine.next, hstep] at hc
      exact broadcastOf_callStep hidle hc row rfl
    · rw [Machine.next, hstep] at hc
      exact hrow hc
  | mux lockFree timedOut => exact hrow (broadcastOf_muxStep hc)
  | recv s => exact hrow (recvStep_pc (s := s) ▸ hc)
  | perform s => exact hrow (performStep_pc (s := s) k ▸ hc)
  | tick s => exact hrow (tickStep_pc (s := s) k ▸ hc)

end Broadcasts

section Runs

structure WriteInv (h : List (Event N R Δ)) (f : FanoutSinkWriter N R Δ σ) : Prop where
  acks : AcksInv h f
  policy : f.policy = .isolate
  rows : ∀ row, broadcastOf f.pc ≠ some (.write row)

theorem writeInv_init (names : Fin N → String) (writers : Fin N → σ) (ackTimeout : String) :
    WriteInv (R := R) (Δ := Δ) [] (withAckTimeout names writers .isolate ackTimeout) :=
  ⟨acksInv_init names writers .isolate ackTimeout, rfl, nofun⟩

theorem writeInv_step (k : InnerWriter R Δ σ) (json : Serde) (h : List (Event N R Δ)) (f : FanoutSinkWriter N R Δ σ)
    (i : Input N R Δ) (hi : WriteInv h f) :
    WriteInv (h ++ (machine k json).emit f i) ((machine k json).next f i) where
  acks := acksInv_step k json h f i hi.acks
  policy := (machine_fixed k json f i).policy.trans hi.policy
  rows := fun row ↦ broadcastOf_next k json i (hi.rows row)

variable {row : R} {last : Fin N} {posts : List (Fin N × ℕ)}

theorem WriteInv.accepted_iff (hi : WriteInv h f) (hpc : f.pc = .writing row last [] posts) :
    (∃ s n, (s, n) ∈ posts ∧ .posted s ⟨n, .write row⟩ ∈ h) ↔ f.alive ≠ [] := by
  have haddressed := hi.acks.addressed (.write row) [] posts (by rw [hpc]; rfl)
  constructor
  · rintro ⟨s, n, hmem, hposted⟩
    have hlive : ¬ IsDead f s := fun hdead ↦ haddressed.lost s n hmem hdead _ hposted rfl
    exact List.ne_nil_of_mem (mem_alive.mpr hlive)
  · intro halive
    obtain ⟨s, hs⟩ := List.exists_mem_of_ne_nil _ halive
    have hlive := mem_alive.mp hs
    have hmem : s ∈ posts.map Prod.fst := by simpa using haddressed.all s hlive
    obtain ⟨x, hx, rfl⟩ := List.mem_map.mp hmem
    exact ⟨x.1, x.2, hx, haddressed.posted x.1 x.2 hx hlive⟩

theorem writeResult_ok_iff : (∃ reply, f.writeResult last = .ok reply) ↔ (f.handles last).dead = false := by
  rw [writeResult]
  cases (f.handles last).dead with
  | true => exact iff_of_false (fun ⟨_, h⟩ ↦ nomatch h) Bool.noConfusion
  | false => exact iff_of_true ⟨.unit, rfl⟩ rfl

theorem WriteInv.answered_iff (hi : WriteInv h f) (hpc : f.pc = .writing row last [] posts) :
    Answered h (.returned (.write row) posts (f.writeResult last)) ↔
      (f.handles last).dead = false ∨ f.alive = [] := by
  rw [Answered, hi.accepted_iff hpc, writeResult_ok_iff]
  constructor
  · intro heq
    by_cases halive : f.alive = []
    · exact .inr halive
    · exact .inl (heq.mpr halive)
  · rintro (hlast | hnone)
    · have hlive : ¬ IsDead f last := by
        rw [IsDead, hlast]
        exact Bool.noConfusion
      exact iff_of_true hlast (List.ne_nil_of_mem (mem_alive.mpr hlive))
    · refine iff_of_false (fun hlast ↦ ?_) (not_not.mpr hnone)
      have hmem : last ∈ f.alive := mem_alive.mpr (by rw [IsDead, hlast]; exact Bool.noConfusion)
      rw [hnone] at hmem
      cases hmem

theorem answered_of_ne {e : Event N R Δ} (he : ∀ row posts result, e ≠ .returned (.write row) posts result)
    (h' : List (Event N R Δ)) : Answered h' e := by
  unfold Answered
  split
  · exact absurd rfl (he _ _ _)
  · trivial

theorem answered_other (hi : WriteInv h f) (hstep : MuxStep json f f' events)
    (hend : ∀ row last posts, f.pc = .writing row last [] posts →
      events ≠ [.returned (.write row) posts (f.writeResult last)]) : Always Answered h events := by
  refine always_split.mpr fun pre e post hsplit ↦ ?_
  have hmem : e ∈ events := by simp [hsplit]
  cases hstep with
  | rest events hpc hdead htask =>
    refine answered_of_ne (fun row posts result heq ↦ ?_) _
    rw [heq] at hmem
    exact htask _ hmem
  | refused row e' hidle halive hf' =>
    rcases List.mem_cons.mp hmem with rfl | hmem
    · exact answered_of_ne (by simp) _
    · obtain rfl := List.mem_singleton.mp hmem
      exact iff_of_false (by simp) (by simp)
  | aborted call posts s reason e' hcall hclose hpc' hdead hpolicy halive =>
    rw [hi.policy] at hpolicy
    cases hpolicy
  | finished call posts results hpc hclose hf' =>
    obtain rfl := List.mem_singleton.mp hmem
    refine answered_of_ne (fun row posts' result heq ↦ ?_) _
    have hrow := hi.rows row
    rw [hpc] at hrow
    cases heq
    exact hrow rfl
  | written row last posts hpc hf' => exact absurd rfl (hend row last posts hpc)
  | lost events call s todo posts haddress haddress' hdead hpolicy hmarks =>
    refine answered_of_ne (fun row posts result heq ↦ ?_) _
    rcases hmarks with ⟨rfl, -⟩ | ⟨reason, rfl⟩
    · cases hmem
    · simp [heq] at hmem
  | missed events call posts s n acks results hpc hpc' hdead hpolicy hmarks =>
    refine answered_of_ne (fun row posts result heq ↦ ?_) _
    rcases hmarks with ⟨rfl, -⟩ | ⟨reason, rfl⟩
    · cases hmem
    · simp [heq] at hmem
  | panicked events hpc' hdead hevents =>
    rw [hevents _ hmem]
    trivial
  | closed hpc hf' =>
    obtain rfl := List.mem_singleton.mp hmem
    exact answered_of_ne (by simp) _
  | begun call hidle hdead haddress =>
    obtain rfl := List.mem_singleton.mp hmem
    trivial
  | sent call s todo posts haddress haddress' hdead hopen =>
    obtain rfl := List.mem_singleton.mp hmem
    trivial
  | cutShort s reason hcall hpc' hdead =>
    obtain rfl := List.mem_singleton.mp hmem
    trivial
  | collected call posts hpc hpc' hdead => cases hmem
  | acked call posts s n acks results reply hpc hpc' hdead hanswer => cases hmem
  | closing posts results hpc hpc' hdead => cases hmem
  | joined todo todo' hpc hpc' hdead => cases hmem

theorem answered_emit_iff (k : InnerWriter R Δ σ) (json : Serde) (h : List (Event N R Δ))
    (f : FanoutSinkWriter N R Δ σ) (i : Input N R Δ) (hi : WriteInv h f) :
    Always Answered h ((machine k json).emit f i) ↔ LastAccepts h f i := by
  constructor
  · intro hanswered
    unfold LastAccepts lastOf
    split
    · next lockFree timedOut row last posts hpc =>
      have hemit : (machine k json).emit f (.mux lockFree timedOut) =
          [.returned (.write row) posts (f.writeResult last)] := by
        simp [Machine.emit, machine, muxStep, hpc]
      rw [hemit] at hanswered
      have hlast := (hi.answered_iff hpc).mp hanswered.1
      simpa using hlast
    · rfl
  · intro hlast
    have hmux := machine_mux k json f i
    by_cases hend : ∃ row last posts, f.pc = .writing row last [] posts ∧
        (machine k json).emit f i = [.returned (.write row) posts (f.writeResult last)]
    · obtain ⟨row, last, posts, hpc, hemit⟩ := hend
      obtain ⟨lockFree, timedOut, rfl⟩ := machine_returned (hemit ▸ List.mem_singleton.mpr rfl) (by simp [hpc])
      rw [hemit]
      refine ⟨(hi.answered_iff hpc).mpr ?_, trivial⟩
      unfold LastAccepts lastOf at hlast
      simpa [hpc] using hlast
    · generalize (machine k json).emit f i = events at hmux hend ⊢
      exact answered_other hi hmux fun row last posts hpc hevents ↦ hend ⟨row, last, posts, hpc, hevents⟩

/-- Under `Isolate` a `write` succeeds when some sink accepts the row, in every run in which the last sink
accepts it or none does. -/
theorem write_answers_iff (k : InnerWriter R Δ σ) (json : Serde) (names : Fin N → String) (writers : Fin N → σ)
    (ackTimeout : String) (is : List (Input N R Δ)) :
    Always Answered [] ((machine k json).trace (withAckTimeout names writers .isolate ackTimeout) is) ↔
      (machine k json).Along LastAccepts [] (withAckTimeout names writers .isolate ackTimeout) is :=
  always_iff_along (writeInv_step k json) (answered_emit_iff k json) (writeInv_init names writers ackTimeout) is

section Example

open FanoutCoverage

def halfRefusing : InnerWriter ℕ Unit Bool where
  openWriter := fun s ↦ (.ok (), s)
  write := fun s _ ↦ (if s then .err "disk full" else .ok (), s)
  applySchemaChange := fun s _ ↦ (.ok (), s)
  prepareCommit := fun s _ ↦ (.ok [], s)
  snapshotState := fun s ↦ (.ok [], s)
  pollFlush := fun s ↦ (.ok (), s)
  closeWriter := fun s ↦ (.ok (), s)

def twoRows : List (Input 2 ℕ Unit) :=
  [.call .openWriter] ++ List.replicate 2 (.mux true false) ++ bothWork ++ List.replicate 4 (.mux true false) ++
    [.call (.write 1)] ++ List.replicate 3 (.mux true false) ++ bothWork ++
    [.call (.write 2)] ++ List.replicate 3 (.mux true false)

theorem accepted_write_fails :
    ¬ Always Answered [] ((machine halfRefusing FanoutWire.serdeJson.toSerde).trace
      (withAckTimeout twoNames (fun s ↦ decide (s = 1)) .isolate "60s") twoRows) := by
  rw [always_iff_along (writeInv_step _ _) (answered_emit_iff _ _) (writeInv_init _ _ _)]
  decide

end Example

end Runs

end SeaTunnel.Core.FanoutWrites
