import SeaTunnel.Core.FanoutCommits
import SeaTunnel.Core.FanoutWire

namespace SeaTunnel.Core.FanoutCoverage

open Signaling Fanout FanoutSinkWriter FanoutSteps FanoutLines FanoutAcks FanoutCommits Lib Lib.Runs

variable {R Δ σ : Type} {N : ℕ} {f f' : FanoutSinkWriter N R Δ σ} {h events : List (Event N R Δ)}
variable {json : Serde} {names : Fin N → String}

section Property

/-- A successful prepare leaves a sink, and every row that was accepted, also
before the last barrier, was written by a sink whose infos are in its result. -/
def Covered (json : Serde) (names : Fin N → String) (h : List (Event N R Δ)) : Event N R Δ → Prop
  | .returned (.prepareCommit id) posts (.ok reply) =>
    (∃ s, ∀ reason, .markedDead s reason ∉ h) ∧
      ∃ entries, reply = .infos [json.infosToVec ⟨entries⟩] ∧
        ∀ row writes accepted, .returned (.write row) writes (.ok accepted) ∈ h →
          ∃ s m written n infos, (s, m) ∈ writes ∧ .performed s ⟨m, .write row⟩ (.ok written) ∈ h ∧
            (s, n) ∈ posts ∧ .performed s ⟨n, .prepareCommit id⟩ (.ok (.infos infos)) ∈ h ∧
              ⟨names s, infos⟩ ∈ entries
  | _ => True

def EndsPrepare : Input N R Δ → Pc N R Δ → Bool
  | .mux _ _, .awaiting (.prepareCommit _) _ [] _ => true
  | _, _ => false

/-- A sink is left at the end of a prepare. -/
def SomeLeft (_ : List (Event N R Δ)) (f : FanoutSinkWriter N R Δ σ) (i : Input N R Δ) : Prop :=
  EndsPrepare i f.pc → f.alive ≠ []

instance (h : List (Event N R Δ)) (f : FanoutSinkWriter N R Δ σ) (i : Input N R Δ) : Decidable (SomeLeft h f i) :=
  inferInstanceAs (Decidable (_ → _))

end Property

section Accepted

def Accepted (h : List (Event N R Δ)) (f : FanoutSinkWriter N R Δ σ) : Prop :=
  ∀ row writes reply, .returned (.write row) writes (.ok reply) ∈ h → ∀ s, ¬ IsDead f s →
    ∃ m, (s, m) ∈ writes ∧ .posted s ⟨m, .write row⟩ ∈ h ∧ ∀ n, (s, n) ∈ postsOf f.pc → m < n

theorem Accepted.step (hi : Accepted h f) (hdead : ∀ s, IsDead f s → IsDead f' s)
    (hreturned : ∀ row writes reply, .returned (.write row) writes (.ok reply) ∉ events)
    (hposts : ∀ s m c, .posted s ⟨m, c⟩ ∈ h → ∀ n, (s, n) ∈ postsOf f'.pc → (s, n) ∈ postsOf f.pc ∨ m < n) :
    Accepted (h ++ events) f' := by
  intro row writes reply hmem s hlive
  have hold := (List.mem_append.mp hmem).resolve_right (hreturned row writes reply)
  obtain ⟨m, hm, hposted, hlt⟩ := hi row writes reply hold s fun hgone ↦ hlive (hdead s hgone)
  refine ⟨m, hm, List.mem_append_left _ hposted, fun n hn ↦ ?_⟩
  exact (hposts s m _ hposted n hn).elim (hlt n) id

theorem posts_grow {c : SinkCommand R Δ} {t : Fin N} {todo : List (Fin N)} {posts : List (Fin N × ℕ)}
    (hl : LinesInv h f) (haddress : addressing f.pc = some (c, t :: todo, posts))
    (haddress' : addressing f'.pc = some (c, todo, posts ++ [(t, f.nextSerial)])) (s : Fin N) (m : ℕ)
    (c' : SinkCommand R Δ) (hposted : .posted s ⟨m, c'⟩ ∈ h) (n : ℕ) (hn : (s, n) ∈ postsOf f'.pc) :
    (s, n) ∈ postsOf f.pc ∨ m < n := by
  rw [(addressing_eq haddress').2.2] at hn
  rw [(addressing_eq haddress).2.2]
  rcases List.mem_append.mp hn with hn | hn
  · exact .inl hn
  · obtain ⟨-, rfl⟩ := by simpa using hn
    exact .inr (hl.bound s _ hposted)

theorem Accepted.ended {c : SinkCommand R Δ} {posts : List (Fin N × ℕ)} (hi : Accepted h f)
    (hall : ∀ s, ¬ IsDead f s → ∃ m, (s, m) ∈ posts ∧ .posted s ⟨m, c⟩ ∈ h) (result : Except String Reply) :
    Accepted (h ++ [.returned c posts result]) (f.go .idle) := by
  intro row writes reply hmem s hlive
  rcases List.mem_append.mp hmem with hmem | hmem
  · obtain ⟨m, hm, hposted, -⟩ := hi row writes reply hmem s hlive
    exact ⟨m, hm, List.mem_append_left _ hposted, nofun⟩
  · obtain ⟨rfl, rfl, rfl⟩ := by simpa using hmem
    obtain ⟨m, hm, hposted⟩ := hall s hlive
    exact ⟨m, hm, List.mem_append_left _ hposted, nofun⟩

theorem accepted_step (ha : AcksInv h f) (hi : Accepted h f) (hstep : MuxStep json f f' events) :
    Accepted (h ++ events) f' := by
  cases hstep with
  | rest events hpc hdead hevents =>
    refine hi.step (fun s ↦ (hdead.iff s).mpr) (fun _ _ _ hmem ↦ hevents _ hmem) fun s m c _ n hn ↦ ?_
    exact .inl (hpc ▸ hn)
  | begun call hidle hdead haddress =>
    refine hi.step (fun s ↦ (hdead.iff s).mpr) (by simp) fun s m c _ n hn ↦ ?_
    rw [(addressing_eq haddress).2.2] at hn
    cases hn
  | refused row e hidle halive hf' =>
    subst hf'
    exact hi.step (fun s ↦ id) (by simp) fun s m c _ n hn ↦ .inl hn
  | sent call t todo posts haddress haddress' hdead hopen =>
    exact hi.step (fun s ↦ (hdead.iff s).mpr) (by simp) (posts_grow ha.lines haddress haddress')
  | lost events call t todo posts haddress haddress' hdead hpolicy hmarks =>
    refine hi.step (fun s hs ↦ (hdead.iff s).mpr (.inl hs)) (fun _ _ _ hmem ↦ ?_) (posts_grow ha.lines haddress haddress')
    rcases hmarks with ⟨rfl, -⟩ | ⟨reason, rfl⟩ <;> simp at hmem
  | collected call posts hpc hpc' hdead =>
    refine hi.step (fun s ↦ (hdead.iff s).mpr) (by simp) fun s m c _ n hn ↦ .inl ?_
    rw [hpc]
    rwa [hpc'] at hn
  | acked call posts t n acks results reply hpc hpc' hdead hanswer =>
    refine hi.step (fun s ↦ (hdead.iff s).mpr) (by simp) fun s m c _ n hn ↦ .inl ?_
    rw [hpc]
    rwa [hpc'] at hn
  | missed events call posts t n acks results hpc hpc' hdead hpolicy hmarks =>
    refine hi.step (fun s hs ↦ (hdead.iff s).mpr (.inl hs)) (fun _ _ _ hmem ↦ ?_) fun s m c _ n hn ↦ .inl ?_
    · rcases hmarks with ⟨rfl, -⟩ | ⟨reason, rfl⟩ <;> simp at hmem
    · rw [hpc]
      rwa [hpc'] at hn
  | aborted call posts t reason e hcall hclose hpc' hdead hpolicy halive =>
    refine hi.step (fun s hs ↦ (hdead.iff s).mpr (.inl hs)) (by simp) fun s m c _ n hn ↦ ?_
    rw [hpc'] at hn
    cases hn
  | finished call posts results hpc hclose hf' =>
    subst hf'
    have hawaited := ha.awaited _ _ _ _ hpc
    refine hi.ended (fun s hlive ↦ ?_) _
    obtain ⟨x, hx, rfl⟩ := List.mem_map.mp (hawaited.all s hlive)
    exact ⟨x.2, hx, hawaited.posted x.1 x.2 hx hlive⟩
  | written row last posts hpc hf' =>
    subst hf'
    have haddressed := ha.addressed (.write row) [] posts (by rw [hpc]; rfl)
    refine hi.ended (fun s hlive ↦ ?_) _
    have hmem : s ∈ posts.map Prod.fst := by simpa using haddressed.all s hlive
    obtain ⟨x, hx, rfl⟩ := List.mem_map.mp hmem
    exact ⟨x.2, hx, haddressed.posted x.1 x.2 hx hlive⟩
  | closing posts results hpc hpc' hdead =>
    refine hi.step (fun s ↦ (hdead.iff s).mpr) (by simp) fun s m c _ n hn ↦ ?_
    rw [hpc'] at hn
    cases hn
  | cutShort t reason hcall hpc' hdead =>
    refine hi.step (fun s hs ↦ (hdead.iff s).mpr (.inl hs)) (by simp) fun s m c _ n hn ↦ ?_
    rw [hpc'] at hn
    cases hn
  | joined todo todo' hpc hpc' hdead =>
    refine hi.step (fun s ↦ (hdead.iff s).mpr) (by simp) fun s m c _ n hn ↦ ?_
    rw [hpc'] at hn
    cases hn
  | closed hpc hf' =>
    subst hf'
    exact hi.step (fun s ↦ id) (by simp) fun s m c _ n hn ↦ nomatch hn
  | panicked events hpc' hdead hevents =>
    refine hi.step (fun s ↦ (hdead.iff s).mpr) (fun _ _ _ hmem ↦ nomatch hevents _ hmem) fun s m c _ n hn ↦ ?_
    rw [hpc'] at hn
    cases hn

end Accepted

section Runs

structure CoverInv (names : Fin N → String) (h : List (Event N R Δ)) (f : FanoutSinkWriter N R Δ σ) : Prop where
  acks : AcksInv h f
  named : ∀ s, (f.handles s).name = names s
  answers : ∀ s p reply, .performed s p (.ok reply) ∈ h → Answers p.command reply
  accepted : Accepted h f

theorem coverInv_init (names : Fin N → String) (writers : Fin N → σ) (policy : SinkFailurePolicy)
    (ackTimeout : String) : CoverInv (R := R) (Δ := Δ) names [] (withAckTimeout names writers policy ackTimeout) :=
  ⟨acksInv_init names writers policy ackTimeout, fun _ ↦ rfl, by simp, by simp [Accepted]⟩

theorem coverInv_step (k : InnerWriter R Δ σ) (json : Serde) (h : List (Event N R Δ)) (f : FanoutSinkWriter N R Δ σ)
    (i : Input N R Δ) (hi : CoverInv names h f) :
    CoverInv names (h ++ (machine k json).emit f i) ((machine k json).next f i) where
  acks := acksInv_step k json h f i hi.acks
  named := fun s ↦ by rw [(machine_fixed k json f i).names s, hi.named s]
  answers := by
    intro s p reply hp
    rcases List.mem_append.mp hp with hp | hp
    · exact hi.answers s p reply hp
    · exact performed_answers hp
  accepted := accepted_step hi.acks hi.accepted (machine_mux k json f i)

theorem ok_of_not_kills {row : R} {m : ℕ} {outcome : Outcome Reply}
    (hsteady : ¬ Kills ((⟨m, .write row⟩ : Post R Δ), outcome)) : ∃ reply, outcome = .ok reply := by
  cases outcome with
  | ok reply => exact ⟨reply, rfl⟩
  | err e => exact absurd (.inl ⟨row, rfl⟩) hsteady
  | panic message => exact absurd trivial hsteady

variable {posts : List (Fin N × ℕ)} {results : List Reply} {checkpointId : ℕ}

theorem CoverInv.entry (hi : CoverInv names h f) (hawaited : Awaited h f (.prepareCommit checkpointId) posts [] results)
    {s : Fin N} (hlive : ¬ IsDead f s) :
    ∃ n infos, (s, n) ∈ posts ∧ .performed s ⟨n, .prepareCommit checkpointId⟩ (.ok (.infos infos)) ∈ h ∧
      ⟨names s, infos⟩ ∈ (f.commitInfos results).entries := by
  obtain ⟨hlength, hzip⟩ := zip_alive hawaited
  have hfst : (f.alive.zip results).map Prod.fst = f.alive := List.map_fst_zip hlength.le
  have hmem : s ∈ (f.alive.zip results).map Prod.fst := hfst.symm ▸ mem_alive.mpr hlive
  obtain ⟨⟨t, reply⟩, hx, rfl⟩ := List.mem_map.mp hmem
  obtain ⟨n, hn, hperformed⟩ := hzip _ hx
  have hreply : reply = .infos reply.toInfos := hi.answers t _ reply hperformed
  refine ⟨n, reply.toInfos, hn, hreply ▸ hperformed, ?_⟩
  have hentries : (f.commitInfos results).entries = (f.alive.zip results).map fun x ↦
      { sink := (f.handles x.1).name, infos := x.2.toInfos } :=
    zipIdx_map_getElem? (fun u o ↦ FanoutCommitEntry.mk (f.handles u).name ((o.map Reply.toInfos).getD [])) hlength
  rw [hentries, ← hi.named t]
  exact List.mem_map.mpr ⟨_, hx, rfl⟩

theorem CoverInv.covered (hi : CoverInv names h f)
    (hpc : f.pc = .awaiting (.prepareCommit checkpointId) posts [] results) :
    Covered json names h
        (.returned (.prepareCommit checkpointId) posts (.ok (f.broadcastResult json (.prepareCommit checkpointId) results))) ↔
      f.alive ≠ [] := by
  constructor
  · rintro ⟨⟨s, hs⟩, -⟩
    have hlive : ¬ IsDead f s := fun hgone ↦ ((hi.acks.deaths s).mp hgone).elim hs
    exact List.ne_nil_of_mem (mem_alive.mpr hlive)
  · intro hleft
    obtain ⟨s, hs⟩ := List.exists_mem_of_ne_nil _ hleft
    have hlive := mem_alive.mp hs
    refine ⟨⟨s, fun reason hmem ↦ hlive ((hi.acks.deaths s).mpr ⟨reason, hmem⟩)⟩, _, rfl, ?_⟩
    intro row writes accepted haccepted
    obtain ⟨m, hm, hposted, hbefore⟩ := hi.accepted row writes accepted haccepted s hlive
    obtain ⟨n, infos, hn, hprepared, hentry⟩ := hi.entry (hi.acks.awaited _ _ _ _ hpc) hlive
    have hlt : m < n := hbefore n (by rw [hpc]; exact hn)
    obtain ⟨outcome, hwritten, hsteady⟩ := hi.acks.lines.performed_before hposted hlt hprepared
    obtain ⟨written, rfl⟩ := ok_of_not_kills hsteady
    exact ⟨s, m, written, n, infos, hm, hwritten, hn, hprepared, hentry⟩

theorem covered_emit_iff (k : InnerWriter R Δ σ) (json : Serde) (h : List (Event N R Δ))
    (f : FanoutSinkWriter N R Δ σ) (i : Input N R Δ) (hi : CoverInv names h f) :
    Always (Covered json names) h ((machine k json).emit f i) ↔ SomeLeft h f i := by
  constructor
  · intro hcovered hends
    unfold EndsPrepare at hends
    split at hends
    · next lockFree timedOut checkpointId posts results hpc =>
      have hemit : (machine k json).emit f (.mux lockFree timedOut) =
          [.returned (.prepareCommit checkpointId) posts
            (.ok (f.broadcastResult json (.prepareCommit checkpointId) results))] := by
        simp [Machine.emit, machine, muxStep, hpc, endCall]
      rw [hemit] at hcovered
      exact (hi.covered hpc).mp hcovered.1
    · cases hends
  · intro hleft
    have hmux := machine_mux k json f i
    refine hmux.always (fun h' e he ↦ ?_) fun e hmem he ↦ ?_
    · unfold Covered
      split
      · exact absurd trivial he
      · trivial
    · unfold Covered
      split
      · next checkpointId posts reply =>
        obtain ⟨-, -, ⟨results, hpc, rfl⟩ | ⟨row, last, hwrite, -⟩⟩ := hmux.returned_ok hmem (by simp)
        · obtain ⟨lockFree, timedOut, rfl⟩ := machine_returned hmem (by simp [hpc])
          exact (hi.covered hpc).mpr (hleft (by rw [hpc]; rfl))
        · cases hwrite
      · trivial

/-- A successful prepare covers the accepted rows exactly when a sink is left at
the end of every prepare. -/
theorem prepare_covers_iff (k : InnerWriter R Δ σ) (json : Serde) (names : Fin N → String) (writers : Fin N → σ)
    (ackTimeout : String) (is : List (Input N R Δ)) :
    Always (Covered json names) [] ((machine k json).trace (withAckTimeout names writers .isolate ackTimeout) is) ↔
      (machine k json).Along SomeLeft [] (withAckTimeout names writers .isolate ackTimeout) is :=
  always_iff_along (coverInv_step k json) (covered_emit_iff k json)
    (coverInv_init names writers .isolate ackTimeout) is

section Example

def refusing : InnerWriter ℕ Unit Unit where
  openWriter := fun s ↦ (.ok (), s)
  write := fun s _ ↦ (.err "disk full", s)
  applySchemaChange := fun s _ ↦ (.ok (), s)
  prepareCommit := fun s _ ↦ (.ok [], s)
  snapshotState := fun s ↦ (.ok [], s)
  pollFlush := fun s ↦ (.ok (), s)
  closeWriter := fun s ↦ (.ok (), s)

def twoNames : Fin 2 → String := fun s ↦ if s = 0 then "JDBC#0" else "Kafka#1"

def bothWork : List (Input 2 ℕ Unit) := [.recv 0, .perform 0, .recv 1, .perform 1]

def refusedRow : List (Input 2 ℕ Unit) :=
  [.call .openWriter] ++ List.replicate 2 (.mux true false) ++ bothWork ++ List.replicate 4 (.mux true false) ++
    [.call (.write 7)] ++ List.replicate 3 (.mux true false) ++ bothWork ++
    [.call (.prepareCommit 1)] ++ List.replicate 6 (.mux true false)

theorem prepare_covers_nothing :
    ¬ Always (Covered FanoutWire.serdeJson.toSerde twoNames) []
      ((machine refusing FanoutWire.serdeJson.toSerde).trace (withAckTimeout twoNames (fun _ ↦ ()) .isolate "60s")
        refusedRow) := by
  rw [always_iff_along (coverInv_step _ _) (covered_emit_iff _ _) (coverInv_init _ _ _ _)]
  decide

end Example

end Runs

end SeaTunnel.Core.FanoutCoverage
