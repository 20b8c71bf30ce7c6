import SeaTunnel.Core.FanoutAcks

namespace SeaTunnel.Core.FanoutOrder

open Signaling Fanout FanoutSinkWriter FanoutSteps FanoutLines FanoutAcks Lib Lib.Runs

variable {R Δ σ : Type} {N : ℕ} {f f' : FanoutSinkWriter N R Δ σ} {h events : List (Event N R Δ)}

section Property

def calls (h : List (Event N R Δ)) : List (SinkCommand R Δ) :=
  h.filterMap fun
    | .called c => some c
    | _ => none

/-- Those of them that have returned `Ok`; `close` returns it in any case. -/
def okCalls (h : List (Event N R Δ)) : List (SinkCommand R Δ) :=
  h.filterMap fun
    | .returned .close _ _ => none
    | .returned c _ (.ok _) => some c
    | _ => none

/-- The commands addressed to sink `s`. -/
def commandsTo (s : Fin N) (h : List (Event N R Δ)) : List (SinkCommand R Δ) := (postedTo s h).map Post.command

/-- The commands that sink `s` has observed. -/
def observedBy (s : Fin N) (h : List (Event N R Δ)) : List (SinkCommand R Δ) :=
  (performedBy s h).map fun x ↦ x.1.command

/-- The commands on the way to sink `s`. -/
def underWay (a : SinkHandle R Δ σ) : List (SinkCommand R Δ) := (inHand a.worker ++ a.queue).map Post.command

/-- Each sink observes the calls addressed to it in the order of the calls, and
all of them but those under way while its task is there; a successful call is
addressed to every sink that is not given up; and what is written after a schema
change reaches a sink after the change. -/
structure InOrder (h : List (Event N R Δ)) (f : FanoutSinkWriter N R Δ σ) : Prop where
  exact : ∀ s, (f.handles s).worker.gone = false → observedBy s h ++ underWay (f.handles s) = commandsTo s h
  started : ∀ s, observedBy s h <+: commandsTo s h
  called : ∀ s, (commandsTo s h).Sublist (calls h)
  addressed : ∀ s, ¬ IsDead f s → (okCalls h).Sublist (commandsTo s h)
  changed : ∀ before after event posts reply s n row,
    h = before ++ .returned (.schemaChange event) posts (.ok reply) :: after → .posted s ⟨n, .write row⟩ ∈ after →
      (∃ m reply, .performed s ⟨m, .schemaChange event⟩ (.ok reply) ∈ before) ∧
        ∀ outcome, .performed s ⟨n, .write row⟩ outcome ∉ before

end Property

section Calls

theorem calls_append (h events : List (Event N R Δ)) : calls (h ++ events) = calls h ++ calls events :=
  List.filterMap_append

theorem okCalls_append (h events : List (Event N R Δ)) : okCalls (h ++ events) = okCalls h ++ okCalls events :=
  List.filterMap_append

theorem commandsTo_append (s : Fin N) (h events : List (Event N R Δ)) :
    commandsTo s (h ++ events) = commandsTo s h ++ commandsTo s events := by
  rw [commandsTo, postedTo_append, List.map_append, commandsTo, commandsTo]

structure Reached (h : List (Event N R Δ)) (f : FanoutSinkWriter N R Δ σ) (s : Fin N) : Prop where
  called : (commandsTo s h).Sublist (calls h)
  addressed : ¬ IsDead f s → (okCalls h).Sublist (commandsTo s h)
  next : ∀ c, callOf f.pc = some c → s ∈ todoOf f.pc →
    ∃ before, calls h = before ++ [c] ∧ (commandsTo s h).Sublist before
  current : ∀ c, callOf f.pc = some c → s ∉ todoOf f.pc → ¬ IsDead f s →
    (okCalls h ++ [c]).Sublist (commandsTo s h)

theorem Reached.same {s : Fin N} (hi : Reached h f s) (hdead : ∀ t, IsDead f t → IsDead f' t)
    (hcall : callOf f'.pc = callOf f.pc) (htodo : todoOf f'.pc = todoOf f.pc) (hcalls : calls events = [])
    (hok : okCalls events = []) (hcommands : commandsTo s events = []) : Reached (h ++ events) f' s := by
  constructor
  · rw [commandsTo_append, calls_append, hcommands, hcalls, List.append_nil, List.append_nil]
    exact hi.called
  · intro hlive
    rw [commandsTo_append, okCalls_append, hcommands, hok, List.append_nil, List.append_nil]
    exact hi.addressed fun hgone ↦ hlive (hdead s hgone)
  · rw [commandsTo_append, calls_append, hcommands, hcalls, List.append_nil, List.append_nil, hcall, htodo]
    exact hi.next
  · rw [commandsTo_append, okCalls_append, hcommands, hok, List.append_nil, List.append_nil, hcall, htodo]
    exact fun c hc hs hlive ↦ hi.current c hc hs fun hgone ↦ hlive (hdead s hgone)

theorem Reached.ended {s : Fin N} (hi : Reached h f s) (hcall : callOf f'.pc = none)
    (hcommands : commandsTo s events = [])
    (hok : ¬ IsDead f' s → (okCalls h ++ okCalls events).Sublist (commandsTo s h)) : Reached (h ++ events) f' s := by
  constructor
  · rw [commandsTo_append, calls_append, hcommands, List.append_nil]
    exact hi.called.trans (List.sublist_append_left _ _)
  · intro hlive
    rw [commandsTo_append, okCalls_append, hcommands, List.append_nil]
    exact hok hlive
  · simp [hcall]
  · simp [hcall]

theorem commandsTo_quiet {s : Fin N} (hevents : ∀ t p, .posted t p ∉ events) : commandsTo s events = [] := by
  have hnone : postedTo s events = [] :=
    List.eq_nil_iff_forall_not_mem.mpr fun p hp ↦ hevents s p (mem_postedTo.mp hp)
  rw [commandsTo, hnone, List.map_nil]

theorem calls_tasks (hevents : ∀ e ∈ events, IsTask e) : calls events = [] ∧ okCalls events = [] := by
  constructor
  all_goals
    refine List.filterMap_eq_nil_iff.mpr fun e he ↦ ?_
    have htask := hevents e he
    cases e <;> first | rfl | exact htask.elim

theorem calls_marks {s : Fin N} {P : Prop} (hmarks : events = [] ∧ P ∨ ∃ reason, events = [.markedDead s reason]) :
    calls events = [] ∧ okCalls events = [] ∧ ∀ t, commandsTo t events = [] := by
  rcases hmarks with ⟨rfl, -⟩ | ⟨reason, rfl⟩ <;> exact ⟨rfl, rfl, fun _ ↦ rfl⟩

theorem Reached.begun {c : SinkCommand R Δ} (hi : ∀ s, Reached h f s) (hdead : SameDead f f')
    (haddress : addressing f'.pc = some (c, f.alive, [])) (s : Fin N) : Reached (h ++ [.called c]) f' s := by
  obtain ⟨hcall, htodo, -⟩ := addressing_eq haddress
  have hcommands : commandsTo s (h ++ [Event.called c]) = commandsTo s h := by
    rw [commandsTo_append]
    exact List.append_nil _
  have hok : okCalls (h ++ [Event.called (N := N) c]) = okCalls h := by
    rw [okCalls_append]
    exact List.append_nil _
  constructor
  · rw [hcommands, calls_append]
    exact (hi s).called.trans (List.sublist_append_left _ _)
  · rw [hcommands, hok, hdead.iff]
    exact (hi s).addressed
  · intro c' hc' _
    rw [hcall, Option.some.injEq] at hc'
    subst hc'
    refine ⟨calls h, by rw [calls_append]; rfl, ?_⟩
    rw [hcommands]
    exact (hi s).called
  · intro c' _ hs hlive
    rw [htodo, mem_alive] at hs
    exact absurd ((hdead.iff s).not.mp hlive) hs

theorem Reached.sent {c : SinkCommand R Δ} {s : Fin N} {todo : List (Fin N)} {posts : List (Fin N × ℕ)} {n : ℕ}
    (hi : ∀ t, Reached h f t) (ha : Addressed h f c (s :: todo) posts)
    (haddress : addressing f.pc = some (c, s :: todo, posts)) {posts' : List (Fin N × ℕ)}
    (haddress' : addressing f'.pc = some (c, todo, posts')) (hdead : SameDead f f') (t : Fin N) :
    Reached (h ++ [.posted s ⟨n, c⟩]) f' t := by
  obtain ⟨hcall, htodo, -⟩ := addressing_eq haddress
  obtain ⟨hcall', htodo', -⟩ := addressing_eq haddress'
  have hcalls : calls (h ++ [Event.posted s ⟨n, c⟩]) = calls h := by
    rw [calls_append]
    exact List.append_nil _
  have hok : okCalls (h ++ [Event.posted s ⟨n, c⟩]) = okCalls h := by
    rw [okCalls_append]
    exact List.append_nil _
  by_cases hts : t = s
  · subst hts
    have hcommands : commandsTo t (h ++ [Event.posted t ⟨n, c⟩]) = commandsTo t h ++ [c] := by
      rw [commandsTo_append]
      simp [commandsTo, postedTo]
    obtain ⟨before, hbefore, hsub⟩ := (hi t).next c hcall (by simp [htodo])
    constructor
    · rw [hcommands, hcalls, hbefore]
      exact hsub.append (List.Sublist.refl _)
    · intro hlive
      rw [hcommands, hok]
      exact ((hi t).addressed ((hdead.iff t).not.mp hlive)).trans (List.sublist_append_left _ _)
    · intro c' _ hs
      rw [htodo'] at hs
      exact absurd ((List.pairwise_cons.mp (List.pairwise_append.mp ha.sorted).2.1).1 t hs) (lt_irrefl t)
    · intro c' hc' _ hlive
      rw [hcall', Option.some.injEq] at hc'
      subst hc'
      rw [hcommands, hok]
      exact ((hi t).addressed ((hdead.iff t).not.mp hlive)).append (List.Sublist.refl _)
  · have hcommands : commandsTo t (h ++ [Event.posted s ⟨n, c⟩]) = commandsTo t h := by
      rw [commandsTo_append]
      simp [commandsTo, postedTo, Ne.symm hts]
    constructor
    · rw [hcommands, hcalls]
      exact (hi t).called
    · rw [hcommands, hok, hdead.iff]
      exact (hi t).addressed
    · intro c' hc' hs
      rw [hcommands, hcalls]
      refine (hi t).next c' (hcall.trans (hcall'.symm.trans hc')) ?_
      rw [htodo]
      rw [htodo'] at hs
      exact List.mem_cons_of_mem _ hs
    · intro c' hc' hs hlive
      rw [hcommands, hok]
      refine (hi t).current c' (hcall.trans (hcall'.symm.trans hc')) ?_ ((hdead.iff t).not.mp hlive)
      rw [htodo]
      rw [htodo'] at hs
      exact fun hmem ↦ (List.mem_cons.mp hmem).elim hts hs

theorem Reached.lose {c : SinkCommand R Δ} {s : Fin N} {todo : List (Fin N)} {posts posts' : List (Fin N × ℕ)}
    (hi : ∀ t, Reached h f t) (haddress : addressing f.pc = some (c, s :: todo, posts))
    (haddress' : addressing f'.pc = some (c, todo, posts')) (hdead : DeadToo s f f') (hcalls : calls events = [])
    (hok : okCalls events = []) (hcommands : ∀ t, commandsTo t events = []) (t : Fin N) :
    Reached (h ++ events) f' t := by
  obtain ⟨hcall, htodo, -⟩ := addressing_eq haddress
  obtain ⟨hcall', htodo', -⟩ := addressing_eq haddress'
  have hlive : ¬ IsDead f' t → ¬ IsDead f t ∧ t ≠ s := by
    intro hlive
    rw [hdead.iff, not_or] at hlive
    exact hlive
  constructor
  · rw [commandsTo_append, calls_append, hcommands, hcalls, List.append_nil, List.append_nil]
    exact (hi t).called
  · intro hnot
    rw [commandsTo_append, okCalls_append, hcommands, hok, List.append_nil, List.append_nil]
    exact (hi t).addressed (hlive hnot).1
  · intro c' hc' hs
    rw [htodo'] at hs
    rw [commandsTo_append, calls_append, hcommands, hcalls, List.append_nil, List.append_nil]
    refine (hi t).next c' (hcall.trans (hcall'.symm.trans hc')) ?_
    rw [htodo]
    exact List.mem_cons_of_mem _ hs
  · intro c' hc' hs hnot
    rw [commandsTo_append, okCalls_append, hcommands, hok, List.append_nil, List.append_nil]
    refine (hi t).current c' (hcall.trans (hcall'.symm.trans hc')) ?_ (hlive hnot).1
    rw [htodo]
    rw [htodo'] at hs
    exact fun hmem ↦ (List.mem_cons.mp hmem).elim (hlive hnot).2 hs

theorem okCalls_returned {c : SinkCommand R Δ} (hclose : c ≠ .close) (posts : List (Fin N × ℕ)) (reply : Reply) :
    okCalls [Event.returned c posts (.ok reply)] = [c] := by
  cases c <;> first | rfl | exact absurd rfl hclose

theorem okCalls_error (c : SinkCommand R Δ) (posts : List (Fin N × ℕ)) (e : String) :
    okCalls [Event.returned c posts (.error e)] = [] := by
  cases c <;> rfl

theorem reached_step {json : Serde} (ha : AcksInv h f) (hi : ∀ s, Reached h f s)
    (hstep : MuxStep json f f' events) (s : Fin N) : Reached (h ++ events) f' s := by
  cases hstep with
  | rest events hpc hdead hevents =>
    obtain ⟨hcalls, hok⟩ := calls_tasks hevents
    exact (hi s).same (fun t ↦ (hdead.iff t).mpr) (by rw [hpc]) (by rw [hpc]) hcalls hok
      (commandsTo_quiet fun t p hp ↦ hevents _ hp)
  | begun call hidle hdead haddress => exact .begun hi hdead haddress s
  | refused row e hidle halive hf' =>
    subst hf'
    refine (hi s).ended (by rw [hidle]; rfl) rfl fun hlive ↦ ?_
    simpa [okCalls] using (hi s).addressed hlive
  | sent call t todo posts haddress haddress' hdead hopen =>
    exact .sent hi (ha.addressed _ _ _ haddress) haddress haddress' hdead s
  | lost events call t todo posts haddress haddress' hdead hpolicy hmarks =>
    obtain ⟨hcalls, hok, hcommands⟩ := calls_marks hmarks
    exact .lose hi haddress haddress' hdead hcalls hok hcommands s
  | collected call posts hpc hpc' hdead =>
    exact (hi s).same (fun t ↦ (hdead.iff t).mpr) (by rw [hpc, hpc']; rfl) (by rw [hpc, hpc']; rfl) rfl rfl rfl
  | acked call posts t n acks results reply hpc hpc' hdead hanswer =>
    exact (hi s).same (fun t ↦ (hdead.iff t).mpr) (by rw [hpc, hpc']; rfl) (by rw [hpc, hpc']; rfl) rfl rfl rfl
  | missed events call posts t n acks results hpc hpc' hdead hpolicy hmarks =>
    obtain ⟨hcalls, hok, hcommands⟩ := calls_marks hmarks
    exact (hi s).same (fun u hu ↦ (hdead.iff u).mpr (.inl hu)) (by rw [hpc, hpc']; rfl) (by rw [hpc, hpc']; rfl)
      hcalls hok (hcommands s)
  | aborted call posts t reason e hcall hclose hpc' hdead hpolicy halive =>
    refine (hi s).ended (by rw [hpc']; rfl) rfl fun hlive ↦ ?_
    have hnone : okCalls [Event.markedDead t reason, .returned call posts (.error e)] = [] := by
      rw [← okCalls_error call posts e]
      rfl
    rw [hnone, List.append_nil]
    exact (hi s).addressed fun hgone ↦ hlive ((hdead.iff s).mpr (.inl hgone))
  | finished call posts results hpc hclose hf' =>
    subst hf'
    refine (hi s).ended rfl rfl fun hlive ↦ ?_
    rw [okCalls_returned hclose]
    exact (hi s).current call (by rw [hpc]; rfl) (by rw [hpc]; exact List.not_mem_nil) hlive
  | written row last posts hpc hf' =>
    subst hf'
    refine (hi s).ended rfl rfl fun hlive ↦ ?_
    cases f.writeResult last with
    | error e =>
      rw [okCalls_error, List.append_nil]
      exact (hi s).addressed hlive
    | ok reply =>
      rw [okCalls_returned (c := .write row) nofun]
      exact (hi s).current (.write row) (by rw [hpc]; rfl) (by rw [hpc]; exact List.not_mem_nil) hlive
  | closing posts results hpc hpc' hdead =>
    refine (hi s).ended (by rw [hpc']; rfl) rfl fun hlive ↦ ?_
    simpa [okCalls] using (hi s).addressed ((hdead.iff s).not.mp hlive)
  | cutShort t reason hcall hpc' hdead =>
    refine (hi s).ended (by rw [hpc']; rfl) rfl fun hlive ↦ ?_
    simpa [okCalls] using (hi s).addressed fun hgone ↦ hlive ((hdead.iff s).mpr (.inl hgone))
  | joined todo todo' hpc hpc' hdead =>
    exact (hi s).same (fun t ↦ (hdead.iff t).mpr) (by rw [hpc, hpc']; rfl) (by rw [hpc, hpc']; rfl) rfl rfl rfl
  | closed hpc hf' =>
    subst hf'
    refine (hi s).ended rfl rfl fun hlive ↦ ?_
    simpa [okCalls] using (hi s).addressed hlive
  | panicked events hpc' hdead hevents =>
    have hok : okCalls events = [] := by
      refine List.filterMap_eq_nil_iff.mpr fun e he ↦ ?_
      rw [hevents e he]
    have hcommands : commandsTo s events = [] := commandsTo_quiet fun t p hp ↦ by cases hevents _ hp
    refine (hi s).ended (by rw [hpc']; rfl) hcommands fun hlive ↦ ?_
    rw [hok, List.append_nil]
    exact (hi s).addressed ((hdead.iff s).not.mp hlive)

end Calls

section Causes

def Caused (h : List (Event N R Δ)) : Event N R Δ → Prop
  | .posted s _ => ∀ reason, .markedDead s reason ∉ h
  | .performed s p _ => .posted s p ∈ h
  | .returned (.schemaChange event) _ (.ok _) => ∀ s, (∀ reason, .markedDead s reason ∉ h) →
      ∃ m reply, .performed s ⟨m, .schemaChange event⟩ (.ok reply) ∈ h
  | _ => True

theorem caused_performed {k : InnerWriter R Δ σ} {json : Serde} {i : Input N R Δ} {s : Fin N} {p : Post R Δ}
    {outcome : Outcome Reply} (hl : LinesInv h f) (he : .performed s p outcome ∈ (machine k json).emit f i) :
    .posted s p ∈ h := by
  have hline := (machine_lines k json f i).lines s
  have hmem := mem_performedBy.mpr he
  generalize postedTo s ((machine k json).emit f i) = posts, performedBy s ((machine k json).emit f i) = done at hline hmem
  cases hline with
  | performed p' outcome' hbusy =>
    obtain ⟨rfl, rfl⟩ := by simpa using hmem
    have hsent := (hl.line s).order (by simp [hbusy, Worker.gone])
    have hhere : p ∈ postedTo s h := by
      rw [← hsent, hbusy]
      simp [inHand]
    exact mem_postedTo.mp hhere
  | _ => cases hmem

theorem caused_of_isTask {e : Event N R Δ} (htask : IsTask e)
    (hperformed : ∀ s p outcome, e = .performed s p outcome → .posted s p ∈ h) (before : List (Event N R Δ)) :
    Caused (h ++ before) e := by
  cases e with
  | performed s p outcome => exact List.mem_append_left _ (hperformed s p outcome rfl)
  | flushed s outcome => trivial
  | _ => exact htask.elim

theorem caused_step {k : InnerWriter R Δ σ} {json : Serde} {i : Input N R Δ} (ha : AcksInv h f) :
    Always Caused h ((machine k json).emit f i) := by
  have hperformed := fun s p outcome ↦ @caused_performed _ _ _ _ f h k json i s p outcome ha.lines
  have hstep := machine_mux k json f i
  generalize (machine k json).next f i = f', (machine k json).emit f i = events at hstep hperformed ⊢
  have hlive : ∀ s, ¬ IsDead f s → ∀ reason, .markedDead s reason ∉ h := fun s hs reason hmem ↦
    hs ((ha.deaths s).mpr ⟨reason, hmem⟩)
  cases hstep with
  | rest events hpc hdead hevents =>
    refine always_split.mpr fun pre e post hsplit ↦ ?_
    have he : e ∈ events := by simp [hsplit]
    exact caused_of_isTask (hevents e he) (fun s p outcome heq ↦ hperformed s p outcome (heq ▸ he)) pre
  | begun call hidle hdead haddress => exact ⟨trivial, trivial⟩
  | refused row e hidle halive hf' => exact ⟨trivial, trivial, trivial⟩
  | sent call s todo posts haddress haddress' hdead hopen =>
    exact ⟨hlive s ((ha.addressed _ _ _ haddress).alive s List.mem_cons_self), trivial⟩
  | lost events call s todo posts haddress haddress' hdead hpolicy hmarks =>
    rcases hmarks with ⟨rfl, -⟩ | ⟨reason, rfl⟩
    · trivial
    · exact ⟨trivial, trivial⟩
  | collected call posts hpc hpc' hdead => trivial
  | acked call posts s n acks results reply hpc hpc' hdead hanswer => trivial
  | missed events call posts s n acks results hpc hpc' hdead hpolicy hmarks =>
    rcases hmarks with ⟨rfl, -⟩ | ⟨reason, rfl⟩
    · trivial
    · exact ⟨trivial, trivial⟩
  | aborted call posts s reason e hcall hclose hpc' hdead hpolicy halive =>
    refine ⟨trivial, ?_, trivial⟩
    cases call <;> trivial
  | finished call posts results hpc hclose hf' =>
    refine ⟨?_, trivial⟩
    cases call with
    | schemaChange event =>
      intro s hs
      have hnot : ¬ IsDead f s := fun hgone ↦ ((ha.deaths s).mp hgone).elim hs
      obtain ⟨n, reply, -, hdone⟩ := (ha.awaited _ _ _ _ hpc).live_performed hnot
      exact ⟨n, reply, hdone⟩
    | _ => trivial
  | written row last posts hpc hf' =>
    refine ⟨?_, trivial⟩
    cases f.writeResult last <;> trivial
  | closing posts results hpc hpc' hdead => trivial
  | cutShort s reason hcall hpc' hdead => exact ⟨trivial, trivial⟩
  | joined todo todo' hpc hpc' hdead => trivial
  | closed hpc hf' => exact ⟨trivial, trivial⟩
  | panicked events hpc' hdead hevents =>
    refine always_of_forall fun h' e he ↦ ?_
    rw [hevents e he]
    trivial

end Causes

structure OrderInv (h : List (Event N R Δ)) (f : FanoutSinkWriter N R Δ σ) : Prop where
  acks : AcksInv h f
  reached : ∀ s, Reached h f s
  caused : Always Caused [] h

theorem orderInv_init (names : Fin N → String) (writers : Fin N → σ) (policy : SinkFailurePolicy)
    (ackTimeout : String) : OrderInv (R := R) (Δ := Δ) [] (withAckTimeout names writers policy ackTimeout) where
  acks := acksInv_init names writers policy ackTimeout
  reached := fun _ ↦ ⟨.slnil, fun _ ↦ .slnil, nofun, nofun⟩
  caused := trivial

theorem orderInv_step (k : InnerWriter R Δ σ) (json : Serde) (h : List (Event N R Δ)) (f : FanoutSinkWriter N R Δ σ)
    (i : Input N R Δ) (hi : OrderInv h f) :
    OrderInv (h ++ (machine k json).emit f i) ((machine k json).next f i) where
  acks := acksInv_step k json h f i hi.acks
  reached := reached_step hi.acks hi.reached (machine_mux k json f i)
  caused := always_append.mpr ⟨hi.caused, caused_step hi.acks⟩

theorem OrderInv.changed (hi : OrderInv h f) {before after : List (Event N R Δ)} {event : Δ}
    {posts : List (Fin N × ℕ)} {reply : Reply} {s : Fin N} {p : Post R Δ}
    (hsplit : h = before ++ .returned (.schemaChange event) posts (.ok reply) :: after)
    (hposted : .posted s p ∈ after) :
    (∃ m reply, .performed s ⟨m, .schemaChange event⟩ (.ok reply) ∈ before) ∧
      ∀ outcome, .performed s p outcome ∉ before := by
  have hcaused := always_split.mp hi.caused
  obtain ⟨front, back, rfl⟩ := List.append_of_mem hposted
  constructor
  · have happlied : Caused before (.returned (.schemaChange event) posts (.ok reply)) := hcaused before _ _ hsplit
    refine happlied s fun reason hdead ↦ ?_
    have hlive : Caused (before ++ .returned (.schemaChange event) posts (.ok reply) :: front) (.posted s p) :=
      hcaused _ _ back (by simp [hsplit])
    exact hlive reason (List.mem_append_left _ hdead)
  · intro outcome hperformed
    obtain ⟨pre, post, rfl⟩ := List.append_of_mem hperformed
    have hearlier : Caused pre (.performed s p outcome) :=
      hcaused pre _ (post ++ .returned (.schemaChange event) posts (.ok reply) :: (front ++ .posted s p :: back))
        (by simp [hsplit])
    -- the command would have gone out twice, under one serial
    have hserials := hi.acks.lines.serials s
    rw [hsplit, postedTo_append] at hserials
    have hlt := (List.pairwise_append.mp hserials).2.2 p
      (mem_postedTo.mpr (List.mem_append_left _ hearlier)) p (mem_postedTo.mpr (by simp))
    exact lt_irrefl _ hlt

theorem sinks_observe_in_order (k : InnerWriter R Δ σ) (json : Serde) (names : Fin N → String) (writers : Fin N → σ)
    (policy : SinkFailurePolicy) (ackTimeout : String) (is : List (Input N R Δ)) :
    InOrder ((machine k json).trace (withAckTimeout names writers policy ackTimeout) is)
      ((machine k json).run (withAckTimeout names writers policy ackTimeout) is) := by
  have hi := Machine.invariant_all (orderInv_step k json) (orderInv_init names writers policy ackTimeout) is
  rw [List.nil_append] at hi
  constructor
  · intro s hopen
    rw [observedBy, underWay, commandsTo, ← (hi.acks.lines.line s).order hopen]
    simp
  · intro s
    have hstarted := (hi.acks.lines.line s).started.map Post.command
    simpa [observedBy, commandsTo, Function.comp_def] using hstarted
  · exact fun s ↦ (hi.reached s).called
  · exact fun s ↦ (hi.reached s).addressed
  · exact fun before after event posts reply s n row hsplit hposted ↦ hi.changed hsplit hposted

end SeaTunnel.Core.FanoutOrder
