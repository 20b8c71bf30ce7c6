import SeaTunnel.Core.Fanout

namespace SeaTunnel.Core.FanoutSteps

open Signaling Fanout FanoutSinkWriter Lib Lib.Runs

variable {R Δ σ : Type} {N : ℕ} {f f' : FanoutSinkWriter N R Δ σ} {events h : List (Event N R Δ)}
variable {call : SinkCommand R Δ} {s : Fin N} {n : ℕ} {todo : List (Fin N)} {posts : List (Fin N × ℕ)}
variable {lockFree timedOut : Bool} {pc : Pc N R Δ} {r : Option String × Result N R Δ σ} {g : FanoutSinkWriter N R Δ σ}

section Events

/-- The commands that went into the channel of sink `s`. -/
def postedTo (s : Fin N) (h : List (Event N R Δ)) : List (Post R Δ) :=
  h.filterMap fun
    | .posted t p => if t = s then some p else none
    | _ => none

/-- The commands that the writer of sink `s` has carried out, with their outcomes. -/
def performedBy (s : Fin N) (h : List (Event N R Δ)) : List (Post R Δ × Outcome Reply) :=
  h.filterMap fun
    | .performed t p outcome => if t = s then some (p, outcome) else none
    | _ => none

theorem postedTo_append (s : Fin N) (h events : List (Event N R Δ)) :
    postedTo s (h ++ events) = postedTo s h ++ postedTo s events := List.filterMap_append

theorem performedBy_append (s : Fin N) (h events : List (Event N R Δ)) :
    performedBy s (h ++ events) = performedBy s h ++ performedBy s events := List.filterMap_append

theorem mem_postedTo {p : Post R Δ} : p ∈ postedTo s h ↔ .posted s p ∈ h := by
  constructor
  · intro hp
    obtain ⟨e, he, heq⟩ := List.mem_filterMap.mp hp
    cases e with
    | posted t q =>
      by_cases hts : t = s
      · simp only [hts, if_true, Option.some.injEq] at heq
        exact hts ▸ heq ▸ he
      · simp [hts] at heq
    | _ => cases heq
  · intro hp
    exact List.mem_filterMap.mpr ⟨_, hp, by simp⟩

theorem mem_performedBy {p : Post R Δ} {outcome : Outcome Reply} :
    (p, outcome) ∈ performedBy s h ↔ .performed s p outcome ∈ h := by
  constructor
  · intro hp
    obtain ⟨e, he, heq⟩ := List.mem_filterMap.mp hp
    cases e with
    | performed t q o =>
      by_cases hts : t = s
      · simp only [hts, if_true, Option.some.injEq, Prod.mk.injEq] at heq
        obtain ⟨rfl, rfl⟩ := heq
        exact hts ▸ he
      · simp [hts] at heq
    | _ => cases heq
  · intro hp
    exact List.mem_filterMap.mpr ⟨_, hp, by simp⟩

def IsQuiet : Event N R Δ → Prop
  | .posted _ _ | .performed _ _ _ => False
  | _ => True

theorem postedTo_quiet (hevents : ∀ e ∈ events, IsQuiet e) : postedTo s events = [] :=
  List.filterMap_eq_nil_iff.mpr fun e he ↦ by
    have hquiet := hevents e he
    cases e <;> first | rfl | exact hquiet.elim

theorem performedBy_quiet (hevents : ∀ e ∈ events, IsQuiet e) : performedBy s events = [] :=
  List.filterMap_eq_nil_iff.mpr fun e he ↦ by
    have hquiet := hevents e he
    cases e <;> first | rfl | exact hquiet.elim

end Events

section Updates

variable {t : Fin N} {handle : SinkHandle R Δ σ}

@[simp] theorem update_self : (f.update s handle).handles s = handle := Function.update_self ..

@[simp] theorem update_of_ne (hts : t ≠ s) : (f.update s handle).handles t = f.handles t :=
  Function.update_of_ne hts ..

@[simp] theorem update_nextSerial : (f.update s handle).nextSerial = f.nextSerial := rfl

@[simp] theorem go_handles (pc : Pc N R Δ) : (f.go pc).handles = f.handles := rfl

@[simp] theorem go_nextSerial (pc : Pc N R Δ) : (f.go pc).nextSerial = f.nextSerial := rfl

@[simp] theorem used_handles : f.used.handles = f.handles := rfl

@[simp] theorem used_nextSerial : f.used.nextSerial = f.nextSerial + 1 := rfl

end Updates

section Line

def inHand : Worker R Δ → List (Post R Δ)
  | .busy p => [p]
  | _ => []

def Kills : Post R Δ × Outcome Reply → Prop
  | (_, .panic _) => True
  | (p, .err _) => (∃ row, p.command = .write row) ∨ p.command = .close
  | (p, .ok _) => p.command = .close

def outcomeOf : Except String Reply → Outcome Reply
  | .ok reply => .ok reply
  | .error e => .err e

structure SameLine (a b : SinkHandle R Δ σ) : Prop where
  hand : inHand b.worker = inHand a.worker
  gone : b.worker.gone = a.worker.gone
  queue : b.queue = a.queue
  answers : b.answers = a.answers

theorem SameLine.refl (a : SinkHandle R Δ σ) : SameLine a a := ⟨rfl, rfl, rfl, rfl⟩

end Line

section Marks

structure Marks (s : Fin N) (f : FanoutSinkWriter N R Δ σ) (r : Option String × Result N R Δ σ) : Prop where
  fails : r.1.isSome → f.policy = .fail ∧ (f.handles s).dead = false
  goesOn : r.1 = none → (f.handles s).dead = false → f.policy = .isolate
  same : ∀ t, SameLine (f.handles t) (r.2.1.handles t)
  dead : ∀ t, (r.2.1.handles t).dead = ((f.handles t).dead || t = s)
  tx : ∀ t, (r.2.1.handles t).tx = (f.handles t).tx
  names : ∀ t, (r.2.1.handles t).name = (f.handles t).name
  pc : r.2.1.pc = f.pc
  policy : r.2.1.policy = f.policy
  serial : r.2.1.nextSerial = f.nextSerial
  events : r.2.2 = [] ∧ (f.handles s).dead = true ∨ ∃ reason, r.2.2 = [.markedDead s reason]

theorem markDead_marks (s : Fin N) (reason : String) (f : FanoutSinkWriter N R Δ σ) :
    Marks s f (f.markDead s reason) := by
  unfold markDead
  split
  · next hdead =>
    refine ⟨by simp, by simp [hdead], fun t ↦ .refl _, fun t ↦ ?_, fun t ↦ rfl, fun t ↦ rfl, rfl, rfl, rfl,
      .inl ⟨rfl, hdead⟩⟩
    by_cases hts : t = s <;> simp [hts, hdead]
  · next hdead =>
    refine ⟨fun hsome ↦ ?_, fun hnone _ ↦ ?_, fun t ↦ ?_, fun t ↦ ?_, fun t ↦ ?_, fun t ↦ ?_, rfl, rfl, rfl,
      .inr ⟨reason, rfl⟩⟩
    · cases hpolicy : f.policy with
      | fail => exact ⟨rfl, by simpa using hdead⟩
      | isolate => simp [hpolicy] at hsome
    · cases hpolicy : f.policy with
      | fail => simp [hpolicy] at hnone
      | isolate => rfl
    · by_cases hts : t = s
      · subst hts
        exact ⟨by simp, by simp, by simp, by simp⟩
      · simpa [hts] using SameLine.refl (f.handles t)
    all_goals
      by_cases hts : t = s
      · subst hts
        simp
      · simp [hts]

theorem onChannelClosed_marks (s : Fin N) (op : String) (lockFree : Bool) (f : FanoutSinkWriter N R Δ σ) :
    Marks s f (f.onChannelClosed s op lockFree) :=
  markDead_marks s _ f

theorem sendCommand_cases {command : SinkCommand R Δ} (hr : f.sendCommand s command lockFree timedOut = some r) :
    ((f.handles s).worker.gone = false ∧ r.1 = none ∧ r.2.1 = f.post s command ∧
        r.2.2 = [.posted s ⟨f.nextSerial, command⟩]) ∨ Marks s f r := by
  unfold sendCommand at hr
  split at hr
  · obtain rfl := Option.some.inj hr
    exact .inr (onChannelClosed_marks s command.op lockFree f)
  · next hopen =>
    split at hr
    · obtain rfl := Option.some.inj hr
      exact .inl ⟨by simpa using hopen, rfl, rfl, rfl⟩
    · split at hr
      · obtain rfl := Option.some.inj hr
        exact .inr (markDead_marks s _ f)
      · cases hr

theorem ackResult_cases
    {r : Except (Option String × Result N R Δ σ) Reply} (hr : f.ackResult call s n lockFree timedOut = some r) :
    (∃ reply, (f.handles s).answers.lookup n = some (.ok reply) ∧ r = .ok reply) ∨
      ∃ r', r = .error r' ∧ Marks s f r' := by
  unfold ackResult at hr
  split at hr
  · next reply hlookup =>
    obtain rfl := Option.some.inj hr
    exact .inl ⟨reply, hlookup, rfl⟩
  · next e _ =>
    obtain rfl := Option.some.inj hr
    have hmarks := markDead_marks s (e ++ " (op: " ++ call.op ++ ")")
      { f with errors := f.errors.insert (f.handles s).name (e ++ " (op: " ++ call.op ++ ")") }
    exact .inr ⟨_, rfl, ⟨hmarks.fails, hmarks.goesOn, hmarks.same, hmarks.dead, hmarks.tx, hmarks.names, hmarks.pc,
      hmarks.policy, hmarks.serial, hmarks.events⟩⟩
  · split at hr
    · split at hr
      · obtain rfl := Option.some.inj hr
        exact .inr ⟨_, rfl, markDead_marks s _ f⟩
      · cases hr
    · obtain rfl := Option.some.inj hr
      exact .inr ⟨_, rfl, onChannelClosed_marks s call.op lockFree f⟩

theorem ackResult_ok {reply : Reply} (hack : f.ackResult call s n lockFree timedOut = some (.ok reply)) :
    (f.handles s).answers.lookup n = some (.ok reply) := by
  rcases ackResult_cases hack with ⟨reply', hanswer, heq⟩ | ⟨r, heq, -⟩
  · obtain rfl := Except.ok.inj heq
    exact hanswer
  · cases heq

theorem ackResult_marks (hack : f.ackResult call s n lockFree timedOut = some (.error r)) :
    Marks s f r := by
  rcases ackResult_cases hack with ⟨reply, -, heq⟩ | ⟨r', heq, hmarks⟩
  · cases heq
  · obtain rfl := Except.error.inj heq
    exact hmarks

end Marks

section Sending

inductive Sends (f : FanoutSinkWriter N R Δ σ) (call : SinkCommand R Δ) (s : Fin N) (posts : List (Fin N × ℕ))
    (pc : Pc N R Δ) : Result N R Δ σ → Prop
  | panicked : Sends f call s posts pc (f.panic, [])
  | waits : Sends f call s posts pc (f, [])
  | sent (hopen : (f.handles s).worker.gone = false) :
      Sends f call s posts pc ((f.post s call).used.go pc, [.posted s ⟨f.nextSerial, call⟩])
  | lost (g : FanoutSinkWriter N R Δ σ) (events : List (Event N R Δ)) (hmarks : Marks s f (none, g, events)) :
      Sends f call s posts pc (g.used.go pc, events)
  | ended (e : String) (g : FanoutSinkWriter N R Δ σ) (events : List (Event N R Δ))
      (hmarks : Marks s f (some e, g, events)) :
      Sends f call s posts pc ((g.used.endCall call posts (.error e)).1,
        events ++ (g.used.endCall call posts (.error e)).2)

theorem sends_of_goesOn (hsend : f.sendCommand s call lockFree timedOut = some (none, g, events)) (pc : Pc N R Δ) :
    Sends f call s posts pc (g.used.go pc, events) := by
  rcases sendCommand_cases hsend with ⟨hopen, -, rfl, rfl⟩ | hmarks
  · exact .sent hopen
  · exact .lost g events hmarks

theorem sends_of_fails {e : String}
    (hsend : f.sendCommand s call lockFree timedOut = some (some e, g, events)) (pc : Pc N R Δ) :
    Sends f call s posts pc ((g.used.endCall call posts (.error e)).1,
      events ++ (g.used.endCall call posts (.error e)).2) := by
  rcases sendCommand_cases hsend with ⟨-, hnone, -⟩ | hmarks
  · cases hnone
  · exact .ended e g events hmarks

theorem sendStep_sends (call : SinkCommand R Δ) :
    Sends f call s (posts ++ [(s, f.nextSerial)]) (.sending call todo (posts ++ [(s, f.nextSerial)]))
      (f.sendStep call s todo posts lockFree timedOut) := by
  unfold sendStep
  split
  · exact .panicked
  · split
    · exact .waits
    · next hsend => exact sends_of_goesOn hsend _
    · next hsend => exact sends_of_fails hsend _

theorem writeStep_sends (row : R) (last : Fin N) :
    Sends f (.write row) s (posts ++ [(s, f.nextSerial)]) (.writing row last todo (posts ++ [(s, f.nextSerial)]))
      (f.writeStep row last s todo posts lockFree timedOut) := by
  unfold writeStep
  split
  · exact .panicked
  · split
    · exact .waits
    · next hsend => exact sends_of_goesOn hsend _
    · next hsend => exact sends_of_fails hsend _

end Sending

section Multiplexer

def callOf : Pc N R Δ → Option (SinkCommand R Δ)
  | .sending call _ _ => some call
  | .awaiting call _ _ _ => some call
  | .writing row _ _ _ => some (.write row)
  | _ => none

def addressing : Pc N R Δ → Option (SinkCommand R Δ × List (Fin N) × List (Fin N × ℕ))
  | .sending call todo posts => some (call, todo, posts)
  | .writing row _ todo posts => some (.write row, todo, posts)
  | _ => none

def todoOf (pc : Pc N R Δ) : List (Fin N) := ((addressing pc).map fun x ↦ x.2.1).getD []

def postsOf : Pc N R Δ → List (Fin N × ℕ)
  | .sending _ _ posts | .awaiting _ posts _ _ | .writing _ _ _ posts => posts
  | _ => []

theorem addressing_eq {c : SinkCommand R Δ} (haddress : addressing pc = some (c, todo, posts)) :
    callOf pc = some c ∧ todoOf pc = todo ∧ postsOf pc = posts := by
  cases pc with
  | sending call todo' posts' =>
    simp only [addressing, Option.some.injEq, Prod.mk.injEq] at haddress
    obtain ⟨rfl, rfl, rfl⟩ := haddress
    exact ⟨rfl, rfl, rfl⟩
  | writing row last todo' posts' =>
    simp only [addressing, Option.some.injEq, Prod.mk.injEq] at haddress
    obtain ⟨rfl, rfl, rfl⟩ := haddress
    exact ⟨rfl, rfl, rfl⟩
  | _ => cases haddress

def SameDead (f f' : FanoutSinkWriter N R Δ σ) : Prop := ∀ s, (f'.handles s).dead = (f.handles s).dead

def DeadToo (s : Fin N) (f f' : FanoutSinkWriter N R Δ σ) : Prop :=
  ∀ t, (f'.handles t).dead = ((f.handles t).dead || t = s)

def IsDead (f : FanoutSinkWriter N R Δ σ) (s : Fin N) : Prop := (f.handles s).dead = true

instance (f : FanoutSinkWriter N R Δ σ) : DecidablePred (IsDead f) := fun s ↦
  inferInstanceAs (Decidable ((f.handles s).dead = true))

theorem SameDead.iff (hdead : SameDead f f') (s : Fin N) : IsDead f' s ↔ IsDead f s := by
  rw [IsDead, hdead s, IsDead]

theorem DeadToo.iff (hdead : DeadToo s f f') (t : Fin N) : IsDead f' t ↔ IsDead f t ∨ t = s := by
  rw [IsDead, hdead t, Bool.or_eq_true, decide_eq_true_eq, IsDead]

def IsTask : Event N R Δ → Prop
  | .performed _ _ _ | .flushed _ _ => True
  | _ => False

inductive MuxStep (json : Serde) (f f' : FanoutSinkWriter N R Δ σ) : List (Event N R Δ) → Prop
  | rest (events : List (Event N R Δ)) (hpc : f'.pc = f.pc) (hdead : SameDead f f')
      (hevents : ∀ e ∈ events, IsTask e) : MuxStep json f f' events
  | begun (call : SinkCommand R Δ) (hidle : f.pc = .idle) (hdead : SameDead f f')
      (haddress : addressing f'.pc = some (call, f.alive, [])) : MuxStep json f f' [.called call]
  | refused (row : R) (e : String) (hidle : f.pc = .idle) (halive : f.alive = []) (hf' : f' = f) :
      MuxStep json f f' [.called (.write row), .returned (.write row) [] (.error e)]
  | sent (call : SinkCommand R Δ) (s : Fin N) (todo : List (Fin N)) (posts : List (Fin N × ℕ))
      (haddress : addressing f.pc = some (call, s :: todo, posts))
      (haddress' : addressing f'.pc = some (call, todo, posts ++ [(s, f.nextSerial)])) (hdead : SameDead f f')
      (hopen : (f.handles s).worker.gone = false) : MuxStep json f f' [.posted s ⟨f.nextSerial, call⟩]
  | lost (events : List (Event N R Δ)) (call : SinkCommand R Δ) (s : Fin N) (todo : List (Fin N))
      (posts : List (Fin N × ℕ)) (haddress : addressing f.pc = some (call, s :: todo, posts))
      (haddress' : addressing f'.pc = some (call, todo, posts ++ [(s, f.nextSerial)])) (hdead : DeadToo s f f')
      (hpolicy : (f.handles s).dead = false → f.policy = .isolate)
      (hmarks : events = [] ∧ (f.handles s).dead = true ∨ ∃ reason, events = [.markedDead s reason]) :
      MuxStep json f f' events
  | collected (call : SinkCommand R Δ) (posts : List (Fin N × ℕ)) (hpc : f.pc = .sending call [] posts)
      (hpc' : f'.pc = .awaiting call posts posts []) (hdead : SameDead f f') : MuxStep json f f' []
  | acked (call : SinkCommand R Δ) (posts : List (Fin N × ℕ)) (s : Fin N) (n : ℕ) (acks : List (Fin N × ℕ))
      (results : List Reply) (reply : Reply) (hpc : f.pc = .awaiting call posts ((s, n) :: acks) results)
      (hpc' : f'.pc = .awaiting call posts acks (results ++ [reply])) (hdead : SameDead f f')
      (hanswer : (f.handles s).answers.lookup n = some (.ok reply)) : MuxStep json f f' []
  | missed (events : List (Event N R Δ)) (call : SinkCommand R Δ) (posts : List (Fin N × ℕ)) (s : Fin N) (n : ℕ)
      (acks : List (Fin N × ℕ)) (results : List Reply) (hpc : f.pc = .awaiting call posts ((s, n) :: acks) results)
      (hpc' : f'.pc = .awaiting call posts acks results) (hdead : DeadToo s f f')
      (hpolicy : (f.handles s).dead = false → f.policy = .isolate)
      (hmarks : events = [] ∧ (f.handles s).dead = true ∨ ∃ reason, events = [.markedDead s reason]) :
      MuxStep json f f' events
  | aborted (call : SinkCommand R Δ) (posts : List (Fin N × ℕ)) (s : Fin N) (reason e : String)
      (hcall : callOf f.pc = some call) (hclose : call ≠ .close) (hpc' : f'.pc = .idle) (hdead : DeadToo s f f')
      (hpolicy : f.policy = .fail) (halive : (f.handles s).dead = false) :
      MuxStep json f f' [.markedDead s reason, .returned call posts (.error e)]
  | finished (call : SinkCommand R Δ) (posts : List (Fin N × ℕ)) (results : List Reply)
      (hpc : f.pc = .awaiting call posts [] results) (hclose : call ≠ .close) (hf' : f' = f.go .idle) :
      MuxStep json f f' [.returned call posts (.ok (f.broadcastResult json call results))]
  | written (row : R) (last : Fin N) (posts : List (Fin N × ℕ)) (hpc : f.pc = .writing row last [] posts)
      (hf' : f' = f.go .idle) : MuxStep json f f' [.returned (.write row) posts (f.writeResult last)]
  | closing (posts : List (Fin N × ℕ)) (results : List Reply) (hpc : f.pc = .awaiting .close posts [] results)
      (hpc' : f'.pc = .joining (List.finRange N)) (hdead : SameDead f f') : MuxStep json f f' []
  | cutShort (s : Fin N) (reason : String) (hcall : callOf f.pc = some .close)
      (hpc' : f'.pc = .joining (List.finRange N)) (hdead : DeadToo s f f') :
      MuxStep json f f' [.markedDead s reason]
  | joined (todo todo' : List (Fin N)) (hpc : f.pc = .joining todo) (hpc' : f'.pc = .joining todo')
      (hdead : SameDead f f') : MuxStep json f f' []
  | closed (hpc : f.pc = .joining []) (hf' : f' = f.go .idle) :
      MuxStep json f f' [.returned .close [] (.ok .unit)]
  | panicked (events : List (Event N R Δ)) (hpc' : f'.pc = .panicked) (hdead : SameDead f f')
      (hevents : ∀ e ∈ events, e = .called .openWriter) : MuxStep json f f' events

theorem post_sameDead (s : Fin N) (command : SinkCommand R Δ) : SameDead f (f.post s command) := by
  intro t
  by_cases hts : t = s
  · subst hts
    simp [post]
  · simp [post, hts]

theorem endCall_mux (json : Serde) {e : String} (hmarks : Marks s f r)
    (he : r.1 = some e) (hcall : callOf f.pc = some call) (hg : g.handles = r.2.1.handles) :
    MuxStep json f (g.endCall call posts (.error e)).1 (r.2.2 ++ (g.endCall call posts (.error e)).2) := by
  obtain ⟨hpolicy, halive⟩ := hmarks.fails (by simp [he])
  rcases hmarks.events with ⟨-, hdead⟩ | ⟨reason, hevents⟩
  · rw [halive] at hdead
    cases hdead
  · have hdead : ∀ pc, DeadToo s f (g.go pc) := by
      intro pc t
      rw [go_handles, hg]
      exact hmarks.dead t
    rw [hevents]
    cases call with
    | close => exact .cutShort s reason hcall rfl (hdead _)
    | openWriter => exact .aborted .openWriter posts s reason e hcall nofun rfl (hdead _) hpolicy halive
    | write row => exact .aborted (.write row) posts s reason e hcall nofun rfl (hdead _) hpolicy halive
    | schemaChange event =>
      exact .aborted (.schemaChange event) posts s reason e hcall nofun rfl (hdead _) hpolicy halive
    | prepareCommit n => exact .aborted (.prepareCommit n) posts s reason e hcall nofun rfl (hdead _) hpolicy halive
    | snapshotState => exact .aborted .snapshotState posts s reason e hcall nofun rfl (hdead _) hpolicy halive

theorem Sends.mux (json : Serde) {r : Result N R Δ σ} (hsends : Sends f call s (posts ++ [(s, f.nextSerial)]) pc r)
    (haddress : addressing f.pc = some (call, s :: todo, posts))
    (haddress' : addressing pc = some (call, todo, posts ++ [(s, f.nextSerial)])) : MuxStep json f r.1 r.2 := by
  cases hsends with
  | panicked => exact .panicked [] rfl (fun _ ↦ rfl) (by simp)
  | waits => exact .rest [] rfl (fun _ ↦ rfl) (by simp)
  | sent hopen => exact .sent call s todo posts haddress haddress' (post_sameDead s call) hopen
  | lost g events hmarks =>
    exact .lost events call s todo posts haddress haddress' hmarks.dead (hmarks.goesOn rfl) hmarks.events
  | ended e g events hmarks => exact endCall_mux json hmarks rfl (addressing_eq haddress).1 rfl

theorem ackStep_mux (json : Serde) {posts acks : List (Fin N × ℕ)} {results : List Reply}
    (hpc : f.pc = .awaiting call posts ((s, n) :: acks) results) :
    MuxStep json f (f.ackStep call posts s n acks results lockFree timedOut).1
      (f.ackStep call posts s n acks results lockFree timedOut).2 := by
  have hcall : callOf f.pc = some call := by rw [hpc]; rfl
  unfold ackStep
  split
  · exact .rest [] rfl (fun _ ↦ rfl) (by simp)
  · next reply hack =>
    exact .acked call posts s n acks results reply hpc rfl (fun _ ↦ rfl) (ackResult_ok hack)
  · next g events hack =>
    have hmarks := ackResult_marks hack
    exact .missed events call posts s n acks results hpc rfl hmarks.dead (hmarks.goesOn rfl) hmarks.events
  · next e g events hack => exact endCall_mux json (ackResult_marks hack) rfl hcall rfl

theorem callStep_mux (json : Serde) (call : SinkCommand R Δ) (hidle : f.pc = .idle) :
    MuxStep json f (f.callStep call).1 (f.callStep call).2 := by
  unfold callStep
  split
  · split
    · exact .panicked _ rfl (fun _ ↦ rfl) (by simp)
    · refine .begun .openWriter hidle (fun s ↦ ?_) rfl
      unfold spawn
      dsimp only
      split <;> rfl
  · next row =>
    split
    · next hnone => exact .refused row _ hidle (by simpa using hnone) rfl
    · exact .begun (.write row) hidle (fun _ ↦ rfl) rfl
  · exact .begun _ hidle (fun _ ↦ rfl) rfl

theorem joinStep_mux (json : Serde) (hpc : f.pc = .joining (s :: todo)) :
    MuxStep json f (f.joinStep s todo).1 (f.joinStep s todo).2 := by
  unfold joinStep
  split
  · refine .joined (s :: todo) (s :: todo) hpc hpc fun t ↦ ?_
    by_cases hts : t = s
    · subst hts
      simp
    · simp [hts]
  · split
    · exact .joined (s :: todo) todo hpc rfl fun _ ↦ rfl
    · exact .joined (s :: todo) todo hpc rfl fun _ ↦ rfl
    · exact .rest [] rfl (fun _ ↦ rfl) (by simp)

theorem muxStep_mux (json : Serde) (lockFree timedOut : Bool) (f : FanoutSinkWriter N R Δ σ) :
    MuxStep json f (f.muxStep json lockFree timedOut).1 (f.muxStep json lockFree timedOut).2 := by
  unfold muxStep
  split
  · exact .rest [] rfl (fun _ ↦ rfl) (by simp)
  · exact .rest [] rfl (fun _ ↦ rfl) (by simp)
  · next call s todo posts hpc => exact (sendStep_sends call).mux json (by rw [hpc]; rfl) rfl
  · next call posts hpc => exact .collected call posts hpc rfl fun _ ↦ rfl
  · next hpc => exact ackStep_mux json hpc
  · next call posts results hpc =>
    cases call with
    | close => exact .closing posts results hpc rfl fun _ ↦ rfl
    | openWriter => exact .finished .openWriter posts results hpc nofun rfl
    | write row => exact .finished (.write row) posts results hpc nofun rfl
    | schemaChange event => exact .finished (.schemaChange event) posts results hpc nofun rfl
    | prepareCommit n => exact .finished (.prepareCommit n) posts results hpc nofun rfl
    | snapshotState => exact .finished .snapshotState posts results hpc nofun rfl
  · next row last s todo posts hpc => exact (writeStep_sends row last).mux json (by rw [hpc]; rfl) rfl
  · next row last posts hpc => exact .written row last posts hpc rfl
  · next hpc => exact joinStep_mux json hpc
  · next hpc => exact .closed hpc rfl

end Multiplexer

section Tasks

structure TaskOnly (a b : SinkHandle R Δ σ) : Prop where
  name : b.name = a.name
  tx : b.tx = a.tx
  dead : b.dead = a.dead

theorem afterCommand_only (p : Post R Δ) (outcome : Outcome Reply) (a : SinkHandle R Δ σ) :
    TaskOnly a (afterCommand p outcome a) := by
  unfold afterCommand
  split
  · exact ⟨rfl, rfl, rfl⟩
  · split <;> exact ⟨rfl, rfl, rfl⟩
  · split <;> exact ⟨rfl, rfl, rfl⟩

theorem sameDead_update {a : SinkHandle R Δ σ} (ha : a.dead = (f.handles s).dead) :
    SameDead f (f.update s a) := by
  intro t
  by_cases hts : t = s
  · subst hts
    simpa using ha
  · simp [hts]

theorem recvStep_mux (json : Serde) (s : Fin N) : MuxStep json f (f.recvStep s) [] := by
  unfold recvStep
  dsimp only
  split
  · exact .rest [] rfl (sameDead_update rfl) (by simp)
  · split
    · exact .rest [] rfl (fun _ ↦ rfl) (by simp)
    · exact .rest [] rfl (sameDead_update rfl) (by simp)
  · exact .rest [] rfl (fun _ ↦ rfl) (by simp)

theorem performStep_mux (json : Serde) (k : InnerWriter R Δ σ) (s : Fin N) :
    MuxStep json f (f.performStep k s).1 (f.performStep k s).2 := by
  unfold performStep
  dsimp only
  split
  · exact .rest _ rfl (sameDead_update (afterCommand_only _ _ _).dead) (by simp [IsTask])
  · exact .rest _ rfl (sameDead_update rfl) (by simp)
  · exact .rest _ rfl (fun _ ↦ rfl) (by simp)

theorem tickStep_mux (json : Serde) (k : InnerWriter R Δ σ) (s : Fin N) :
    MuxStep json f (f.tickStep k s).1 (f.tickStep k s).2 := by
  unfold tickStep
  dsimp only
  split
  · split
    · exact .rest _ rfl (sameDead_update rfl) (by simp [IsTask])
    · exact .rest _ rfl (sameDead_update rfl) (by simp [IsTask])
    · exact .rest _ rfl (sameDead_update rfl) (by simp [IsTask])
  · exact .rest _ rfl (fun _ ↦ rfl) (by simp)

theorem machine_call (k : InnerWriter R Δ σ) (json : Serde) (call : SinkCommand R Δ) (f : FanoutSinkWriter N R Δ σ) :
    (f.pc = .idle ∧ (machine k json).step f (.call call) = f.callStep call) ∨
      (f.pc ≠ .idle ∧ (machine k json).step f (.call call) = (f, [])) := by
  cases hpc : f.pc with
  | idle => exact .inl ⟨rfl, by simp [machine, hpc]⟩
  | _ => exact .inr ⟨nofun, by simp [machine, hpc]⟩

theorem machine_mux (k : InnerWriter R Δ σ) (json : Serde) (f : FanoutSinkWriter N R Δ σ) (i : Input N R Δ) :
    MuxStep json f ((machine k json).next f i) ((machine k json).emit f i) := by
  cases i with
  | call call =>
    rcases machine_call k json call f with ⟨hidle, hstep⟩ | ⟨-, hstep⟩
    · simp only [Machine.next, Machine.emit, hstep]
      exact callStep_mux json call hidle
    · simp only [Machine.next, Machine.emit, hstep]
      exact .rest [] rfl (fun _ ↦ rfl) (by simp)
  | mux lockFree timedOut => exact muxStep_mux json lockFree timedOut f
  | recv s => exact recvStep_mux json s
  | perform s => exact performStep_mux json k s
  | tick s => exact tickStep_mux json k s

theorem MuxStep.returned_ok {json : Serde} {reply : Reply}
    (hstep : MuxStep json f f' events) (hmem : .returned call posts (.ok reply) ∈ events) (hclose : call ≠ .close) :
    f' = f.go .idle ∧ events = [.returned call posts (.ok reply)] ∧
      ((∃ results, f.pc = .awaiting call posts [] results ∧ reply = f.broadcastResult json call results) ∨
        ∃ row last, call = .write row ∧ f.pc = .writing row last [] posts ∧ (f.handles last).dead = false) := by
  cases hstep with
  | rest events hpc hdead hevents => exact (hevents _ hmem).elim
  | lost events call' s todo posts' haddress haddress' hdead hpolicy hmarks =>
    rcases hmarks with ⟨rfl, -⟩ | ⟨reason, rfl⟩ <;> simp at hmem
  | missed events call' posts' s n acks results hpc hpc' hdead hpolicy hmarks =>
    rcases hmarks with ⟨rfl, -⟩ | ⟨reason, rfl⟩ <;> simp at hmem
  | finished call' posts' results hpc _ hf' =>
    obtain ⟨rfl, rfl, rfl⟩ := by simpa using hmem
    exact ⟨hf', rfl, .inl ⟨results, hpc, rfl⟩⟩
  | written row last posts' hpc hf' =>
    obtain ⟨rfl, rfl, hresult⟩ := by simpa using hmem
    refine ⟨hf', by rw [hresult], .inr ⟨row, last, rfl, hpc, ?_⟩⟩
    unfold writeResult at hresult
    split at hresult
    · cases hresult
    · next hlive => simpa using hlive
  | closed hpc hf' =>
    obtain ⟨rfl, -⟩ := by simpa using hmem
    exact absurd rfl hclose
  | panicked events hpc' hdead hevents => cases hevents _ hmem
  | _ => simp at hmem

def Succeeds : Event N R Δ → Prop
  | .returned .close _ _ => False
  | .returned _ _ (.ok _) => True
  | _ => False

theorem exists_of_succeeds {e : Event N R Δ} (he : Succeeds e) :
    ∃ call posts reply, e = .returned call posts (.ok reply) ∧ call ≠ .close := by
  unfold Succeeds at he
  split at he
  · exact he.elim
  · next call posts reply hclose => exact ⟨call, posts, reply, rfl, hclose⟩
  · exact he.elim

theorem MuxStep.always {json : Serde} {Q : List (Event N R Δ) → Event N R Δ → Prop} (hstep : MuxStep json f f' events)
    (hother : ∀ h e, ¬ Succeeds e → Q h e) (hsucceeds : ∀ e ∈ events, Succeeds e → Q h e) : Always Q h events := by
  refine always_split.mpr fun pre e post hsplit ↦ ?_
  by_cases he : Succeeds e
  · have hmem : e ∈ events := by simp [hsplit]
    have hq := hsucceeds e hmem he
    obtain ⟨call, posts, reply, rfl, hclose⟩ := exists_of_succeeds he
    -- it is the only event of its step
    rw [(hstep.returned_ok hmem hclose).2.1] at hsplit
    cases pre with
    | nil => simpa using hq
    | cons x pre => simp at hsplit
  · exact hother _ e he

end Tasks

section Fixed

structure Fixed (f f' : FanoutSinkWriter N R Δ σ) : Prop where
  names : ∀ s, (f'.handles s).name = (f.handles s).name
  policy : f'.policy = f.policy

theorem Fixed.same (hhandles : f'.handles = f.handles) (hpolicy : f'.policy = f.policy) : Fixed f f' :=
  ⟨fun s ↦ by rw [hhandles], hpolicy⟩

theorem Fixed.updated {a : SinkHandle R Δ σ} (hhandles : f'.handles = (f.update s a).handles)
    (hpolicy : f'.policy = f.policy) (hname : a.name = (f.handles s).name) : Fixed f f' := by
  refine ⟨fun t ↦ ?_, hpolicy⟩
  rw [hhandles]
  by_cases hts : t = s
  · subst hts
    simpa using hname
  · simp [hts]

theorem Fixed.ended (hfixed : Fixed f g) (call : SinkCommand R Δ)
    (posts : List (Fin N × ℕ)) (result : Except String Reply) : Fixed f (g.endCall call posts result).1 := by
  cases call <;> exact ⟨hfixed.names, hfixed.policy⟩

theorem Marks.fixed (hmarks : Marks s f r) : Fixed f r.2.1 :=
  ⟨hmarks.names, hmarks.policy⟩

theorem Sends.fixed {r : Result N R Δ σ} (hsends : Sends f call s posts pc r) : Fixed f r.1 := by
  cases hsends with
  | panicked => exact ⟨fun _ ↦ rfl, rfl⟩
  | waits => exact .same rfl rfl
  | sent hopen => exact .updated rfl rfl rfl
  | lost g events hmarks => exact ⟨hmarks.names, hmarks.policy⟩
  | ended e g events hmarks =>
    have hused : Fixed f g.used := ⟨hmarks.names, hmarks.policy⟩
    exact hused.ended call _ _

theorem ackStep_fixed (call : SinkCommand R Δ) (posts : List (Fin N × ℕ)) (s : Fin N) (n : ℕ)
    (acks : List (Fin N × ℕ)) (results : List Reply) (lockFree timedOut : Bool) (f : FanoutSinkWriter N R Δ σ) :
    Fixed f (f.ackStep call posts s n acks results lockFree timedOut).1 := by
  unfold ackStep
  split
  · exact .same rfl rfl
  · exact .same rfl rfl
  · next g events hack => exact ⟨(ackResult_marks hack).names, (ackResult_marks hack).policy⟩
  · next e g events hack => exact (ackResult_marks hack).fixed.ended call posts _

theorem muxStep_fixed (json : Serde) (lockFree timedOut : Bool) (f : FanoutSinkWriter N R Δ σ) :
    Fixed f (f.muxStep json lockFree timedOut).1 := by
  unfold muxStep
  split
  · exact .same rfl rfl
  · exact .same rfl rfl
  · exact (sendStep_sends _).fixed
  · exact .same rfl rfl
  · exact ackStep_fixed _ _ _ _ _ _ _ _ f
  · exact (Fixed.same rfl rfl).ended _ _ _
  · exact (writeStep_sends _ _).fixed
  · exact .same rfl rfl
  · unfold joinStep
    split
    · exact .updated rfl rfl rfl
    · split <;> exact .same rfl rfl
  · exact .same rfl rfl

theorem callStep_fixed (call : SinkCommand R Δ) (f : FanoutSinkWriter N R Δ σ) : Fixed f (f.callStep call).1 := by
  unfold callStep
  split
  · split
    · exact ⟨fun _ ↦ rfl, rfl⟩
    · refine ⟨fun s ↦ ?_, rfl⟩
      change (spawn (f.handles s)).name = (f.handles s).name
      unfold spawn
      split <;> rfl
  · split <;> exact .same rfl rfl
  · exact .same rfl rfl

theorem recvStep_fixed (s : Fin N) (f : FanoutSinkWriter N R Δ σ) : Fixed f (f.recvStep s) := by
  unfold recvStep
  dsimp only
  split
  · exact .updated rfl rfl rfl
  · split
    · exact .same rfl rfl
    · exact .updated rfl rfl rfl
  · exact .same rfl rfl

theorem performStep_fixed (k : InnerWriter R Δ σ) (s : Fin N) (f : FanoutSinkWriter N R Δ σ) :
    Fixed f (f.performStep k s).1 := by
  unfold performStep
  dsimp only
  split
  · exact .updated rfl rfl (afterCommand_only _ _ _).name
  · exact .updated rfl rfl rfl
  · exact .same rfl rfl

theorem tickStep_fixed (k : InnerWriter R Δ σ) (s : Fin N) (f : FanoutSinkWriter N R Δ σ) :
    Fixed f (f.tickStep k s).1 := by
  unfold tickStep
  dsimp only
  split
  · split <;> exact .updated rfl rfl rfl
  · exact .same rfl rfl

theorem machine_fixed (k : InnerWriter R Δ σ) (json : Serde) (f : FanoutSinkWriter N R Δ σ) (i : Input N R Δ) :
    Fixed f ((machine k json).next f i) := by
  cases i with
  | call call =>
    rcases machine_call k json call f with ⟨-, hstep⟩ | ⟨-, hstep⟩
    · rw [Machine.next, hstep]
      exact callStep_fixed call f
    · rw [Machine.next, hstep]
      exact .same rfl rfl
  | mux lockFree timedOut => exact muxStep_fixed json lockFree timedOut f
  | recv s => exact recvStep_fixed s f
  | perform s => exact performStep_fixed k s f
  | tick s => exact tickStep_fixed k s f

end Fixed

section TaskEvents

variable {k : InnerWriter R Δ σ} {json : Serde} {i : Input N R Δ} {t : Fin N} {e : Event N R Δ}

theorem Marks.no_task (hmarks : Marks s f r) :
    ∀ e ∈ r.2.2, ¬ IsTask e := by
  intro e he
  rcases hmarks.events with ⟨hnil, -⟩ | ⟨reason, hone⟩
  · simp [hnil] at he
  · rw [hone, List.mem_singleton] at he
    rw [he]
    exact id

theorem endCall_no_task (call : SinkCommand R Δ) (posts : List (Fin N × ℕ)) (result : Except String Reply) :
    ∀ e ∈ (f.endCall call posts result).2, ¬ IsTask e := by
  cases call <;> simp [endCall, IsTask]

theorem not_task_append {events' : List (Event N R Δ)} (hevents : ∀ e ∈ events, ¬ IsTask e)
    (hevents' : ∀ e ∈ events', ¬ IsTask e) : ∀ e ∈ events ++ events', ¬ IsTask e :=
  fun e he ↦ (List.mem_append.mp he).elim (hevents e) (hevents' e)

theorem Sends.no_task {r : Result N R Δ σ} (hsends : Sends f call s posts pc r) : ∀ e ∈ r.2, ¬ IsTask e := by
  cases hsends with
  | panicked => simp
  | waits => simp
  | sent hopen => simp [IsTask]
  | lost g events hmarks => exact hmarks.no_task
  | ended e g events hmarks => exact not_task_append hmarks.no_task (endCall_no_task _ _ _)

theorem muxStep_no_task (json : Serde) (lockFree timedOut : Bool) (f : FanoutSinkWriter N R Δ σ) :
    ∀ e ∈ (f.muxStep json lockFree timedOut).2, ¬ IsTask e := by
  unfold muxStep
  split
  · simp
  · simp
  · exact (sendStep_sends _).no_task
  · simp
  · unfold ackStep
    split
    · simp
    · simp
    · next hack => exact (ackResult_marks hack).no_task
    · next hack => exact not_task_append (ackResult_marks hack).no_task (endCall_no_task _ _ _)
  · exact endCall_no_task _ _ _
  · exact (writeStep_sends _ _).no_task
  · simp [IsTask]
  · unfold joinStep
    split
    · simp
    · split <;> simp
  · simp [IsTask]

theorem machine_task (he : e ∈ (machine k json).emit f i) (htask : IsTask e) : (∃ t, i = .perform t) ∨ ∃ t, i = .tick t := by
  cases i with
  | call call =>
    rcases machine_call k json call f with ⟨-, hstep⟩ | ⟨-, hstep⟩
    · have hnone : ∀ e ∈ (f.callStep call).2, ¬ IsTask e := by
        unfold callStep
        split
        · split <;> simp [IsTask]
        · split <;> simp [IsTask]
        · simp [IsTask]
      rw [Machine.emit, hstep] at he
      exact absurd htask (hnone e he)
    · rw [Machine.emit, hstep] at he
      cases he
  | mux lockFree timedOut => exact absurd htask (muxStep_no_task json lockFree timedOut f _ he)
  | recv t => cases he
  | perform t => exact .inl ⟨t, rfl⟩
  | tick t => exact .inr ⟨t, rfl⟩

theorem performStep_events (he : e ∈ (f.performStep k t).2) :
    ∃ p, (f.handles t).worker = .busy p ∧ e = .performed t p (k.perform (f.handles t).writer p.command).1 := by
  unfold performStep at he
  dsimp only at he
  split at he
  · next p hworker => exact ⟨p, hworker, by simpa using he⟩
  · cases he
  · cases he

theorem tickStep_events (he : e ∈ (f.tickStep k t).2) :
    ∃ outcome, e = .flushed t outcome ∧
      (outcome = .ok () ∨ ((f.tickStep k t).1.handles t).worker.gone = true) := by
  unfold tickStep at he ⊢
  dsimp only at he ⊢
  split at he
  · split at he
    · exact ⟨_, by simpa using he, .inl rfl⟩
    · refine ⟨_, by simpa using he, .inr ?_⟩
      simp [*, exit, Worker.gone]
    · refine ⟨_, by simpa using he, .inr ?_⟩
      simp [*, Worker.gone]
  · cases he

theorem machine_performed {p : Post R Δ}
    {outcome : Outcome Reply} (he : .performed s p outcome ∈ (machine k json).emit f i) :
    (f.handles s).worker = .busy p ∧ outcome = (k.perform (f.handles s).writer p.command).1 := by
  rcases machine_task he trivial with ⟨t, rfl⟩ | ⟨t, rfl⟩
  · obtain ⟨q, hworker, heq⟩ := performStep_events he
    simp only [Event.performed.injEq] at heq
    obtain ⟨rfl, rfl, rfl⟩ := heq
    exact ⟨hworker, rfl⟩
  · obtain ⟨outcome', heq, -⟩ := tickStep_events he
    cases heq

theorem machine_flushed {outcome : Outcome Unit} (he : .flushed s outcome ∈ (machine k json).emit f i) :
    outcome = .ok () ∨ (((machine k json).next f i).handles s).worker.gone = true := by
  rcases machine_task he trivial with ⟨t, rfl⟩ | ⟨t, rfl⟩
  · obtain ⟨q, -, heq⟩ := performStep_events he
    cases heq
  · obtain ⟨outcome', heq, hflushed⟩ := tickStep_events he
    simp only [Event.flushed.injEq] at heq
    obtain ⟨rfl, rfl⟩ := heq
    exact hflushed

theorem machine_returned {result : Except String Reply}
    (he : .returned call posts result ∈ (machine k json).emit f i) (hpc : f.pc ≠ .idle) :
    ∃ lockFree timedOut, i = .mux lockFree timedOut := by
  cases i with
  | call call' =>
    rcases machine_call k json call' f with ⟨hidle, -⟩ | ⟨-, hstep⟩
    · exact absurd hidle hpc
    · rw [Machine.emit, hstep] at he
      cases he
  | mux lockFree timedOut => exact ⟨lockFree, timedOut, rfl⟩
  | recv t => cases he
  | perform t =>
    obtain ⟨q, -, heq⟩ := performStep_events he
    cases heq
  | tick t =>
    obtain ⟨outcome, heq, -⟩ := tickStep_events he
    cases heq

end TaskEvents

end SeaTunnel.Core.FanoutSteps
