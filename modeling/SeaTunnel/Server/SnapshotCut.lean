import Mathlib.Data.List.Induction
import SeaTunnel.Server.RaftStateMachine
import SeaTunnel.Server.Replica

namespace SeaTunnel.Server.SnapshotCut

open Coordinator RaftStateMachine Replica Lib Lib.Runs

variable {M : Type} {c : JobCoordinator} {last : Option LogId} {h : List (Event M)}
  {s : StateMachine M}

section Log

/-- The entries that `apply` has begun, in order. -/
def log (h : List (Event M)) : List (Env × Entry M) :=
  h.filterMap fun
    | .begun env entry => some (env, entry)
    | _ => none

def commandOf (e : Env × Entry M) : Option (Env × Command) :=
  match e.2.payload with
  | .normal cmd => some (e.1, cmd)
  | _ => none

def commands (l : List (Env × Entry M)) : List (Env × Command) := l.filterMap commandOf

def upTo (last : Option LogId) (l : List (Env × Entry M)) : List (Env × Entry M) :=
  match last with
  | none => []
  | some last => l.filter fun e ↦ e.2.logId.index ≤ last.index

def Earlier (e e' : Env × Entry M) : Prop := e.2.logId.index < e'.2.logId.index

instance (e e' : Env × Entry M) : Decidable (Earlier e e') := inferInstanceAs (Decidable (_ < _))

/-- The entries come in the order of their indices, after the entry `last`. -/
def Ordered (last : Option LogId) (l : List (Env × Entry M)) : Prop :=
  (∀ id ∈ last, ∀ e ∈ l, id.index < e.2.logId.index) ∧ l.Pairwise Earlier

def lastOf (last : Option LogId) (l : List (Env × Entry M)) : Option LogId :=
  (l.getLast?.map fun e ↦ e.2.logId).or last

@[simp] theorem log_append (h h' : List (Event M)) : log (h ++ h') = log h ++ log h' :=
  List.filterMap_append

theorem upTo_append {id : LogId} {done rest : List (Env × Entry M)}
    (hdone : ∀ e ∈ done, e.2.logId.index ≤ id.index) (hrest : ∀ e ∈ rest, id.index < e.2.logId.index) :
    upTo (some id) (done ++ rest) = done := by
  have hkept : done.filter (fun e ↦ e.2.logId.index ≤ id.index) = done :=
    List.filter_eq_self.mpr fun e he ↦ decide_eq_true (hdone e he)
  have hcut : rest.filter (fun e ↦ e.2.logId.index ≤ id.index) = [] :=
    List.filter_eq_nil_iff.mpr fun e he ↦ by simpa using hrest e he
  rw [upTo, List.filter_append, hkept, hcut, List.append_nil]

theorem upTo_lastOf {done rest : List (Env × Entry M)} (hlog : Ordered last (done ++ rest)) :
    upTo (lastOf last done) (done ++ rest) = done := by
  rcases List.eq_nil_or_concat done with rfl | ⟨front, e, rfl⟩
  · cases last with
    | none => rfl
    | some id => exact upTo_append (by simp) (hlog.1 id rfl)
  · rw [List.concat_eq_append] at hlog ⊢
    obtain ⟨hfront, -, hlater⟩ := List.pairwise_append.mp hlog.2
    have hearlier := (List.pairwise_append.mp hfront).2.2
    have hlast : lastOf last (front ++ [e]) = some e.2.logId := by simp [lastOf]
    rw [hlast]
    refine upTo_append (fun x hx ↦ ?_) fun x hx ↦ hlater e (by simp) x hx
    rcases List.mem_append.mp hx with hx | hx
    · exact Nat.le_of_lt (hearlier x hx e (by simp))
    · rw [List.mem_singleton.mp hx]

end Log

section Marks

/-- How far the log has come: the commands whose jobs are written, whose
descriptors are written and whose entry is the applied pointer, and those whose
effect the last reads of the jobs, the descriptors and the term have seen. -/
structure Marks where
  begun : List (Env × Command) := []
  installed : List (Env × Command) := []
  stored : List (Env × Command) := []
  atJobs : List (Env × Command) := []
  atTasks : List (Env × Command) := []
  atTerm : List (Env × Command) := []

def Marks.note (m : Marks) : Event M → Marks
  | .begun env entry => { m with begun := m.begun ++ commands [(env, entry)] }
  | .installed => { m with installed := m.begun }
  | .stored => { m with stored := m.begun }
  | .readJobs => { m with atJobs := m.begun }
  | .readTasks => { m with atTasks := m.installed }
  | .readCheckpoints => m
  | .readTerm => { m with atTerm := m.begun }
  | .built _ => m

def marks (h : List (Event M)) : Marks := h.foldl Marks.note {}

@[simp] theorem marks_append (h h' : List (Event M)) :
    marks (h ++ h') = h'.foldl Marks.note (marks h) := List.foldl_append

structure Marks.Begun (m : Marks) : Prop where
  installed : m.installed <+: m.begun
  stored : m.stored <+: m.begun
  atJobs : m.atJobs <+: m.begun
  atTasks : m.atTasks <+: m.begun
  atTerm : m.atTerm <+: m.begun

theorem Marks.Begun.note {m : Marks} (hm : m.Begun) (e : Event M) : (m.note e).Begun := by
  cases e with
  | begun env entry =>
    have hmore : m.begun <+: m.begun ++ commands [(env, entry)] := List.prefix_append _ _
    exact ⟨hm.installed.trans hmore, hm.stored.trans hmore, hm.atJobs.trans hmore,
      hm.atTasks.trans hmore, hm.atTerm.trans hmore⟩
  | installed => exact { hm with installed := List.prefix_refl _ }
  | stored => exact { hm with stored := List.prefix_refl _ }
  | readJobs => exact { hm with atJobs := List.prefix_refl _ }
  | readTasks => exact { hm with atTasks := hm.installed }
  | readCheckpoints => exact hm
  | readTerm => exact { hm with atTerm := List.prefix_refl _ }
  | built doc => exact hm

theorem marks_begun (h : List (Event M)) : (marks h).Begun := by
  induction h using List.reverseRecOn with
  | nil => exact ⟨List.prefix_refl _, List.prefix_refl _, List.prefix_refl _, List.prefix_refl _,
      List.prefix_refl _⟩
  | append_singleton h e ih => simpa using ih.note e

theorem begun_eq (h : List (Event M)) : (marks h).begun = commands (log h) := by
  induction h using List.reverseRecOn with
  | nil => rfl
  | append_singleton h e ih => cases e <;> simp [Marks.note, ih, log, commands]

def writesJobs : Command → Bool
  | .observeTerm _ => false
  | _ => true

def writesTerm : Command → Bool
  | .observeTerm _ => true
  | _ => false

def SameFor (p : Command → Bool) (l l' : List (Env × Command)) : Prop :=
  (l.filter fun e ↦ p e.2) = l'.filter fun e ↦ p e.2

/-- When `build_snapshot` reads the applied pointer, the commands stored are
those that each read of the export has seen, as far as they write what it read. -/
def Untorn (h : List (Event M)) (s : StateMachine M) : Input M → Prop
  | .finish => ∀ state, s.builder = .exported state →
      SameFor writesJobs (marks h).atJobs (marks h).stored ∧
        SameFor writesTasks (marks h).atTasks (marks h).stored ∧
        SameFor writesTerm (marks h).atTerm (marks h).stored
  | _ => True

theorem run_eq_of_initial {β : Type} {g : JobCoordinator → β} {p : Command → Bool}
    (hg : ∀ env cmd c, p cmd = false → g (applyCommand env cmd c).1 = g c)
    {l l' : List (Env × Command)} (hinit : l <+: l') (hsame : SameFor p l l') :
    g (replica.run c l) = g (replica.run c l') := by
  obtain ⟨t, rfl⟩ := hinit
  have hnone : ∀ e ∈ t, p e.2 = false := by
    simpa [SameFor] using hsame
  clear hsame
  rw [Machine.run_append]
  generalize replica.run c l = c
  induction t generalizing c with
  | nil => rfl
  | cons e t ih =>
    have hstep : g (replica.next c e) = g c := hg _ _ _ (hnone e (by simp))
    exact hstep.symm.trans (ih (fun x hx ↦ hnone x (by simp [hx])) _)

theorem run_eq {β : Type} {g : JobCoordinator → β} {p : Command → Bool}
    (hg : ∀ env cmd c, p cmd = false → g (applyCommand env cmd c).1 = g c)
    {l l' whole : List (Env × Command)} (hl : l <+: whole) (hl' : l' <+: whole)
    (hsame : SameFor p l l') : g (replica.run c l) = g (replica.run c l') := by
  rcases List.prefix_or_prefix_of_prefix hl hl' with hinit | hinit
  · exact run_eq_of_initial hg hinit hsame
  · exact (run_eq_of_initial hg hinit hsame.symm).symm

theorem run_checkpointStore (c : JobCoordinator) (l : List (Env × Command)) :
    (replica.run c l).checkpointStore = c.checkpointStore := by
  induction l generalizing c with
  | nil => rfl
  | cons e l ih => exact (ih _).trans (applyCommand_frame _ _ c).store

end Marks

section Invariant

def inFlight : Applier M → List (Entry M)
  | .idle => []
  | .installing entry _ => [entry]
  | .applied entry => [entry]

def Installed (c : JobCoordinator) (m : Marks) : Applier M → Prop
  | .installing _ descriptors =>
    (replica.run c m.begun).allTasks =
      insertAll TaskDescriptor.taskId (replica.run c m.installed).allTasks descriptors
  | _ => m.installed = m.begun

def Read (c : JobCoordinator) (m : Marks) : Builder → Prop
  | .idle => True
  | .jobs jobs => jobs = (exportSnapshot (replica.run c m.atJobs)).jobs
  | .tasks jobs tasks =>
    jobs = (exportSnapshot (replica.run c m.atJobs)).jobs ∧
      tasks = (exportSnapshot (replica.run c m.atTasks)).tasks
  | .checkpoints jobs tasks checkpoints =>
    jobs = (exportSnapshot (replica.run c m.atJobs)).jobs ∧
      tasks = (exportSnapshot (replica.run c m.atTasks)).tasks ∧
      checkpoints = (exportSnapshot c).checkpoints
  | .exported state =>
    state = ⟨(replica.run c m.atTerm).term, (exportSnapshot (replica.run c m.atJobs)).jobs,
      (exportSnapshot (replica.run c m.atTasks)).tasks, (exportSnapshot c).checkpoints⟩

structure Inv (c : JobCoordinator) (last : Option LogId) (h : List (Event M))
    (s : StateMachine M) : Prop where
  coordinator : s.coordinator =
    { replica.run c (marks h).begun with allTasks := (replica.run c (marks h).installed).allTasks }
  cut : ∃ done rest, log h = done ++ rest ∧ rest.map Prod.snd = inFlight s.applier ∧
    s.lastApplied = lastOf last done ∧ (marks h).stored = commands done
  installed : Installed c (marks h) s.applier
  builder : Read c (marks h) s.builder

theorem Inv.settled (hs : Inv c last h s) (hidle : s.applier = .idle) :
    s.coordinator = replica.run c (marks h).begun ∧ s.lastApplied = lastOf last (log h) ∧
      (marks h).stored = commands (log h) := by
  obtain ⟨done, rest, hlog, hrest, hlast, hstored⟩ := hs.cut
  have hinstalled := hs.installed
  rw [hidle] at hrest hinstalled
  obtain rfl : rest = [] := by simpa [inFlight] using hrest
  rw [List.append_nil] at hlog
  refine ⟨?_, hlog ▸ hlast, hlog ▸ hstored⟩
  rw [hs.coordinator, show (marks h).installed = (marks h).begun from hinstalled]

theorem Inv.applied (hs : Inv c last h s) (hidle : s.applier = .idle) {env : Env} {entry : Entry M}
    {s' : StateMachine M}
    (hnext : s'.coordinator = replica.run s.coordinator (commands [(env, entry)]))
    (happlier : s'.applier = .applied entry) (hlast : s'.lastApplied = s.lastApplied)
    (hbuilder : s'.builder = s.builder) :
    Inv c last (h ++ [Event.begun env entry, .installed]) s' := by
  obtain ⟨hcoordinator, hpointer, hstored⟩ := hs.settled hidle
  have hrun : s'.coordinator =
      replica.run c ((marks h).begun ++ commands [(env, entry)]) := by
    rw [hnext, hcoordinator, Machine.run_append]
  constructor
  · simpa [Marks.note] using hrun
  · refine ⟨log h, [(env, entry)], by simp [log], by simp [happlier, inFlight], ?_, ?_⟩
    · rw [hlast, hpointer]
    · simpa [Marks.note] using hstored
  · simp [happlier, Installed, Marks.note]
  · rw [hbuilder, marks_append]
    exact hs.builder

theorem Inv.installing (hs : Inv c last h s) (hidle : s.applier = .idle) {env : Env}
    {entry : Entry M} {job : JobDto} {descriptors : List TaskDto}
    (hentry : entry.payload = .normal (.submitJob job descriptors)) :
    Inv c last (h ++ [Event.begun env entry])
      { s with
        coordinator := (beginCommand env (.submitJob job descriptors) s.coordinator).1
        applier := .installing entry descriptors } := by
  obtain ⟨hcoordinator, hpointer, hstored⟩ := hs.settled hidle
  have hinstalled : (marks h).installed = (marks h).begun := by
    have := hs.installed
    rwa [hidle] at this
  have hcommand : commands [(env, entry)] = [(env, .submitJob job descriptors)] := by
    simp [commands, commandOf, hentry]
  have hrun : replica.run c ((marks h).begun ++ commands [(env, entry)]) =
      installDescriptors descriptors
        (beginCommand env (.submitJob job descriptors) (replica.run c (marks h).begun)).1 := by
    rw [hcommand, Machine.run_append]
    exact applyCommand_eq env (.submitJob job descriptors) _
  constructor
  · simp only [marks_append, List.foldl_cons, List.foldl_nil, Marks.note, hrun, hcoordinator,
      hinstalled]
    rfl
  · exact ⟨log h, [(env, entry)], by simp [log], rfl, hpointer, by simpa [Marks.note] using hstored⟩
  · simp only [Installed, marks_append, List.foldl_cons, List.foldl_nil, Marks.note, hrun, hinstalled]
    rfl
  · rw [marks_append]
    exact hs.builder

theorem Inv.beginEntry (hs : Inv c last h s) (hidle : s.applier = .idle) (env : Env)
    (entry : Entry M) :
    Inv c last (h ++ (beginEntry env entry s).2) (beginEntry env entry s).1 := by
  unfold RaftStateMachine.beginEntry
  cases hpayload : entry.payload with
  | blank => exact hs.applied hidle (by simp [commands, commandOf, hpayload]) rfl rfl rfl
  | membership mem => exact hs.applied hidle (by simp [commands, commandOf, hpayload]) rfl rfl rfl
  | normal cmd =>
    have hcommand : commands [(env, entry)] = [(env, cmd)] := by
      simp [commands, commandOf, hpayload]
    cases cmd with
    | submitJob job descriptors => exact hs.installing hidle hpayload
    | _ => exact hs.applied hidle (by rw [hcommand]; rfl) rfl rfl rfl

theorem Inv.installDescriptors (hs : Inv c last h s) {entry : Entry M} {descriptors : List TaskDto}
    (happlier : s.applier = .installing entry descriptors) :
    Inv c last (h ++ [Event.installed])
      { s with
        coordinator := installDescriptors descriptors s.coordinator
        applier := .applied entry } := by
  have hinstalled := hs.installed
  have hcut := hs.cut
  rw [happlier] at hinstalled hcut
  constructor
  · simp only [marks_append, List.foldl_cons, List.foldl_nil, Marks.note, hs.coordinator,
      RaftStateMachine.installDescriptors]
    rw [← show _ = _ from hinstalled]
  · simpa [Marks.note, log, inFlight] using hcut
  · simp [Installed, Marks.note]
  · rw [marks_append]
    exact hs.builder

theorem Inv.storeApplied (hs : Inv c last h s) {entry : Entry M} (happlier : s.applier = .applied entry) :
    Inv c last (h ++ [Event.stored]) { s with lastApplied := some entry.logId, applier := .idle } := by
  obtain ⟨done, rest, hlog, hrest, -, -⟩ := hs.cut
  have hinstalled := hs.installed
  rw [happlier] at hrest hinstalled
  obtain ⟨env, rfl⟩ : ∃ env, rest = [(env, entry)] := by
    simpa [inFlight, List.map_eq_singleton_iff] using hrest
  constructor
  · simpa [Marks.note] using hs.coordinator
  · refine ⟨log h, [], by simp [log], rfl, ?_, ?_⟩
    · simp [hlog, lastOf]
    · simp [Marks.note, begun_eq]
  · simpa [Installed, Marks.note] using hinstalled
  · rw [marks_append]
    exact hs.builder

theorem Inv.read (hs : Inv c last h s) {e : Event M} {builder : Builder} (hlog : log [e] = [])
    (hbegun : ((marks h).note e).begun = (marks h).begun)
    (hinstalled : ((marks h).note e).installed = (marks h).installed)
    (hstored : ((marks h).note e).stored = (marks h).stored)
    (hbuilder : Read c ((marks h).note e) builder) :
    Inv c last (h ++ [e]) { s with builder := builder } := by
  have happlier : Installed c ((marks h).note e) s.applier := by
    have hsame := hs.installed
    revert hsame
    cases s.applier <;> simp [Installed, hbegun, hinstalled]
  constructor
  · simpa [hbegun, hinstalled] using hs.coordinator
  · simpa [hlog, hstored] using hs.cut
  · simpa using happlier
  · simpa using hbuilder

theorem Inv.build (hs : Inv c last h s) (i : Input M) :
    Inv c last (h ++ (build i s).2) (build i s).1 := by
  have hread := hs.builder
  unfold RaftStateMachine.build
  split
  · refine hs.read rfl rfl rfl rfl ?_
    rw [hs.coordinator]
    rfl
  · next hbuilder =>
    rw [hbuilder] at hread
    refine hs.read rfl rfl rfl rfl ⟨hread, ?_⟩
    rw [hs.coordinator]
    rfl
  · next hbuilder =>
    rw [hbuilder] at hread
    refine hs.read rfl rfl rfl rfl ⟨hread.1, hread.2, ?_⟩
    rw [hs.coordinator]
    simp only [exportSnapshot, run_checkpointStore]
  · next hbuilder =>
    rw [hbuilder] at hread
    obtain ⟨rfl, rfl, rfl⟩ := hread
    refine hs.read rfl rfl rfl rfl ?_
    rw [hs.coordinator]
    rfl
  · exact hs.read rfl rfl rfl rfl trivial
  · simpa using hs

theorem Inv.step (hs : Inv c last h s) (i : Input M) :
    Inv c last (h ++ stateMachine.emit s i) (stateMachine.next s i) := by
  simp only [Machine.emit, Machine.next, stateMachine]
  split
  · next hidle => exact hs.beginEntry hidle _ _
  · next happlier => exact hs.installDescriptors happlier
  · next happlier => exact hs.storeApplied happlier
  · exact hs.build _

end Invariant

section Built

def Consistent (c : JobCoordinator) (last : Option LogId) (h : List (Event M)) : Event M → Prop
  | .built doc => ∃ done rest, log h = done ++ rest ∧
      doc.snapshotMeta.lastLogId = lastOf last done ∧
      doc.state = exportSnapshot (replica.run c (commands done))
  | _ => True

theorem exported_eq {state : Snapshot} (hs : Inv c last h s) (hP : Untorn h s .finish)
    (hbuilder : s.builder = .exported state) :
    state = exportSnapshot (replica.run c (marks h).stored) := by
  obtain ⟨hjobs, htasks, hterm⟩ := hP state hbuilder
  have hbegun := marks_begun h
  have hread := hs.builder
  rw [hbuilder] at hread
  rw [show state = _ from hread]
  have hsameJobs : (replica.run c (marks h).atJobs).jobs = (replica.run c (marks h).stored).jobs := by
    refine run_eq (g := JobCoordinator.jobs) (fun env cmd c hcmd ↦ ?_) hbegun.atJobs hbegun.stored hjobs
    cases cmd <;> first | rfl | cases hcmd
  have hsameTasks : (replica.run c (marks h).atTasks).allTasks =
      (replica.run c (marks h).stored).allTasks :=
    run_eq (g := JobCoordinator.allTasks) (fun env cmd c hcmd ↦ (applyCommand_frame env cmd c).allTasks hcmd)
      hbegun.atTasks hbegun.stored htasks
  have hsameTerm : (replica.run c (marks h).atTerm).term = (replica.run c (marks h).stored).term := by
    refine run_eq (g := JobCoordinator.term) (fun env cmd c hcmd ↦ ?_) hbegun.atTerm hbegun.stored hterm
    rw [(applyCommand_frame env cmd c).term]
    cases cmd <;> first | rfl | cases hcmd
  simp only [exportSnapshot, hsameJobs, hsameTasks, hsameTerm, run_checkpointStore]

theorem built_emitted {i : Input M} {doc : SnapshotDoc M} (hbuilt : .built doc ∈ stateMachine.emit s i) :
    i = .finish ∧ ∃ state, s.builder = .exported state ∧
      stateMachine.emit s i = [.built (snapshotDocOf state s)] := by
  revert hbuilt
  simp only [Machine.emit, stateMachine]
  split
  · intro hbuilt
    simp only [beginEntry] at hbuilt
    split at hbuilt
    · simp at hbuilt
    · simp at hbuilt
    · split at hbuilt <;> simp at hbuilt
  · simp
  · simp
  · simp only [build]
    split <;> simp_all

theorem emit_consistent (hs : Inv c last h s) {i : Input M} (hP : Untorn h s i) :
    Always (Consistent c last) h (stateMachine.emit s i) := by
  by_cases hbuilt : ∃ doc, .built doc ∈ stateMachine.emit s i
  · obtain ⟨doc, hdoc⟩ := hbuilt
    obtain ⟨rfl, state, hbuilder, hemit⟩ := built_emitted hdoc
    obtain ⟨done, rest, hlog, -, hlast, hstored⟩ := hs.cut
    rw [hemit]
    refine ⟨⟨done, rest, hlog, hlast, ?_⟩, trivial⟩
    rw [← hstored]
    exact exported_eq hs hP hbuilder
  · refine always_of_forall fun h' e he ↦ ?_
    cases e with
    | built doc => exact absurd ⟨doc, he⟩ hbuilt
    | _ => trivial

def opened (c : JobCoordinator) (last : Option LogId) (mem : StoredMembership M) : StateMachine M where
  coordinator := c
  lastApplied := last
  membership := mem

theorem inv_opened (mem : StoredMembership M) : Inv c last [] (opened c last mem) where
  coordinator := rfl
  cut := ⟨[], [], rfl, rfl, rfl, rfl⟩
  installed := rfl
  builder := trivial

theorem trace_consistent {mem : StoredMembership M} {is : List (Input M)}
    (hP : stateMachine.Along Untorn [] (opened c last mem) is) :
    Always (Consistent c last) [] (stateMachine.trace (opened c last mem) is) := by
  have hstep : ∀ h s i, (Inv c last h s ∧ Always (Consistent (M := M) c last) [] h) → Untorn h s i →
      Inv c last (h ++ stateMachine.emit s i) (stateMachine.next s i) ∧
        Always (Consistent c last) [] (h ++ stateMachine.emit s i) := by
    intro h s i hs hP
    exact ⟨hs.1.step i, always_append.mpr ⟨hs.2, emit_consistent hs.1 hP⟩⟩
  exact (Machine.invariant hstep ⟨inv_opened mem, trivial⟩ hP).2

/-- A snapshot that is built while the log is applied has the state after
exactly the entries up to its `last_log_id`, when no read of it is torn. -/
theorem built_snapshot_consistent (c : JobCoordinator) (last : Option LogId)
    (mem : StoredMembership M) (is : List (Input M))
    (hlog : Ordered last (log (stateMachine.trace (opened c last mem) is)))
    (hP : stateMachine.Along Untorn [] (opened c last mem) is) (doc : SnapshotDoc M)
    (hdoc : .built doc ∈ stateMachine.trace (opened c last mem) is) :
    doc.state = exportSnapshot (replica.run c (commands
      (upTo doc.snapshotMeta.lastLogId (log (stateMachine.trace (opened c last mem) is))))) := by
  obtain ⟨pre, post, htrace⟩ := List.append_of_mem hdoc
  obtain ⟨done, rest, hpre, hlast, hstate⟩ := always_split.mp (trace_consistent hP) pre _ post htrace
  have hwhole : log (stateMachine.trace (opened c last mem) is) = done ++ (rest ++ log post) := by
    rw [htrace, log_append, show log pre = _ from hpre, List.append_assoc]
    rfl
  rw [hwhole] at hlog ⊢
  rw [hlast, upTo_lastOf hlog, hstate]

def submission : Entry Unit :=
  ⟨⟨1, 1⟩, .normal (.submitJob soloDto [⟨"j-p0-0", "j", "j-p0", "solo-0", 0, 1, ∅⟩])⟩

def docAt (index : ℕ) (state : Snapshot) : SnapshotDoc Unit :=
  snapshotDocOf state (opened {} (some ⟨1, index⟩) ⟨none, ()⟩)

def submittedBeforeReads : List (Event Unit) :=
  stateMachine.trace (opened {} none ⟨none, ()⟩)
    [.apply {} submission, .installDescriptors, .readJobs, .storeApplied, .apply {} ⟨⟨1, 2⟩, .blank⟩,
      .readTasks, .readCheckpoints, .readTerm, .storeApplied, .finish]

def submittedDoc : SnapshotDoc Unit := docAt 2 (exportSnapshot (replica.run {} (commands [({}, submission)])))

theorem submitted_before_reads_consistent :
    .built submittedDoc ∈ submittedBeforeReads ∧
      submittedDoc.state = exportSnapshot (replica.run {} (commands
        (upTo submittedDoc.snapshotMeta.lastLogId (log submittedBeforeReads)))) := by
  have hbuilt : .built submittedDoc ∈ submittedBeforeReads := List.mem_of_getElem? (i := 10) rfl
  refine ⟨hbuilt, built_snapshot_consistent {} none ⟨none, ()⟩ _ ⟨nofun, by decide⟩ ?_ _ hbuilt⟩
  exact ⟨trivial, trivial, trivial, trivial, trivial, trivial, trivial, trivial, trivial,
    fun _ _ ↦ ⟨rfl, rfl, rfl⟩, trivial⟩

def submittedAfterReads : List (Event Unit) :=
  stateMachine.trace (opened {} none ⟨none, ()⟩)
    [.readJobs, .readTasks, .readCheckpoints, .readTerm, .apply {} submission, .installDescriptors,
      .storeApplied, .finish]

def emptyDoc : SnapshotDoc Unit := docAt 1 ⟨1, [], [], []⟩

/-- The snapshot has the pointer of the job, and it does not have the job. -/
theorem submitted_after_reads_lost :
    Ordered none (log submittedAfterReads) ∧ .built emptyDoc ∈ submittedAfterReads ∧
      emptyDoc.state ≠ exportSnapshot (replica.run {} (commands
        (upTo emptyDoc.snapshotMeta.lastLogId (log submittedAfterReads)))) := by
  refine ⟨⟨nofun, by decide⟩, List.mem_of_getElem? (i := 7) rfl, ?_⟩
  decide

end Built

end SeaTunnel.Server.SnapshotCut
