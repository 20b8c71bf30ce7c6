import SeaTunnel.Lib.Dict
import SeaTunnel.Lib.Runs
import SeaTunnel.Lib.Tails

namespace SeaTunnel.Server.LogStream

open Lib Lib.Runs Lib.Tails

section Stream

def taskLogRetain : ℕ := 500

def appendLogs (lines logs : List String) : List String := (logs ++ lines).rtake taskLogRetain

structure TaskLogs where
  taskId : String
  lines : List String

structure TaskLogDelta where
  taskId : String
  lines : List String
  reset : Bool

def tailDelta (prev new : List String) : List String :=
  if prev.isEmpty then new else new.drop (overlap prev new)

abbrev Lines : Type := Dict String (List String)

def linesOf (d : Lines) (taskId : String) : List String := (d.lookup taskId).getD []

/-- The answer of `get_job_logs`. -/
def jobLogs (logs : Lines) : List TaskLogs :=
  (logs.entries.map fun e ↦ ⟨e.1, e.2⟩).mergeSort fun a b ↦ a.taskId ≤ b.taskId

/-- One task in the loop of `job_logs_stream`, with the event that is sent for it. -/
def streamTask (prev : Lines) (task : TaskLogs) : Lines × List TaskLogDelta :=
  let previous := linesOf prev task.taskId
  let delta := tailDelta previous task.lines
  if delta.isEmpty && !previous.isEmpty then (prev, [])
  else
    let reset := previous.isEmpty || delta.length == task.lines.length
    (prev.insert task.taskId task.lines, if delta.isEmpty then [] else [⟨task.taskId, delta, reset⟩])

def streamTasks (prev : Lines) : List TaskLogs → Lines × List TaskLogDelta
  | [] => (prev, [])
  | task :: tasks =>
    let (prev, events) := streamTask prev task
    let (prev, later) := streamTasks prev tasks
    (prev, events ++ later)

def viewRetain : ℕ := 2000

def receive (views : Lines) (event : TaskLogDelta) : Lines :=
  views.insert event.taskId
    (if event.reset then event.lines else (linesOf views event.taskId ++ event.lines).rtake viewRetain)

structure Console where
  logs : Lines := ∅
  prev : Lines := ∅
  views : Lines := ∅

/-- A heartbeat that reaches a master whose job is not over; a submission, which makes the tasks anew; a poll that is
answered; and a new connection of the browser. -/
inductive Input
  | heartbeat (taskId : String) (lines : List String)
  | submit (taskIds : List String)
  | poll
  | connect

def console : Machine Console Input (String × List String) where
  step := fun s i ↦
    match i with
    | .heartbeat taskId lines =>
      match s.logs.lookup taskId with
      | some _ => ({ s with logs := Dict.modify taskId (appendLogs lines) s.logs }, [(taskId, lines)])
      | none => (s, [])
    | .submit taskIds => ({ s with logs := taskIds.foldl (fun logs taskId ↦ AList.insert taskId [] logs) ∅ }, [])
    | .poll =>
      let (prev, events) := streamTasks s.prev (jobLogs s.logs)
      ({ s with prev, views := events.foldl receive s.views }, [])
    | .connect => ({ s with prev := ∅ }, [])

def deliveredOf (taskId : String) (h : List (String × List String)) : List String :=
  h.flatMap fun e ↦ if e.1 = taskId then e.2 else []

end Stream

section Follow

variable {prev view new old h : List String}

def follow (prev view new : List String) : List String × List String :=
  let delta := tailDelta prev new
  if delta.isEmpty && !prev.isEmpty then (prev, view)
  else
    (new, if delta.isEmpty then view
      else if prev.isEmpty || delta.length == new.length then delta else (view ++ delta).rtake viewRetain)

theorem follow_cases (prev view new : List String) :
    (follow prev view new = (prev, view) ∧ new <:+ prev) ∨ (follow prev view new = (new, view) ∧ new = []) ∨
      follow prev view new = (new, new) ∨
        (follow prev view new = (new, (view ++ new.drop (overlap prev new)).rtake viewRetain) ∧ 0 < overlap prev new) := by
  unfold follow
  by_cases hprev : prev.isEmpty = true
  · have hdelta : tailDelta prev new = new := if_pos hprev
    simp only [hdelta, hprev, Bool.not_true, Bool.and_false, Bool.true_or, Bool.false_eq_true, if_false, if_true]
    by_cases hnew : new = []
    · exact .inr (.inl ⟨by rw [hnew]; rfl, hnew⟩)
    · exact .inr (.inr (.inl (by rw [List.isEmpty_eq_false_iff.mpr hnew]; rfl)))
  · have hdelta : tailDelta prev new = new.drop (overlap prev new) := if_neg hprev
    have happend := rtake_append_drop prev new
    simp only [hdelta, Bool.not_eq_true _ ▸ hprev, Bool.not_false, Bool.and_true, Bool.false_or]
    by_cases hnothing : new.drop (overlap prev new) = []
    · refine .inl ⟨by rw [hnothing]; rfl, ?_⟩
      rw [hnothing, List.append_nil] at happend
      exact happend ▸ rtake_suffix _ _
    · rw [List.isEmpty_eq_false_iff.mpr hnothing]
      by_cases hlen : (new.drop (overlap prev new)).length = new.length
      · have hwhole : new.drop (overlap prev new) = new := (List.drop_suffix _ _).eq_of_length hlen
        exact .inr (.inr (.inl (by simp only [hwhole, beq_self_eq_true, Bool.false_eq_true, if_false, if_true])))
      · refine .inr (.inr (.inr ⟨by simp only [beq_false_of_ne hlen, Bool.false_eq_true, if_false], ?_⟩))
        rw [List.length_drop] at hlen
        omega

theorem suffix_follow (hprev : prev <:+ view) (hnew : new.length ≤ viewRetain) :
    new <:+ (follow prev view new).2 ∧ (follow prev view new).1 <:+ (follow prev view new).2 := by
  rcases follow_cases prev view new with ⟨heq, hsuffix⟩ | ⟨heq, rfl⟩ | heq | ⟨heq, -⟩
  · rw [heq]
    exact ⟨hsuffix.trans hprev, hprev⟩
  · rw [heq]
    exact ⟨List.nil_suffix, List.nil_suffix⟩
  · rw [heq]
    exact ⟨List.suffix_refl _, List.suffix_refl _⟩
  · have hends : new <:+ (view ++ new.drop (overlap prev new)).rtake viewRetain :=
      suffix_rtake (suffix_append_drop hprev) hnew
    rw [heq]
    dsimp only
    exact ⟨hends, hends⟩

theorem infix_follow (hnodup : h.Nodup) (hprev : prev <:+ view) (hview : view <:+ old) (hold : old <+: h)
    (hnew : new <:+ h) : ∃ old', old' <+: h ∧ (follow prev view new).2 <:+ old' := by
  rcases follow_cases prev view new with ⟨heq, -⟩ | ⟨heq, -⟩ | heq | ⟨heq, hpos⟩
  · rw [heq]
    exact ⟨old, hold, hview⟩
  · rw [heq]
    exact ⟨old, hold, hview⟩
  · rw [heq]
    exact ⟨h, List.prefix_refl h, hnew⟩
  · obtain ⟨fresh, rfl⟩ := hold
    rw [heq, drop_overlap hnodup (hprev.trans hview) hnew hpos]
    dsimp only
    refine ⟨old ++ fresh, List.prefix_refl _, (rtake_suffix _ _).trans ?_⟩
    exact (List.suffix_append_inj_of_length_eq rfl).mpr ⟨hview, rfl⟩

end Follow

section Polls

variable {prev views : Lines} {task : TaskLogs} {tasks : List TaskLogs} {taskId : String}

theorem linesOf_insert (d : Lines) (taskId : String) (lines : List String) : linesOf (d.insert taskId lines) taskId = lines := by
  rw [linesOf, AList.lookup_insert, Option.getD_some]

theorem linesOf_insert_ne {other : String} (hne : taskId ≠ other) (d : Lines) (lines : List String) :
    linesOf (d.insert other lines) taskId = linesOf d taskId := by
  rw [linesOf, AList.lookup_insert_ne hne, linesOf]

theorem streamTask_follow (prev views : Lines) (task : TaskLogs) :
    (linesOf (streamTask prev task).1 task.taskId, linesOf ((streamTask prev task).2.foldl receive views) task.taskId) =
      follow (linesOf prev task.taskId) (linesOf views task.taskId) task.lines := by
  unfold streamTask follow
  dsimp only
  split_ifs with hnothing hempty hreset
  · rfl
  · rw [linesOf_insert, List.foldl_nil]
  · rw [linesOf_insert, List.foldl_cons, List.foldl_nil, receive, linesOf_insert, if_pos hreset]
  · rw [linesOf_insert, List.foldl_cons, List.foldl_nil, receive, linesOf_insert, if_neg hreset]

theorem streamTask_other (hne : taskId ≠ task.taskId) (prev views : Lines) :
    linesOf (streamTask prev task).1 taskId = linesOf prev taskId ∧
      linesOf ((streamTask prev task).2.foldl receive views) taskId = linesOf views taskId := by
  unfold streamTask
  dsimp only
  split_ifs with hnothing hempty
  · exact ⟨rfl, rfl⟩
  · exact ⟨linesOf_insert_ne hne _ _, rfl⟩
  · refine ⟨linesOf_insert_ne hne _ _, ?_⟩
    rw [List.foldl_cons, List.foldl_nil, receive, linesOf_insert_ne hne]

theorem streamTasks_other (hnot : taskId ∉ tasks.map TaskLogs.taskId) (prev views : Lines) :
    linesOf (streamTasks prev tasks).1 taskId = linesOf prev taskId ∧
      linesOf ((streamTasks prev tasks).2.foldl receive views) taskId = linesOf views taskId := by
  induction tasks generalizing prev views with
  | nil => exact ⟨rfl, rfl⟩
  | cons task tasks ih =>
    rw [List.map_cons, List.mem_cons, not_or] at hnot
    obtain ⟨hprev, hviews⟩ := streamTask_other hnot.1 prev views
    obtain ⟨hprev', hviews'⟩ := ih hnot.2 (streamTask prev task).1 ((streamTask prev task).2.foldl receive views)
    rw [streamTasks, List.foldl_append]
    exact ⟨hprev'.trans hprev, hviews'.trans hviews⟩

theorem streamTasks_follow (hnodup : (tasks.map TaskLogs.taskId).Nodup) (htask : task ∈ tasks) (prev views : Lines) :
    (linesOf (streamTasks prev tasks).1 task.taskId, linesOf ((streamTasks prev tasks).2.foldl receive views) task.taskId) =
      follow (linesOf prev task.taskId) (linesOf views task.taskId) task.lines := by
  induction tasks generalizing prev views with
  | nil => cases htask
  | cons first tasks ih =>
    obtain ⟨hfirst, hnodup⟩ := List.nodup_cons.mp hnodup
    rw [streamTasks, List.foldl_append]
    rcases List.mem_cons.mp htask with rfl | htask
    · obtain ⟨hprev, hviews⟩ := streamTasks_other hfirst (streamTask prev task).1
        ((streamTask prev task).2.foldl receive views)
      rw [hprev, hviews]
      exact streamTask_follow prev views task
    · have hne : task.taskId ≠ first.taskId := fun heq ↦ hfirst (heq ▸ List.mem_map_of_mem htask)
      obtain ⟨hprev, hviews⟩ := streamTask_other hne prev views
      rw [ih hnodup htask, hprev, hviews]

theorem mem_jobLogs {logs : Lines} : task ∈ jobLogs logs ↔ logs.lookup task.taskId = some task.lines := by
  rw [jobLogs, List.mem_mergeSort, ← Option.mem_def, AList.mem_lookup_iff, List.mem_map]
  constructor
  · rintro ⟨e, he, rfl⟩
    exact he
  · intro he
    exact ⟨_, he, rfl⟩

theorem jobLogs_nodup (logs : Lines) : ((jobLogs logs).map TaskLogs.taskId).Nodup := by
  have hperm := (List.mergeSort_perm (logs.entries.map fun e ↦ (⟨e.1, e.2⟩ : TaskLogs)) fun a b ↦ a.taskId ≤ b.taskId).map
    TaskLogs.taskId
  rw [jobLogs, hperm.nodup_iff, List.map_map]
  exact logs.nodupKeys

theorem poll_follow (s : Console) (taskId : String) :
    (∃ new, s.logs.lookup taskId = some new ∧
      (linesOf (console.next s .poll).prev taskId, linesOf (console.next s .poll).views taskId) =
        follow (linesOf s.prev taskId) (linesOf s.views taskId) new) ∨
    s.logs.lookup taskId = none ∧ linesOf (console.next s .poll).prev taskId = linesOf s.prev taskId ∧
      linesOf (console.next s .poll).views taskId = linesOf s.views taskId := by
  cases hlogs : s.logs.lookup taskId with
  | none =>
    have hnot : taskId ∉ (jobLogs s.logs).map TaskLogs.taskId := by
      intro hmem
      obtain ⟨task, htask, rfl⟩ := List.mem_map.mp hmem
      rw [mem_jobLogs, hlogs] at htask
      cases htask
    exact .inr ⟨rfl, streamTasks_other hnot s.prev s.views⟩
  | some new =>
    have htask : ⟨taskId, new⟩ ∈ jobLogs s.logs := mem_jobLogs.mpr hlogs
    exact .inl ⟨new, rfl, streamTasks_follow (jobLogs_nodup s.logs) htask s.prev s.views⟩

end Polls

section Runs

variable {s : Console} {i : Input} {h : List (String × List String)} {taskId : String}

structure Tracks (taskId : String) (h : List (String × List String)) (s : Console) : Prop where
  retained : (linesOf s.logs taskId).length ≤ taskLogRetain
  logs : linesOf s.logs taskId <:+ deliveredOf taskId h
  prev : linesOf s.prev taskId <:+ linesOf s.views taskId
  view : (deliveredOf taskId h).Nodup → ∃ old, old <+: deliveredOf taskId h ∧ linesOf s.views taskId <:+ old

theorem deliveredOf_append (taskId : String) (h h' : List (String × List String)) :
    deliveredOf taskId (h ++ h') = deliveredOf taskId h ++ deliveredOf taskId h' := List.flatMap_append

theorem tracks_start (taskId : String) : Tracks taskId [] {} := by
  refine ⟨Nat.zero_le _, List.nil_suffix, List.nil_suffix, fun _ ↦ ⟨[], List.prefix_refl _, List.nil_suffix⟩⟩

theorem tracks_heartbeat (hs : Tracks taskId h s) (other : String) (lines : List String) :
    Tracks taskId (h ++ console.emit s (.heartbeat other lines)) (console.next s (.heartbeat other lines)) := by
  cases hother : s.logs.lookup other with
  | none =>
    have hstep : console.step s (.heartbeat other lines) = (s, []) := by simp only [console, hother]
    rw [Machine.emit, Machine.next, hstep, List.append_nil]
    exact hs
  | some logs =>
    have hstep : console.step s (.heartbeat other lines) =
        ({ s with logs := Dict.modify other (appendLogs lines) s.logs }, [(other, lines)]) := by
      simp only [console, hother]
    have hview (more : List String) : (deliveredOf taskId h ++ more).Nodup →
        ∃ old, old <+: deliveredOf taskId h ++ more ∧ linesOf s.views taskId <:+ old := by
      intro hnodup
      obtain ⟨old, hold, hends⟩ := hs.view hnodup.of_append_left
      exact ⟨old, hold.trans (List.prefix_append _ _), hends⟩
    rw [Machine.emit, Machine.next, hstep]
    by_cases heq : other = taskId
    · subst heq
      have hlogs : linesOf (Dict.modify other (appendLogs lines) s.logs) other = appendLogs lines (linesOf s.logs other) := by
        rw [linesOf, Dict.lookup_modify, if_pos rfl, linesOf, hother, Option.map_some, Option.getD_some, Option.getD_some]
      have hmore : deliveredOf other (h ++ [(other, lines)]) = deliveredOf other h ++ lines := by
        rw [deliveredOf_append]
        simp [deliveredOf]
      refine ⟨?_, ?_, hs.prev, ?_⟩
      · rw [hlogs, appendLogs, length_rtake]
        exact Nat.min_le_left _ _
      · rw [hlogs, hmore]
        apply (rtake_suffix _ _).trans
        exact (List.suffix_append_inj_of_length_eq rfl).mpr ⟨hs.logs, rfl⟩
      · rw [hmore]
        exact hview lines
    · have hlogs : linesOf (Dict.modify other (appendLogs lines) s.logs) taskId = linesOf s.logs taskId := by
        rw [linesOf, Dict.lookup_modify, if_neg (Ne.symm heq), linesOf]
      have hmore : deliveredOf taskId (h ++ [(other, lines)]) = deliveredOf taskId h := by
        rw [deliveredOf_append]
        simp [deliveredOf, heq]
      refine ⟨?_, ?_, hs.prev, ?_⟩
      · rw [hlogs]
        exact hs.retained
      · rw [hlogs, hmore]
        exact hs.logs
      · rw [hmore]
        exact hs.view

theorem lookup_submit (taskIds : List String) (taskId : String) :
    linesOf (taskIds.foldl (fun logs taskId ↦ AList.insert taskId [] logs) (∅ : Lines)) taskId = [] := by
  have hall (d : Lines) (hd : linesOf d taskId = []) :
      linesOf (taskIds.foldl (fun logs taskId ↦ AList.insert taskId [] logs) d) taskId = [] := by
    induction taskIds generalizing d with
    | nil => exact hd
    | cons other taskIds ih =>
      rw [List.foldl_cons]
      apply ih
      by_cases heq : taskId = other
      · rw [heq, linesOf_insert]
      · rw [linesOf_insert_ne heq, hd]
  exact hall ∅ rfl

theorem tracks_poll (hs : Tracks taskId h s) : Tracks taskId (h ++ console.emit s .poll) (console.next s .poll) := by
  have hemit : h ++ console.emit s .poll = h := List.append_nil h
  have hlogs : (console.next s .poll).logs = s.logs := rfl
  rw [hemit]
  rcases poll_follow s taskId with ⟨new, hnew, hfollow⟩ | ⟨-, hprev, hviews⟩
  · obtain ⟨hprev, hviews⟩ := Prod.mk.inj hfollow
    have hline : linesOf s.logs taskId = new := by rw [linesOf, hnew, Option.getD_some]
    have hlen : new.length ≤ viewRetain := by
      have hretained := hs.retained
      rw [hline] at hretained
      exact hretained.trans (by decide)
    refine ⟨hs.retained, hs.logs, ?_, fun hnodup ↦ ?_⟩
    · rw [hprev, hviews]
      exact (suffix_follow hs.prev hlen).2
    · obtain ⟨old, hold, hends⟩ := hs.view hnodup
      rw [hviews]
      exact infix_follow hnodup hs.prev hends hold (hline ▸ hs.logs)
  · refine ⟨hs.retained, hs.logs, ?_, ?_⟩
    · rw [hprev, hviews]
      exact hs.prev
    · rw [hviews]
      exact hs.view

theorem tracks_step (hs : Tracks taskId h s) : Tracks taskId (h ++ console.emit s i) (console.next s i) := by
  cases i with
  | heartbeat other lines => exact tracks_heartbeat hs other lines
  | submit taskIds =>
    have hlogs : linesOf (console.next s (.submit taskIds)).logs taskId = [] := lookup_submit taskIds taskId
    have hemit : h ++ console.emit s (.submit taskIds) = h := List.append_nil h
    rw [hemit]
    refine ⟨?_, ?_, hs.prev, hs.view⟩
    · rw [hlogs]
      exact Nat.zero_le _
    · rw [hlogs]
      exact List.nil_suffix
  | poll => exact tracks_poll hs
  | connect =>
    have hemit : h ++ console.emit s .connect = h := List.append_nil h
    rw [hemit]
    exact ⟨hs.retained, hs.logs, List.nil_suffix, hs.view⟩

theorem tracks_run (taskId : String) (is : List Input) : Tracks taskId (console.trace {} is) (console.run {} is) := by
  have hrun := Machine.invariant_all (m := console) (fun h s i hs ↦ tracks_step hs) (tracks_start taskId) is
  rwa [List.nil_append] at hrun

/-- After a poll the page ends with the lines of the master; and where no line of a task comes twice, the page shows
some of the lines that the master got, without gaps and in their order. -/
theorem console_follows (is : List Input) (taskId : String) :
    (∀ new, (console.run {} is).logs.lookup taskId = some new →
      new <:+ linesOf (console.next (console.run {} is) .poll).views taskId) ∧
    ((deliveredOf taskId (console.trace {} is)).Nodup →
      linesOf (console.run {} is).views taskId <:+: deliveredOf taskId (console.trace {} is)) := by
  have hs := tracks_run taskId is
  constructor
  · intro new hnew
    have hline : linesOf (console.run {} is).logs taskId = new := by rw [linesOf, hnew, Option.getD_some]
    have hlen : new.length ≤ viewRetain := by
      have hretained := hs.retained
      rw [hline] at hretained
      exact hretained.trans (by decide)
    rcases poll_follow (console.run {} is) taskId with ⟨new', hnew', hfollow⟩ | ⟨hnone, -, -⟩
    · obtain rfl := Option.some.inj (hnew.symm.trans hnew')
      rw [(Prod.mk.inj hfollow).2]
      exact (suffix_follow hs.prev hlen).1
    · rw [hnew] at hnone
      cases hnone
  · intro hnodup
    obtain ⟨old, hold, hends⟩ := hs.view hnodup
    exact hends.isInfix.trans hold.isInfix

end Runs

end SeaTunnel.Server.LogStream
