import SeaTunnel.Jdbc.XaHeld

namespace SeaTunnel.Jdbc.XaPhaseTwo

open Lib Xid XaSink XaBranches XaInDoubt XaHeld

variable {F D : Type}

def Recoverable (a : Account F) (v : View F) : Prop :=
  ∃ ds, Describes a.base ds v ∧ ∀ p ∈ a.targets, a.rel p.2 (recovered p.1 ds v.committed)

def Standing (a : Account F) (total : List (Row F)) (w : XaSinkWriter F) (v : View F) : Prop :=
  ∃ ds, Held a ds w v ∧ Even ds total w v

section Views

variable {a : Account F} {ds : List (InDoubt F)} {w : XaSinkWriter F} {v v' : View F} {xid : String}
  {rows total : List (Row F)}

theorem Recoverable.congr (h : Recoverable a v) (hprepared : v'.prepared = v.prepared)
    (hcommitted : v'.committed = v.committed) : Recoverable a v' := by
  obtain ⟨ds, hdescribes, hrel⟩ := h
  refine ⟨ds, hdescribes.congr hprepared, ?_⟩
  rwa [hcommitted]

theorem recoverable_of_held (h : Held a ds w v) : Recoverable a v :=
  ⟨ds, h.describes, fun p hp ↦ (h.targets p hp).2⟩

theorem describes_settle {base : String} (h : Describes base ds v) (hx : v.prepared xid = some rows) :
    ∃ d rest, d.xid = xid ∧ d.rows = rows ∧ ds.Perm (d :: rest) ∧
      ∀ visible, Describes base rest (v.settle xid visible) := by
  obtain ⟨d, hd, rfl, rfl⟩ := h.mem hx
  obtain ⟨rest, hperm, hfront⟩ := h.front hd
  exact ⟨d, rest, rfl, rfl, hperm, hfront.settle⟩

def CommitSafe (a : Account F) (xid : String) : Prop :=
  ∀ window, ownWindow a.base xid = some window → ∀ p ∈ a.targets,
    window ≤ p.1 ∨ ∀ xs rows, a.rel p.2 xs → a.rel p.2 (xs ++ rows)

theorem settle_prepared_none {x : String} (hx : v.prepared x = none) :
    (v.settle xid rows).prepared x = none := by
  by_cases hne : x = xid
  · rw [hne, View.settle_prepared_self]
  · rw [View.settle_prepared_of_ne _ _ hne, hx]

theorem Standing.commit (h : Standing a total w v) (hsafe : CommitSafe a xid)
    (hx : v.prepared xid = some rows) : Standing a total w (v.settle xid rows) := by
  obtain ⟨ds, hheld, heven⟩ := h
  obtain ⟨d, rest, rfl, rfl, hperm, hdescribes⟩ := describes_settle hheld.describes hx
  have hmem : ∀ e ∈ rest, e ∈ ds := fun e he ↦ hperm.mem_iff.mpr (List.mem_cons_of_mem _ he)
  have hd : d ∈ ds := hperm.mem_iff.mpr List.mem_cons_self
  refine ⟨rest, ⟨hheld.conn, hheld.base, hdescribes d.rows, fun e he ↦ hheld.covered e (hmem e he),
    hheld.closed, fun b hb ↦ ?_, hheld.dead, fun p hp ↦ ?_, fun e he ↦ hheld.allowed e (hmem e he)⟩, ?_⟩
  · obtain ⟨hxid, hnone⟩ := hheld.opened b hb
    exact ⟨hxid, settle_prepared_none hnone⟩
  · obtain ⟨hle, hrel⟩ := hheld.targets p hp
    have hrel := a.rel_perm p.2 (recovered_perm hperm) hrel
    refine ⟨hle, ?_⟩
    rcases le_or_gt d.window p.1 with hcovered | hnewer
    · exact a.rel_perm p.2 (recovered_cons_covered hcovered) hrel
    · rcases hsafe d.window (hheld.describes.window d hd) p hp with hcovered | hgrows
      · omega
      · rw [recovered_cons_newer hnewer] at hrel
        refine a.rel_perm p.2 ?_ (hgrows _ d.rows hrel)
        simp only [recovered, View.settle_committed, List.append_assoc]
        exact List.perm_append_comm.append_left _
  · rcases heven with hdead | hrows
    · exact .inl hdead
    · refine .inr (List.Perm.trans ?_ hrows)
      have hall : (d.rows ++ rest.flatMap InDoubt.rows).Perm (ds.flatMap InDoubt.rows) :=
        (hperm.flatMap_right InDoubt.rows).symm
      simp only [View.settle_committed, attachedRows, View.settle_attached]
      refine (List.Perm.append_right _ ?_).append_right _
      rw [List.append_assoc]
      exact hall.append_left _

theorem Standing.committed (h : Standing a total w v) (hsafe : CommitSafe a xid)
    (heffect : effect .committer v (.xa .xaCommit xid) = some v') :
    Standing a total w v' ∧ v'.prepared xid = none ∧ ∀ x, v.prepared x = none → v'.prepared x = none := by
  obtain ⟨-, ⟨hnone, rfl⟩ | ⟨rows, hrows, rfl⟩⟩ := effect_commit heffect
  · exact ⟨h, hnone, fun _ hx ↦ hx⟩
  · exact ⟨h.commit hsafe hrows, View.settle_prepared_self .., fun _ hx ↦ settle_prepared_none hx⟩

theorem Standing.commitFailed (h : Standing a total w v) (hsafe : CommitSafe a xid)
    (hfailed : Failed .committer v (.xa .xaCommit xid) v') : Standing a total w v' := by
  cases hfailed with
  | refused => exact h
  | hungUp u hsession _ => cases hsession
  | unanswered u _ hu => exact (h.committed hsafe hu).1

end Views

section Committer

variable {a : Account F} {view : D → View F} {server : XaServer F D} {w : XaSinkWriter F}
  {total : List (Row F)}

structure Settling (a : Account F) (view : D → View F) (total : List (Row F)) (w : XaSinkWriter F)
    (listed : List String) (infos rest : List XaCommitInfo) (s : Client XaSinkCommitter F D) : Prop where
  standing : Standing a total w (view s.world.db)
  listed : ∀ xid, xid ∉ listed → (view s.world.db).prepared xid = none
  settled : ∀ info ∈ infos, info ∈ rest ∨ (view s.world.db).prepared info.xid = none

theorem settleInfo_settling (hl : Lawful server view) {listed : List String}
    {infos rest : List XaCommitInfo} {info : XaCommitInfo} (hsafe : CommitSafe a info.xid) :
    Triple (Settling a view total w listed infos (info :: rest))
      (settleInfo server .xaCommit listed info) (fun _ ↦ Settling a view total w listed infos rest)
      (fun s ↦ Standing a total w (view s.world.db)) := by
  refine .ite (fun _ ↦ ?_) fun hlisted ↦ .pure fun s hs ↦ ?_
  · refine .get fun s₀ hs₀ ↦ .ite (fun _ ↦ ?_) fun _ ↦ .fail ?_
    · refine (execute_view hl s₀).weaken (fun _ hs ↦ hs) ?_ ?_
      · rintro _ s ⟨-, heffect⟩
        obtain ⟨hstanding, hnone, hstill⟩ := hs₀.standing.committed hsafe heffect
        refine ⟨hstanding, fun xid hxid ↦ hstill xid (hs₀.listed xid hxid), fun i hi ↦ ?_⟩
        rcases hs₀.settled i hi with hrest | hsettled
        · rcases List.mem_cons.mp hrest with rfl | hrest
          · exact .inr hnone
          · exact .inl hrest
        · exact .inr (hstill _ hsettled)
      · rintro s ⟨-, hfailed⟩
        exact hs₀.standing.commitFailed hsafe hfailed
    · rintro s rfl
      exact hs₀.standing
  · refine ⟨hs.standing, hs.listed, fun i hi ↦ ?_⟩
    rcases hs.settled i hi with hrest | hsettled
    · rcases List.mem_cons.mp hrest with rfl | hrest
      · exact .inr (hs.listed _ hlisted)
      · exact .inl hrest
    · exact .inr hsettled

theorem preparedXids_standing (hl : Lawful server view) :
    Triple (fun s ↦ Standing a total w (view s.world.db)) (preparedXids server)
      (fun listed s ↦ Standing a total w (view s.world.db) ∧
        ∀ xid, xid ∉ listed → (view s.world.db).prepared xid = none)
      (fun s ↦ Standing a total w (view s.world.db)) := by
  refine .get fun s₀ hs₀ ↦ .ite (fun _ ↦ ?_) fun _ ↦ .fail ?_
  · refine .bind (Q := fun rows s ↦ view s.world.db = view s₀.world.db ∧
      ∀ xid, ((view s₀.world.db).prepared xid).isSome → .ofXid xid ∈ rows) ?_ fun rows ↦ ?_
    · refine (query_view hl s₀).weaken (fun _ hs ↦ hs) (fun _ _ hs ↦ hs.2) fun s hs ↦ ?_
      rcases hs.2 with hsame | ⟨hsession, -⟩
      · rwa [hsame]
      · cases hsession
    · refine .ofExcept (fun listed s hdecode hs ↦ ⟨?_, fun xid hxid ↦ ?_⟩) fun e s _ hs ↦ ?_
      · rwa [hs.1]
      · rw [hs.1]
        obtain ⟨ds, hheld, -⟩ := hs₀
        cases hx : (view s₀.world.db).prepared xid with
        | none => rfl
        | some rows =>
          obtain ⟨d, hd, rfl, -⟩ := hheld.describes.mem hx
          have hrow := hs.2 d.xid (by simp [hx])
          exact absurd (mem_decodeRows hdecode hrow (hheld.describes.plain d hd)) hxid
      · rwa [hs.1]
  · rintro s rfl
    exact hs₀

theorem settleInfos_standing (hl : Lawful server view) {infos : List XaCommitInfo}
    (hsafe : ∀ info ∈ infos, CommitSafe a info.xid) :
    Triple (fun s ↦ Standing a total w (view s.world.db)) (settleInfos server .xaCommit infos)
      (fun _ s ↦ Standing a total w (view s.world.db) ∧
        ∀ info ∈ infos, (view s.world.db).prepared info.xid = none)
      (fun s ↦ Standing a total w (view s.world.db)) := by
  have hconnect : Keeps (fun s ↦ Standing a total w (view s.world.db)) (ensureCommitterConnected server) := by
    refine .get fun _ ↦ .ite (.pure ()) (.bind (.of_snd fun s hs ↦ ?_) fun _ ↦ .modify fun _ hs ↦ hs)
    change Standing a total w (view (server.connect .committer s.world.db).2)
    rwa [hl.connect_committer]
  refine .bind hconnect fun _ ↦ .bind (preparedXids_standing hl) fun listed ↦ ?_
  refine .bind (Q := fun _ ↦ Settling a view total w listed infos []) ?_ fun _ ↦ .pure fun s hs ↦ ?_
  · have hloop := Triple.each (f := settleInfo server .xaCommit listed)
      (I := fun rest s ↦ (∀ info ∈ rest, CommitSafe a info.xid) ∧
        Settling a view total w listed infos rest s)
      (E := fun s ↦ Standing a total w (view s.world.db)) (fun info rest ↦ ?_) infos
    · refine hloop.weaken (fun s hs ↦ ⟨hsafe, hs.1, hs.2, fun info hinfo ↦ .inl hinfo⟩) (fun _ _ hs ↦ hs.2)
        fun _ hs ↦ hs
    · refine .assuming fun hrest ↦ (settleInfo_settling hl (hrest info (by simp))).weaken (fun _ hs ↦ hs)
        (fun _ _ hs ↦ ⟨fun i hi ↦ hrest i (by simp [hi]), hs⟩) fun _ hs ↦ hs
  · refine ⟨hs.standing, fun info hinfo ↦ ?_⟩
    rcases hs.settled info hinfo with hnil | hnone
    · simp at hnil
    · exact hnone

end Committer

section Recovery

variable {a : Account F} {view : D → View F} {server : XaServer F D} {w : XaSinkWriter F}
variable {v v' : View F} {xid : String} {xids : List String}

structure Idle (a : Account F) (conn : Bool) (w : XaSinkWriter F) : Prop where
  base : w.xidBase = a.base
  conn : w.conn = conn
  txnOpen : w.txnOpen = false
  buffer : w.buffer = []
  targets : ∀ p ∈ a.targets, p.1 = w.lastCommittedWindow

structure Recovering (a : Account F) (v : View F) (xids : List String) : Prop where
  attached : v.attached = none
  inDoubt : ∃ ds, Describes a.base ds v ∧ (∀ d ∈ ds, d.xid ∈ xids) ∧
    ∀ p ∈ a.targets, a.rel p.2 (recovered p.1 ds v.committed)

theorem Recovering.recoverable (h : Recovering a v xids) :
    Recoverable a v := by
  obtain ⟨ds, hdescribes, -, hrel⟩ := h.inDoubt
  exact ⟨ds, hdescribes, hrel⟩

theorem Recovering.skip (h : Recovering a v (xid :: xids))
    (hnone : v.prepared xid = none ∨ ownWindow a.base xid = none) : Recovering a v xids := by
  obtain ⟨ds, hdescribes, hxids, hrel⟩ := h.inDoubt
  refine ⟨h.attached, ds, hdescribes, fun d hd ↦ ?_, hrel⟩
  rcases List.mem_cons.mp (hxids d hd) with rfl | hmem
  · rcases hnone with hnone | hnone
    · simp [hdescribes.prepared d hd] at hnone
    · simp [hdescribes.window d hd] at hnone
  · exact hmem

theorem Recovering.settle {rows visible : List (Row F)}
    {window last : ℕ} (h : Recovering a v (xid :: xids)) (hlast : ∀ p ∈ a.targets, p.1 = last)
    (hx : v.prepared xid = some rows) (hwindow : ownWindow a.base xid = some window)
    (hvisible : visible = if window ≤ last then rows else []) : Recovering a (v.settle xid visible) xids := by
  obtain ⟨ds, hdescribes, hxids, hrel⟩ := h.inDoubt
  obtain ⟨d, rest, hxid, hrows, hperm, hrest⟩ := describes_settle hdescribes hx
  have hd : d ∈ ds := hperm.mem_iff.mpr List.mem_cons_self
  have hdwindow : d.window = window := by
    have hself := hdescribes.window d hd
    rw [hxid, hwindow] at hself
    exact (Option.some.inj hself).symm
  refine ⟨h.attached, rest, hrest visible, fun e he ↦ ?_, fun p hp ↦ ?_⟩
  · have hmem := hxids e (hperm.mem_iff.mpr (List.mem_cons_of_mem _ he))
    rcases List.mem_cons.mp hmem with heq | hmem
    · have hgone := (hrest visible).prepared e he
      rw [heq, View.settle_prepared_self] at hgone
      cases hgone
    · exact hmem
  · have hp' := a.rel_perm p.2 (recovered_perm hperm) (hrel p hp)
    rw [hlast p hp] at hp' ⊢
    rw [hvisible]
    split
    · next hle =>
      rw [← hrows]
      exact a.rel_perm p.2 (recovered_cons_covered (hdwindow ▸ hle)) hp'
    · next hgt =>
      rw [recovered_cons_newer (by omega)] at hp'
      simpa using hp'

def recoverCommand (window last : ℕ) : XaCommand := if window ≤ last then .xaCommit else .xaRollback

theorem Recovering.effect {window last : ℕ} (h : Recovering a v (xid :: xids)) (hlast : ∀ p ∈ a.targets, p.1 = last)
    (hwindow : ownWindow a.base xid = some window)
    (heffect : effect .writer v (.xa (recoverCommand window last) xid) = some v') :
    Recovering a v' xids := by
  unfold recoverCommand at heffect
  split at heffect
  · next hle =>
    obtain ⟨-, ⟨hnone, rfl⟩ | ⟨rows, hrows, rfl⟩⟩ := effect_commit heffect
    · exact h.skip (.inl hnone)
    · exact h.settle hlast hrows hwindow (by rw [if_pos hle])
  · next hgt =>
    obtain ⟨hnone, rfl⟩ | ⟨rows, hrows, rfl⟩ := effect_rollback heffect
    · exact h.skip (.inl hnone)
    · exact h.settle hlast hrows hwindow (by rw [if_neg hgt])

theorem Recovering.failed {window last : ℕ} (h : Recovering a v (xid :: xids)) (hlast : ∀ p ∈ a.targets, p.1 = last)
    (hwindow : ownWindow a.base xid = some window)
    (hfailed : Failed .writer v (.xa (recoverCommand window last) xid) v') : Recoverable a v' := by
  cases hfailed with
  | refused => exact h.recoverable
  | hungUp u _ hu =>
    rcases hu with rfl | hu
    · exact h.recoverable.congr rfl rfl
    · exact (h.effect hlast hwindow hu).recoverable.congr rfl rfl
  | unanswered u hsession _ => cases hsession

theorem settleXid_recovering (hl : Lawful server view)
    (hw : w.xidBase = a.base) (hlast : ∀ p ∈ a.targets, p.1 = w.lastCommittedWindow) :
    Triple (fun s ↦ Recovering a (view s.world.db) (xid :: xids) ∧ s.self = w)
      (settleXid server w.xidBase w.lastCommittedWindow xid)
      (fun _ s ↦ Recovering a (view s.world.db) xids ∧ s.self = w)
      (fun s ↦ Recoverable a (view s.world.db)) := by
  unfold settleXid
  split
  · next hnone => exact .pure fun s hs ↦ ⟨hs.1.skip (.inr (hw ▸ hnone)), hs.2⟩
  · next window hwindow =>
    rw [hw] at hwindow
    rintro s₀ ⟨hs₀, rfl⟩
    have hcommand : (if window ≤ s₀.self.lastCommittedWindow then xaExec server .xaCommit xid
        else xaExec server .xaRollback xid) =
        xaExec server (recoverCommand window s₀.self.lastCommittedWindow) xid := by
      unfold recoverCommand
      split
      · rfl
      · rfl
    rw [hcommand]
    refine (xaExec_view hl s₀).weaken (fun _ hs ↦ hs) ?_ ?_ s₀ rfl
    · rintro _ s ⟨hself, heffect⟩
      exact ⟨hs₀.effect hlast hwindow heffect, hself⟩
    · rintro s ⟨-, hfailed⟩
      exact hs₀.failed hlast hwindow hfailed

theorem xaRecover_recovering (hl : Lawful server view) :
    Triple (fun s ↦ Recoverable a (view s.world.db) ∧ (view s.world.db).attached = none ∧ s.self = w)
      (xaRecover server) (fun xids s ↦ Recovering a (view s.world.db) xids ∧ s.self = w)
      (fun s ↦ Recoverable a (view s.world.db)) := by
  refine .get fun s₀ hs₀ ↦ .ite (fun _ ↦ ?_) fun _ ↦ .fail ?_
  · obtain ⟨hrec, hattached, hself⟩ := hs₀
    refine .bind (Q := fun rows s ↦ s.self = w ∧ view s.world.db = view s₀.world.db ∧
      ∀ xid, ((view s₀.world.db).prepared xid).isSome → .ofXid xid ∈ rows) ?_ fun rows ↦ ?_
    · refine (query_view hl s₀).weaken (fun _ hs ↦ hs) (fun _ _ hs ↦ ⟨hs.1.trans hself, hs.2⟩) fun s hs ↦ ?_
      rcases hs.2 with hsame | ⟨-, hhung⟩
      · rwa [hsame]
      · rw [hhung]
        exact hrec.congr rfl rfl
    · refine .ofExcept (fun xids s hdecode hs ↦ ⟨?_, hs.1⟩) fun e s _ hs ↦ ?_
      · rw [hs.2.1]
        obtain ⟨ds, hdescribes, hrel⟩ := hrec
        refine ⟨hattached, ds, hdescribes, fun d hd ↦ ?_, hrel⟩
        have hrow := hs.2.2 d.xid (by simp [hdescribes.prepared d hd])
        exact mem_decodeRows hdecode hrow (hdescribes.plain d hd)
      · rwa [hs.2.1]
  · rintro s rfl
    exact hs₀.1

theorem recoverPrepared_recovering (hl : Lawful server view) (hw : w.xidBase = a.base)
    (hlast : ∀ p ∈ a.targets, p.1 = w.lastCommittedWindow) :
    Triple (fun s ↦ Recoverable a (view s.world.db) ∧ (view s.world.db).attached = none ∧ s.self = w)
      (recoverPrepared server) (fun _ s ↦ Recovering a (view s.world.db) [] ∧ s.self = w)
      (fun s ↦ Recoverable a (view s.world.db)) := by
  refine .bind (xaRecover_recovering hl) fun xids ↦ .get fun s₀ hs₀ ↦ ?_
  obtain ⟨hs₀, rfl⟩ := hs₀
  have hloop := Triple.each (f := settleXid server s₀.self.xidBase s₀.self.lastCommittedWindow)
    (I := fun xids s ↦ Recovering a (view s.world.db) xids ∧ s.self = s₀.self)
    (fun _ _ ↦ settleXid_recovering hl hw hlast) xids
  refine hloop.pre ?_
  rintro s rfl
  exact ⟨hs₀, rfl⟩

theorem discoverSchema_view (hl : Lawful server view) (v : View F) :
    Keeps (fun s ↦ view s.world.db = v ∧ Idle a false s.self) (discoverSchema server) := by
  refine .of_snd fun s hs ↦ ?_
  obtain ⟨hview, hw⟩ := hs
  have hsame := hl.discover s.world.db s.self.qualifiedTable
  unfold discoverSchema
  split
  · next heq =>
    rw [heq] at hsame
    exact ⟨hsame.trans hview, hw⟩
  · next heq =>
    rw [heq] at hsame
    exact ⟨hsame.trans hview, { hw with }⟩

theorem connectSession_view (hl : Lawful server view) (v : View F) :
    Triple (fun s ↦ view s.world.db = v ∧ Idle a false s.self) (connectSession server .writer)
      (fun _ s ↦ view s.world.db = v.connected ∧ Idle a false s.self) (fun s ↦ view s.world.db = v) := by
  rintro s ⟨rfl, hw⟩
  cases hconnect : (server.connect .writer s.world.db).1 with
  | ok u =>
    simp only [connectSession, hconnect]
    exact ⟨hl.connect_ok s.world.db hconnect, hw⟩
  | error e =>
    simp only [connectSession, hconnect]
    exact hl.connect_error s.world.db e hconnect

theorem openWriter_recovers (hl : Lawful server view) :
    Triple (fun s ↦ Recoverable a (view s.world.db) ∧ Idle a false s.self) (openWriter server)
      (fun _ s ↦ Recovering a (view s.world.db) [] ∧ Idle a true s.self)
      (fun s ↦ Recoverable a (view s.world.db)) := by
  refine .get fun s₀ hs₀ ↦ .ite (fun hconn ↦ ?_) fun _ ↦ ?_
  · simp [hs₀.2.conn] at hconn
  obtain ⟨hrec, hw⟩ := hs₀
  have hdiscover := (discoverSchema_view (a := a) hl (view s₀.world.db)).weaken
    (fun s (hs : s = s₀) ↦ ⟨by rw [hs], by rw [hs]; exact hw⟩) (fun _ _ hs ↦ hs)
    fun s hs ↦ (hs.1 ▸ hrec : Recoverable a (view s.world.db))
  refine .bind hdiscover fun _ ↦ .bind ((connectSession_view hl _).weaken (fun _ hs ↦ hs) (fun _ _ hs ↦ hs)
    fun s hs ↦ hs ▸ hrec) fun _ ↦ ?_
  refine .bind (Q := fun _ s ↦ view s.world.db = (view s₀.world.db).connected ∧ Idle a true s.self)
    (.modify fun s hs ↦ ⟨hs.1, ⟨hs.2.base, rfl, hs.2.txnOpen, hs.2.buffer, hs.2.targets⟩⟩) fun _ ↦ ?_
  refine .bind (Q := fun _ s ↦ Recovering a (view s.world.db) [] ∧ Idle a true s.self) ?_ fun _ ↦ ?_
  · rintro s ⟨hview, hidle⟩
    have hconnected : Recoverable a (view s.world.db) := by
      rw [hview]
      exact hrec.congr rfl rfl
    refine (recoverPrepared_recovering hl hidle.base hidle.targets).weaken (fun _ hs ↦ hs) ?_
      (fun _ hs ↦ hs) s ⟨hconnected, by rw [hview]; rfl, rfl⟩
    rintro _ s' ⟨hrecovering, hself⟩
    exact ⟨hrecovering, hself ▸ hidle⟩
  · have hkill : Keeps (fun s ↦ Recovering a (view s.world.db) [] ∧ Idle a true s.self)
        (killZombieSessions server) := by
      refine killZombieSessions_keeps fun s database hs ↦ ?_
      change Recovering a (view (server.killSessions s.world.db database)) [] ∧ _
      rw [hl.killSessions]
      exact hs
    exact hkill.weaken (fun _ hs ↦ hs) (fun _ _ hs ↦ hs) fun _ hs ↦ hs.1.recoverable

theorem Recovering.settled (h : Recovering a v []) :
    Describes a.base [] v ∧ ∀ p ∈ a.targets, a.rel p.2 (recovered p.1 [] v.committed) := by
  obtain ⟨ds, hdescribes, hxids, hrel⟩ := h.inDoubt
  obtain rfl : ds = [] := List.eq_nil_iff_forall_not_mem.mpr fun d hd ↦ by simpa using hxids d hd
  exact ⟨hdescribes, hrel⟩

theorem Recovering.held (h : Recovering a v []) (hw : Idle a true w) : Held a [] w v := by
  obtain ⟨hdescribes, hrel⟩ := h.settled
  refine ⟨hw.conn, hw.base, hdescribes, by simp, fun _ ↦ h.attached, ?_, fun _ ↦ h.attached, fun p hp ↦ ?_,
    by simp⟩
  · simp [h.attached]
  · exact ⟨(hw.targets p hp).le, hrel p hp⟩

end Recovery

section Close

variable {a : Account F} {view : D → View F} {server : XaServer F D} {total : List (Row F)}

theorem Weak.recoverable {s : Client (XaSinkWriter F) F D} (h : Weak a view s) :
    Recoverable a (view s.world.db) := by
  obtain ⟨ds, hheld⟩ := h
  exact recoverable_of_held hheld

theorem open_not_prepared {ds : List (InDoubt F)} {w : XaSinkWriter F} {v : View F} (h : Held a ds w v)
    (hlive : v.live = true) (hbound : w.lastCommittedWindow + 1 < 2 ^ 64) :
    v.prepared (w.windowXid w.openWindow) = none := by
  cases hx : v.prepared (w.windowXid w.openWindow) with
  | none => rfl
  | some rows =>
    obtain ⟨d, hd, hxid, -⟩ := h.describes.mem hx
    have hopen : w.openWindow = w.lastCommittedWindow + 1 := Nat.mod_eq_of_lt hbound
    have hwindow : d.window = w.lastCommittedWindow + 1 := by
      have hself := h.describes.window d hd
      rw [hxid, XaSinkWriter.windowXid, h.base, hopen, a.ownWindow_windowXid _ hbound] at hself
      exact (Option.some.inj hself).symm
    rcases h.covered d hd with hle | ⟨hdead, -⟩
    · omega
    · rw [hlive] at hdead
      cases hdead

theorem disconnect_recoverable (hl : Lawful server view) :
    Keeps (fun s ↦ Recoverable a (view s.world.db)) (disconnect server) := by
  refine .modify fun s hs ↦ ?_
  split
  · change Recoverable a (view (server.disconnect s.world.db))
    rw [hl.disconnect]
    exact hs.congr rfl rfl
  · exact hs

theorem xaCommit_recoverable (hl : Lawful server view) {w : XaSinkWriter F}
    (hbound : w.lastCommittedWindow + 1 < 2 ^ 64) :
    Triple (fun s ↦ Ready a view total s ∧ s.self = w) (xaExec server .xaCommit (w.windowXid w.openWindow))
      (fun _ s ↦ Recoverable a (view s.world.db)) (fun s ↦ Recoverable a (view s.world.db)) := by
  rintro s₀ ⟨hs₀, rfl⟩
  obtain ⟨ds, hheld, -⟩ := hs₀.even
  have hsame : ∀ u, effect .writer (view s₀.world.db)
      (.xa .xaCommit (s₀.self.windowXid s₀.self.openWindow)) = some u → u = view s₀.world.db := by
    intro u hu
    obtain ⟨hlive, ⟨-, rfl⟩ | ⟨rows, hrows, -⟩⟩ := effect_commit hu
    · rfl
    · simp [open_not_prepared hheld (hlive rfl) hbound] at hrows
  have hrec := recoverable_of_held hheld
  refine (xaExec_view hl s₀).weaken (fun _ hs ↦ hs) ?_ ?_ s₀ rfl
  · rintro _ s ⟨-, heffect⟩
    rwa [hsame _ heffect]
  · rintro s ⟨-, hfailed⟩
    have hquiet := failed_quiet hfailed fun u hu ↦ by rw [hsame u hu]
    rcases hquiet with hv | hv
    · rwa [hv]
    · rw [hv]
      exact hrec.congr rfl rfl

theorem closeTail_recoverable (hl : Lawful server view) :
    Triple (fun s ↦ Ready a view total s ∧ s.self.lastCommittedWindow + 1 < 2 ^ 64)
      (do
        let s ← Fallible.get
        let window := s.self.openWindow
        xaExec server .xaEnd (s.self.windowXid window)
        xaExec server .xaCommit (s.self.windowXid window)
        Fallible.modify fun s ↦ { s with self.txnOpen := false, self.lastCommittedWindow := window }
        disconnect server)
      (fun _ s ↦ Recoverable a (view s.world.db)) (fun s ↦ Recoverable a (view s.world.db)) := by
  refine .get fun s₀ hs₀ ↦ ?_
  obtain ⟨hready, hbound⟩ := hs₀
  refine .bind (Q := fun _ s ↦ Ready a view total s ∧ s.self = s₀.self) ?_ fun _ ↦ ?_
  · refine (xaEnd_ready hl).weaken ?_ (fun _ _ hs ↦ hs) fun _ hs ↦ Weak.recoverable hs.1.weak
    rintro s rfl
    exact ⟨hready, rfl⟩
  · refine .bind (xaCommit_recoverable hl hbound) fun _ ↦ ?_
    exact .bind (.modify fun _ hs ↦ hs) fun _ ↦ disconnect_recoverable hl

theorem closeWriter_recoverable (hl : Lawful server view) :
    Triple (fun s ↦ Ready a view total s ∧
        (s.self.txnOpen = true → s.self.lastCommittedWindow + 1 < 2 ^ 64)) (closeWriter server)
      (fun _ s ↦ Recoverable a (view s.world.db)) (fun s ↦ Recoverable a (view s.world.db)) := by
  refine .get fun s₀ hs₀ ↦ .ite (fun hopen ↦ .ite (fun _ ↦ ?_) fun _ ↦ ?_) fun _ ↦ ?_
  · rintro s rfl
    exact closeTail_recoverable hl s ⟨hs₀.1, hs₀.2 hopen⟩
  · refine .bind (Q := fun _ s ↦ Ready a view total s ∧ s.self.lastCommittedWindow + 1 < 2 ^ 64) ?_
      fun _ ↦ closeTail_recoverable hl
    have hsettled : Keeps (Settled s₀.self) (flushBatch server) := flushBatch_settled
    refine ((flushBatch_ready hl).and hsettled).weaken ?_ (fun _ s hs ↦ ⟨hs.1.1, ?_⟩) fun s hs ↦ ?_
    · rintro s rfl
      exact ⟨hs₀.1, hs₀.1.conn, rfl, rfl, rfl⟩
    · rw [hs.2.lastCommittedWindow]
      exact hs₀.2 hopen
    · rcases hs.1 with hready | hspent
      · exact Weak.recoverable hready.weak
      · exact Weak.recoverable hspent.weak
  · refine (disconnect_recoverable hl).pre ?_
    rintro s rfl
    exact Weak.recoverable hs₀.1.weak

end Close

end SeaTunnel.Jdbc.XaPhaseTwo
