import SeaTunnel.Jdbc.XaSink

namespace SeaTunnel.Jdbc.XaRecovery

open Lib Xid XaSink

variable {F D C : Type}

structure Branch where
  owner : XidNamespace
  epoch : ℕ
  window : ℕ
  window_lt : window < 2 ^ 64
  deriving DecidableEq, Repr

section Ownership

variable (isAlphanumeric : Char → Bool)

def Branch.xid (b : Branch) : String := windowXid (xidBase isAlphanumeric b.owner) b.epoch b.window

/-- The branch comes from a writer with the same sanitised prefix, the same
pipeline and the same subtask. -/
def Owned (n : XidNamespace) (b : Branch) : Prop :=
  sanitizeComponent isAlphanumeric b.owner.xidPrefix = sanitizeComponent isAlphanumeric n.xidPrefix ∧
    b.owner.contextPipeline = n.contextPipeline ∧ b.owner.contextSubtask = n.contextSubtask

def settledXid : Statement F → Option String
  | .xa .xaCommit xid | .xa .xaRollback xid => some xid
  | _ => none

/-- The xids for which a commit or a rollback was sent since `before`. -/
def settledSince (before after : World F D) : List String :=
  (after.history.drop before.history.length).filterMap fun entry ↦ settledXid entry.1

/-- Against every server that lists the branches `bs`, recovery of a writer
of `n` sends a commit or a rollback only for branches of its own. -/
def SettlesOnlyOwn (n : XidNamespace) (bs : List Branch) : Prop :=
  ∀ (F D : Type) (server : XaServer F D) (s : Client (XaSinkWriter F) F D),
    s.self.xidBase = xidBase isAlphanumeric n →
    (server.recover .writer s.world.db).1 = .ok (bs.map fun b ↦ .ofXid (b.xid isAlphanumeric)) →
    ∀ b ∈ bs, b.xid isAlphanumeric ∈ settledSince s.world (recoverPrepared server s).2.world →
      Owned isAlphanumeric n b

end Ownership

section Settling

variable {server : XaServer F D} {Good : String → Prop} {w : World F D}

def Touched (Good : String → Prop) (w : World F D) (s : Client C F D) : Prop :=
  ∃ new, s.world.history = w.history ++ new ∧
    ∀ entry ∈ new, ∀ xid, settledXid entry.1 = some xid → Good xid

theorem Touched.good {s : Client C F D} (h : Touched Good w s) {xid : String}
    (hxid : xid ∈ settledSince w s.world) : Good xid := by
  obtain ⟨new, hnew, hgood⟩ := h
  rw [settledSince, hnew, List.drop_left, List.mem_filterMap] at hxid
  obtain ⟨entry, hmem, hentry⟩ := hxid
  exact hgood entry hmem xid hentry

theorem execute_touched {session : Session} {context : String} {statement : Statement F}
    (hgood : ∀ xid, settledXid statement = some xid → Good xid) :
    Triple (Touched (C := C) Good w) (execute server session context statement)
      (fun _ ↦ Touched Good w) (Touched Good w) := by
  rintro s ⟨new, hnew, hgoods⟩
  have htouched : Touched Good w (execute server session context statement s).2 := by
    refine ⟨new ++ [(statement, (server.exec session s.world.db statement).1)], ?_, ?_⟩
    · simp [execute, hnew]
    · intro entry hentry xid hxid
      rcases List.mem_append.mp hentry with hold | hlast
      · exact hgoods entry hold xid hxid
      · rw [List.mem_singleton.mp hlast] at hxid
        exact hgood xid hxid
  split
  · next heq => rwa [heq] at htouched
  · next heq => rwa [heq] at htouched

theorem xaExec_touched {command : XaCommand} {xid : String} (hgood : Good xid) :
    Triple (Touched Good w) (xaExec server command xid) (fun _ ↦ Touched Good w) (Touched Good w) := by
  refine .get fun s hs ↦ .ite (fun _ ↦ ?_) fun _ ↦ ?_
  · refine (execute_touched (w := w) fun x hx ↦ ?_).pre fun s' hs' ↦ hs' ▸ hs
    obtain rfl : xid = x := by
      cases command <;> simp_all [settledXid]
    exact hgood
  · exact .fail fun s' hs' ↦ hs' ▸ hs

theorem settleXid_touched {base : String} {last : ℕ} {xid : String}
    (hgood : (ownWindow base xid).isSome → Good xid) :
    Triple (Touched Good w) (settleXid server base last xid) (fun _ ↦ Touched Good w)
      (Touched Good w) := by
  unfold settleXid
  split
  · exact .pure fun s hs ↦ hs
  · next window hwindow =>
    have hxid : Good xid := hgood (by rw [hwindow]; rfl)
    exact .ite (fun _ ↦ xaExec_touched hxid) fun _ ↦ xaExec_touched hxid

theorem xaRecover_spec (s₀ : Client (XaSinkWriter F) F D) :
    Triple (fun s ↦ s = s₀) (xaRecover server)
      (fun xids s ↦ s.self = s₀.self ∧ s.world.history = s₀.world.history ∧ s₀.self.conn = true ∧
        ∃ rows, (server.recover .writer s₀.world.db).1 = .ok rows ∧ decodeRows rows = .ok xids)
      (fun s ↦ s.world.history = s₀.world.history) := by
  refine .get fun s hs ↦ .ite (fun hconn ↦ ?_) fun _ ↦ .fail fun s' hs' ↦ ?_
  · refine .bind (Q := fun rows s' ↦ s'.self = s₀.self ∧ s'.world.history = s₀.world.history ∧
      (server.recover .writer s₀.world.db).1 = .ok rows) ?_ fun rows ↦ ?_
    · rintro s' rfl
      subst hs
      cases hrows : (server.recover .writer s'.world.db).1 with
      | error e => simp [query, hrows, Except.mapError]
      | ok rows => simp [query, hrows, Except.mapError]
    · refine .ofExcept (fun xids s' hxids hs' ↦ ?_) fun e s' _ hs' ↦ hs'.2.1
      exact ⟨hs'.1, hs'.2.1, hs ▸ hconn, rows, hs'.2.2, hxids⟩
  · rw [hs', hs]

def Settleable (server : XaServer F D) (s : Client (XaSinkWriter F) F D) (xid : String) : Prop :=
  (ownWindow s.self.xidBase xid).isSome ∧
    ∃ rows xids, (server.recover .writer s.world.db).1 = .ok rows ∧ decodeRows rows = .ok xids ∧
      xid ∈ xids

theorem recoverPrepared_touched (server : XaServer F D) (s₀ : Client (XaSinkWriter F) F D) :
    Triple (fun s ↦ s = s₀) (recoverPrepared server)
      (fun _ ↦ Touched (Settleable server s₀) s₀.world) (Touched (Settleable server s₀) s₀.world) := by
  have huntouched : ∀ s : Client (XaSinkWriter F) F D, s.world.history = s₀.world.history →
      Touched (Settleable server s₀) s₀.world s := fun s hs ↦ ⟨[], by simp [hs], by simp⟩
  refine .bind ((xaRecover_spec s₀).weaken (fun _ hs ↦ hs) (fun _ _ hs ↦ hs) huntouched) fun xids ↦ ?_
  refine .get fun s₁ hs₁ ↦ ?_
  obtain ⟨hself, hhistory, -, rows, hrows, hxids⟩ := hs₁
  refine (Keeps.each fun xid hxid ↦ settleXid_touched fun hown ↦ ?_).pre ?_
  · exact ⟨hself ▸ hown, rows, xids, hrows, hxids, hxid⟩
  · rintro s rfl
    exact huntouched s hhistory

def obliging (rows : List RecoverRow) : XaServer Unit Unit where
  discover := fun _ _ ↦ (.ok ("", ⟨[], []⟩), ())
  connect := fun _ _ ↦ (.ok (), ())
  recover := fun _ _ ↦ (.ok rows, ())
  exec := fun _ _ _ ↦ (.ok (), ())
  killSessions := fun _ _ ↦ ()
  disconnect := fun _ ↦ ()

structure Pending (s₀ : Client (XaSinkWriter Unit) Unit Unit) (base : String) (xids rest : List String)
    (s : Client (XaSinkWriter Unit) Unit Unit) : Prop where
  conn : s.self.conn = true
  kept : s₀.world.history <+: s.world.history
  settled : ∀ xid ∈ xids, (ownWindow base xid).isSome →
    xid ∈ rest ∨ xid ∈ settledSince s₀.world s.world

theorem mem_settledSince {w w' : World F D} (hkept : w.history <+: w'.history) {xid : String} :
    xid ∈ settledSince w w' ↔ ∃ new, w'.history = w.history ++ new ∧
      ∃ entry ∈ new, settledXid entry.1 = some xid := by
  obtain ⟨new, hnew⟩ := hkept
  rw [settledSince, ← hnew, List.drop_left, List.mem_filterMap]
  constructor
  · exact fun h ↦ ⟨new, rfl, h⟩
  · rintro ⟨new', heq, h⟩
    rwa [List.append_cancel_left heq]

theorem Pending.executed {s₀ s : Client (XaSinkWriter Unit) Unit Unit} {base xid : String}
    {xids rest : List String} {command : XaCommand} (hs : Pending s₀ base xids (xid :: rest) s)
    (hcommand : settledXid (F := Unit) (.xa command xid) = some xid) :
    Pending s₀ base xids rest { s with
      world.history := s.world.history ++ [(.xa command xid, .ok ())] } := by
  have hkept : s₀.world.history <+: s.world.history ++ [(.xa command xid, .ok ())] :=
    hs.kept.trans (List.prefix_append _ _)
  refine ⟨hs.conn, hkept, fun x hx hown ↦ ?_⟩
  rcases hs.settled x hx hown with hmem | hdone
  · rcases List.mem_cons.mp hmem with rfl | hmem
    · obtain ⟨new, hnew⟩ := hs.kept
      refine .inr ((mem_settledSince hkept).mpr ⟨new ++ [(.xa command x, .ok ())], ?_, ?_⟩)
      · simp [← hnew]
      · exact ⟨(.xa command x, .ok ()), by simp, hcommand⟩
    · exact .inl hmem
  · obtain ⟨new, hnew, entry, hentry, hxid⟩ := (mem_settledSince hs.kept).mp hdone
    refine .inr ((mem_settledSince hkept).mpr ⟨new ++ [(.xa command xid, .ok ())], ?_, ?_⟩)
    · simp [hnew]
    · exact ⟨entry, by simp [hentry], hxid⟩

theorem xaExec_pending {rows : List RecoverRow} {s₀ : Client (XaSinkWriter Unit) Unit Unit}
    {base xid : String} {xids rest : List String} {command : XaCommand}
    (hcommand : settledXid (F := Unit) (.xa command xid) = some xid) :
    Triple (Pending s₀ base xids (xid :: rest)) (xaExec (obliging rows) command xid)
      (fun _ ↦ Pending s₀ base xids rest) (fun _ ↦ False) := by
  refine .get fun s hs ↦ .ite (fun _ ↦ ?_) fun hconn ↦ absurd hs.conn hconn
  rintro s' rfl
  exact hs.executed hcommand

theorem settleXid_pending {rows : List RecoverRow} {s₀ : Client (XaSinkWriter Unit) Unit Unit}
    {base xid : String} {last : ℕ} {xids rest : List String} :
    Triple (Pending s₀ base xids (xid :: rest)) (settleXid (obliging rows) base last xid)
      (fun _ ↦ Pending s₀ base xids rest) (fun _ ↦ False) := by
  unfold settleXid
  split
  · next hnone =>
    refine .pure fun s hs ↦ ⟨hs.conn, hs.kept, fun x hx hown ↦ ?_⟩
    rcases hs.settled x hx hown with hmem | hdone
    · rcases List.mem_cons.mp hmem with rfl | hmem
      · simp [hnone] at hown
      · exact .inl hmem
    · exact .inr hdone
  · exact .ite (fun _ ↦ xaExec_pending rfl) fun _ ↦ xaExec_pending rfl

theorem recoverPrepared_obliging {rows : List RecoverRow} {xids : List String}
    (hxids : decodeRows rows = .ok xids) (s₀ : Client (XaSinkWriter Unit) Unit Unit)
    (hconn : s₀.self.conn = true) {xid : String} (hmem : xid ∈ xids)
    (hown : (ownWindow s₀.self.xidBase xid).isSome) :
    xid ∈ settledSince s₀.world (recoverPrepared (obliging rows) s₀).2.world := by
  have hloop : Triple (fun s ↦ s = s₀)
      (Fallible.each (settleXid (obliging rows) s₀.self.xidBase s₀.self.lastCommittedWindow) xids)
      (fun _ ↦ Pending s₀ s₀.self.xidBase xids []) (fun _ ↦ False) := by
    refine (Triple.each (I := Pending s₀ s₀.self.xidBase xids)
      (fun _ _ ↦ settleXid_pending) xids).pre ?_
    rintro s rfl
    exact ⟨hconn, List.prefix_rfl, fun x hx _ ↦ .inl hx⟩
  have hlist : xaRecover (obliging rows) s₀ = (.ok xids, s₀) := by
    rw [xaRecover, Fallible.get_bind, if_pos hconn]
    have hquery : query (obliging rows) .writer s₀ = (.ok rows, s₀) := rfl
    rw [Fallible.bind_ok hquery, Fallible.ofExcept, hxids]
  have hrun : recoverPrepared (obliging rows) s₀ =
      Fallible.each (settleXid (obliging rows) s₀.self.xidBase s₀.self.lastCommittedWindow) xids s₀ := by
    rw [recoverPrepared, Fallible.bind_ok hlist, Fallible.get_bind]
  have hout := hloop s₀ rfl
  rw [← hrun] at hout
  split at hout
  · next heq =>
    rw [heq]
    simpa using hout.settled xid hmem hown
  · exact hout.elim

end Settling

section Foreign

variable {isAlphanumeric : Char → Bool} {n : XidNamespace} {b : Branch}

theorem Branch.xid_dash (b : Branch) : '-' ∈ (b.xid isAlphanumeric).toList := by
  rw [Branch.xid, windowXid_toList]
  exact List.mem_append_left _ (xidBase_dash b.owner)

theorem isSome_ownWindow :
    (ownWindow (xidBase isAlphanumeric n) (b.xid isAlphanumeric)).isSome ↔
      (xidBase isAlphanumeric n).toList <+: (xidBase isAlphanumeric b.owner).toList := by
  rw [Branch.xid, ownWindow_windowXid b.window_lt]
  split
  · next h => simp [h]
  · next h => simp [h]

theorem settleable_of_settled {server : XaServer F D} {s : Client (XaSinkWriter F) F D} {xid : String}
    (h : xid ∈ settledSince s.world (recoverPrepared server s).2.world) : Settleable server s xid := by
  have hout := recoverPrepared_touched server s s rfl
  split at hout
  · next heq =>
    rw [heq] at h
    exact hout.good h
  · next heq =>
    rw [heq] at h
    exact hout.good h

theorem settlesOnlyOwn_of_panic {bs : List Branch}
    (hpanic : ∃ b ∈ bs, Panics (.ofXid (b.xid isAlphanumeric))) :
    SettlesOnlyOwn isAlphanumeric n bs := by
  obtain ⟨b₀, hb₀, hb₀p⟩ := hpanic
  intro F D server s _ hrows b hb hsettled
  obtain ⟨-, rows, xids, hrows', hxids, -⟩ := settleable_of_settled hsettled
  obtain rfl : _ = rows := Except.ok.inj (hrows.symm.trans hrows')
  have hrow : RecoverRow.ofXid (b₀.xid isAlphanumeric) ∈
      bs.map fun b ↦ RecoverRow.ofXid (b.xid isAlphanumeric) := List.mem_map.mpr ⟨b₀, hb₀, rfl⟩
  obtain ⟨e, he⟩ := decodeRows_panics hrow hb₀p
  have hcontra : (Except.error e : Except String (List String)) = .ok xids := he.symm.trans hxids
  cases hcontra

theorem decodeRows_branches {bs : List Branch}
    (hpanic : ¬ ∃ b ∈ bs, Panics (.ofXid (b.xid isAlphanumeric))) :
    decodeRows (bs.map fun b ↦ .ofXid (b.xid isAlphanumeric)) =
      .ok ((bs.map (Branch.xid isAlphanumeric)).filter (!hexForm ·)) := by
  have hmap : bs.map (fun b ↦ RecoverRow.ofXid (b.xid isAlphanumeric)) =
      (bs.map (Branch.xid isAlphanumeric)).map .ofXid := by simp
  rw [hmap]
  refine decodeRows_ofXid ?_ ?_
  · simpa using fun b _ ↦ b.xid_dash
  · simpa using hpanic

/-- Recovery keeps to its own branches, whatever the server answers, exactly
when no listed branch of another writer has a base that begins with the base
of this one; unless the base is in hex form or the listing makes the decoder
panic, and then nothing is settled. -/
theorem recovery_settles_only_own_iff (isAlphanumeric : Char → Bool) (n : XidNamespace)
    (bs : List Branch) :
    SettlesOnlyOwn isAlphanumeric n bs ↔
      (∃ b ∈ bs, Panics (.ofXid (b.xid isAlphanumeric))) ∨
        hexForm (xidBase isAlphanumeric n) = true ∨
        ∀ b ∈ bs, (xidBase isAlphanumeric n).toList <+: (xidBase isAlphanumeric b.owner).toList →
          Owned isAlphanumeric n b := by
  by_cases hpanic : ∃ b ∈ bs, Panics (.ofXid (b.xid isAlphanumeric))
  · exact ⟨fun _ ↦ .inl hpanic, fun _ ↦ settlesOnlyOwn_of_panic hpanic⟩
  have hdecode := decodeRows_branches hpanic
  constructor
  · intro h
    refine .inr (or_iff_not_imp_left.mpr fun hform b hb hbase ↦ ?_)
    -- the obliging server shows that such a branch is settled
    let s : Client (XaSinkWriter Unit) Unit Unit :=
      { self := { config := ⟨n, none, "", [], 1, Nat.one_pos, false⟩, conn := true,
                  xidBase := xidBase isAlphanumeric n, epoch := 0 }
        world := { db := () } }
    have hxid : b.xid isAlphanumeric ∈ (bs.map (Branch.xid isAlphanumeric)).filter (!hexForm ·) := by
      rw [List.mem_filter, Branch.xid, hexForm_windowXid hbase]
      exact ⟨List.mem_map.mpr ⟨b, hb, rfl⟩, by simpa using hform⟩
    have hsettled := recoverPrepared_obliging hdecode s rfl hxid (isSome_ownWindow.mpr hbase)
    exact h Unit Unit _ s rfl rfl b hb hsettled
  · rintro (h | hcond) F D server s hbase hrows b hb hsettled
    · exact absurd h hpanic
    · obtain ⟨hown, rows, xids, hrows', hxids, hmem⟩ := settleable_of_settled hsettled
      rw [hbase, isSome_ownWindow] at hown
      obtain rfl : _ = rows := Except.ok.inj (hrows.symm.trans hrows')
      obtain rfl := Except.ok.inj (hdecode.symm.trans hxids)
      have hplain := (List.mem_filter.mp hmem).2
      rw [Branch.xid, hexForm_windowXid hown] at hplain
      rcases hcond with hform | hall
      · simp [hform] at hplain
      · exact hall b hb hown

/-- The recovery of subtask 1 settles a branch of subtask 10. -/
theorem recovery_settles_foreign :
    ¬ SettlesOnlyOwn Char.isAlphanum ⟨"seatunnel-xa", "p0", 1⟩
      [⟨⟨"seatunnel-xa", "p0", 10⟩, 7, 1, by decide⟩] := by
  intro h
  let b : Branch := ⟨⟨"seatunnel-xa", "p0", 10⟩, 7, 1, by decide⟩
  let s : Client (XaSinkWriter Unit) Unit Unit :=
    { self := { config := ⟨⟨"seatunnel-xa", "p0", 1⟩, none, "t", [], 1, Nat.one_pos, false⟩, conn := true,
                xidBase := xidBase Char.isAlphanum ⟨"seatunnel-xa", "p0", 1⟩, epoch := 8 }
      world := { db := () } }
  have hsettled : b.xid Char.isAlphanum ∈ settledSince s.world
      (recoverPrepared (obliging [.ofXid (b.xid Char.isAlphanum)]) s).2.world := by
    decide +kernel
  have howned := h Unit Unit _ s rfl rfl b (by simp [b]) hsettled
  exact absurd howned.2.2 (by decide)

end Foreign

end SeaTunnel.Jdbc.XaRecovery
