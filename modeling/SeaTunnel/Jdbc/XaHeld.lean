import Mathlib.Data.List.Perm.Basic
import Mathlib.Data.List.Perm.Subperm
import SeaTunnel.Jdbc.XaFlush

namespace SeaTunnel.Jdbc.XaInDoubt

open Lib Xid XaSink XaBranches

variable {F D C : Type}

structure InDoubt (F : Type) where
  xid : String
  window : ℕ
  rows : List (Row F)

variable {base : String} {ds : List (InDoubt F)} {v v' : View F} {d : InDoubt F}

/-- The branches in doubt are `ds`, and recovery can read their windows. -/
structure Describes (base : String) (ds : List (InDoubt F)) (v : View F) : Prop where
  nodup : (ds.map InDoubt.xid).Nodup
  prepared : ∀ d ∈ ds, v.prepared d.xid = some d.rows
  only : ∀ xid rows, v.prepared xid = some rows → ∃ d ∈ ds, d.xid = xid
  window : ∀ d ∈ ds, ownWindow base d.xid = some d.window
  plain : ∀ d ∈ ds, hexForm d.xid = false

/-- What is visible once recovery from the window `last` has settled `ds`. -/
def recovered (last : ℕ) (ds : List (InDoubt F)) (committed : List (Row F)) : List (Row F) :=
  committed ++ (ds.filter (·.window ≤ last)).flatMap InDoubt.rows

section Describes

theorem Describes.congr (h : Describes base ds v) (hprepared : v'.prepared = v.prepared) :
    Describes base ds v' :=
  ⟨h.nodup, by rw [hprepared]; exact h.prepared, by rw [hprepared]; exact h.only, h.window, h.plain⟩

theorem Describes.nil (h : ∀ xid, v.prepared xid = none) : Describes base [] v :=
  ⟨by simp, by simp, fun xid rows hx ↦ by simp [h xid] at hx, by simp, by simp⟩

theorem Describes.prepared_eq_none (h : Describes base [] v) (xid : String) : v.prepared xid = none := by
  cases hx : v.prepared xid with
  | none => rfl
  | some rows =>
    obtain ⟨d, hd, -⟩ := h.only xid rows hx
    simp at hd

theorem Describes.mem (h : Describes base ds v) {xid : String} {rows : List (Row F)}
    (hx : v.prepared xid = some rows) : ∃ d ∈ ds, d.xid = xid ∧ d.rows = rows := by
  obtain ⟨d, hd, rfl⟩ := h.only xid rows hx
  have hrows := (h.prepared d hd).symm.trans hx
  exact ⟨d, hd, rfl, Option.some.inj hrows⟩

theorem Describes.perm (h : Describes base ds v) {ds' : List (InDoubt F)} (hperm : ds.Perm ds') :
    Describes base ds' v where
  nodup := (hperm.map InDoubt.xid).nodup_iff.mp h.nodup
  prepared := fun d hd ↦ h.prepared d (hperm.mem_iff.mpr hd)
  only := fun xid rows hx ↦ by
    obtain ⟨d, hd, hxid⟩ := h.only xid rows hx
    exact ⟨d, hperm.mem_iff.mp hd, hxid⟩
  window := fun d hd ↦ h.window d (hperm.mem_iff.mpr hd)
  plain := fun d hd ↦ h.plain d (hperm.mem_iff.mpr hd)

theorem Describes.front (h : Describes base ds v) (hd : d ∈ ds) :
    ∃ rest, ds.Perm (d :: rest) ∧ Describes base (d :: rest) v := by
  obtain ⟨front, back, rfl⟩ := List.append_of_mem hd
  exact ⟨front ++ back, List.perm_middle, h.perm List.perm_middle⟩

theorem Describes.settle (h : Describes base (d :: ds) v) (visible : List (Row F)) :
    Describes base ds (v.settle d.xid visible) := by
  obtain ⟨hnotin, hnodup⟩ := List.nodup_cons.mp h.nodup
  have hne : ∀ e ∈ ds, e.xid ≠ d.xid := fun e he heq ↦
    hnotin (List.mem_map.mpr ⟨e, he, heq⟩)
  refine ⟨hnodup, fun e he ↦ ?_, fun xid rows hx ↦ ?_, fun e he ↦ h.window e (by simp [he]),
    fun e he ↦ h.plain e (by simp [he])⟩
  · rw [View.settle_prepared_of_ne _ _ (hne e he)]
    exact h.prepared e (by simp [he])
  · by_cases hxid : xid = d.xid
    · simp [hxid] at hx
    · rw [View.settle_prepared_of_ne _ _ hxid] at hx
      obtain ⟨e, he, rfl⟩ := h.only xid rows hx
      rcases List.mem_cons.mp he with rfl | he
      · exact absurd rfl hxid
      · exact ⟨e, he, rfl⟩

theorem Describes.cons (h : Describes base ds v) (hfresh : v.prepared d.xid = none)
    (hwindow : ownWindow base d.xid = some d.window) (hplain : hexForm d.xid = false)
    (hprepared : v'.prepared = Function.update v.prepared d.xid (some d.rows)) :
    Describes base (d :: ds) v' := by
  have hne : ∀ e ∈ ds, e.xid ≠ d.xid := fun e he heq ↦ by
    have hsome := h.prepared e he
    rw [heq, hfresh] at hsome
    cases hsome
  refine ⟨?_, fun e he ↦ ?_, fun xid rows hx ↦ ?_, fun e he ↦ ?_, fun e he ↦ ?_⟩
  · refine List.nodup_cons.mpr ⟨fun hmem ↦ ?_, h.nodup⟩
    obtain ⟨e, he, heq⟩ := List.mem_map.mp hmem
    exact hne e he heq
  · rw [hprepared]
    rcases List.mem_cons.mp he with rfl | he
    · exact Function.update_self ..
    · rw [Function.update_of_ne (hne e he)]
      exact h.prepared e he
  · rw [hprepared] at hx
    by_cases hxid : xid = d.xid
    · exact ⟨d, by simp, hxid.symm⟩
    · rw [Function.update_of_ne hxid] at hx
      obtain ⟨e, he, hexid⟩ := h.only xid rows hx
      exact ⟨e, by simp [he], hexid⟩
  · rcases List.mem_cons.mp he with rfl | he
    · exact hwindow
    · exact h.window e he
  · rcases List.mem_cons.mp he with rfl | he
    · exact hplain
    · exact h.plain e he

end Describes

section Recovered

variable {last : ℕ} {committed : List (Row F)}

theorem recovered_perm {ds' : List (InDoubt F)} (h : ds.Perm ds') :
    (recovered last ds committed).Perm (recovered last ds' committed) :=
  ((h.filter _).flatMap_right _).append_left committed

theorem recovered_cons_covered (h : d.window ≤ last) :
    (recovered last (d :: ds) committed).Perm (recovered last ds (committed ++ d.rows)) := by
  simp [recovered, List.filter_cons_of_pos, h]

theorem recovered_cons_newer (h : last < d.window) :
    recovered last (d :: ds) committed = recovered last ds committed := by
  simp [recovered, List.filter_cons_of_neg, h]

theorem recovered_of_covered (h : ∀ d ∈ ds, d.window ≤ last) :
    recovered last ds committed = committed ++ ds.flatMap InDoubt.rows := by
  rw [recovered, List.filter_eq_self.mpr (by simpa using h)]

end Recovered

end SeaTunnel.Jdbc.XaInDoubt

namespace SeaTunnel.Jdbc.XaHeld

open Lib Xid XaSink XaBranches XaInDoubt

variable {F D C : Type}

structure Account (F : Type) where
  isAlphanumeric : Char → Bool
  owner : XidNamespace
  plain : hexForm (xidBase isAlphanumeric owner) = false
  rel : List (Row F) → List (Row F) → Prop
  rel_perm : ∀ rows {xs ys}, xs.Perm ys → rel rows xs → rel rows ys
  rel_self : ∀ rows, rel rows rows
  targets : List (ℕ × List (Row F))
  Allowed : String → Prop

def Account.base (a : Account F) : String := xidBase a.isAlphanumeric a.owner

theorem Account.ownWindow_windowXid (a : Account F) (epoch : ℕ) {window : ℕ} (h : window < 2 ^ 64) :
    ownWindow a.base (Xid.windowXid a.base epoch window) = some window := by
  rw [Account.base, Xid.ownWindow_windowXid h, if_pos List.prefix_rfl]

theorem Account.hexForm_windowXid (a : Account F) (epoch window : ℕ) :
    hexForm (Xid.windowXid a.base epoch window) = false := by
  rw [Account.base, Xid.hexForm_windowXid List.prefix_rfl]
  exact a.plain

def Account.owing (a : Account F) (targets : List (ℕ × List (Row F))) (Allowed : String → Prop) :
    Account F := { a with targets, Allowed }

def Account.allow (a : Account F) (xids : List String) : Account F :=
  a.owing a.targets fun xid ↦ a.Allowed xid ∨ xid ∈ xids

def attachedRows (v : View F) : List (Row F) := (v.attached.map Attached.rows).getD []

structure Held (a : Account F) (ds : List (InDoubt F)) (w : XaSinkWriter F) (v : View F) : Prop where
  conn : w.conn = true
  base : w.xidBase = a.base
  describes : Describes a.base ds v
  covered : ∀ d ∈ ds, d.window ≤ w.lastCommittedWindow ∨
    v.live = false ∧ w.txnOpen = true ∧ d.window = w.lastCommittedWindow + 1
  closed : w.txnOpen = false → v.attached = none
  opened : ∀ b, v.attached = some b → b.xid = w.windowXid w.openWindow ∧ v.prepared b.xid = none
  dead : v.live = false → v.attached = none
  targets : ∀ p ∈ a.targets, p.1 ≤ w.lastCommittedWindow ∧ a.rel p.2 (recovered p.1 ds v.committed)
  allowed : ∀ d ∈ ds, d.window ≤ w.lastCommittedWindow → a.Allowed d.xid

def Even (ds : List (InDoubt F)) (total : List (Row F)) (w : XaSinkWriter F) (v : View F) : Prop :=
  v.live = false ∧ w.txnOpen = true ∨
    (v.committed ++ ds.flatMap InDoubt.rows ++ attachedRows v ++ w.buffer).Perm total

section Views

variable {a : Account F} {ds : List (InDoubt F)} {w : XaSinkWriter F} {v v' : View F}
  {total : List (Row F)}

theorem Held.hangUp (h : Held a ds w v) : Held a ds w v.hangUp where
  conn := h.conn
  base := h.base
  describes := h.describes.congr rfl
  covered := fun d hd ↦ (h.covered d hd).imp_right fun hdead ↦ ⟨rfl, hdead.2⟩
  closed := fun _ ↦ rfl
  opened := nofun
  dead := fun _ ↦ rfl
  targets := h.targets
  allowed := h.allowed

theorem Even.hangUp (h : Held a ds w v) (he : Even ds total w v) : Even ds total w v.hangUp := by
  cases htxn : w.txnOpen with
  | true => exact .inl ⟨rfl, htxn⟩
  | false =>
    rcases he with ⟨-, hopen⟩ | hrows
    · rw [htxn] at hopen
      cases hopen
    · refine .inr ?_
      have hnone := h.closed htxn
      simpa [attachedRows, hnone, View.hangUp] using hrows

theorem failed_quiet {statement : Statement F} (h : Failed .writer v statement v')
    (hquiet : ∀ u, effect .writer v statement = some u → u.hangUp = v.hangUp) :
    v' = v ∨ v' = v.hangUp := by
  cases h with
  | refused => exact .inl rfl
  | hungUp u _ hu =>
    rcases hu with rfl | hu
    · exact .inr rfl
    · exact .inr (hquiet u hu)
  | unanswered u hsession _ => cases hsession

theorem Held.failed {statement : Statement F} (h : Held a ds w v)
    (hfailed : Failed .writer v statement v')
    (hquiet : ∀ u, effect .writer v statement = some u → u.hangUp = v.hangUp) :
    Held a ds w v' ∧ (Even ds total w v → Even ds total w v') := by
  rcases failed_quiet hfailed hquiet with rfl | rfl
  · exact ⟨h, id⟩
  · exact ⟨h.hangUp, fun he ↦ he.hangUp h⟩

theorem Held.start (h : Held a ds w v)
    (heffect : effect .writer v (.xa .xaStart (w.windowXid w.openWindow)) = some v') :
    Held a ds { w with txnOpen := true } v' ∧
      (Even ds total w v → Even ds total { w with txnOpen := true } v') := by
  obtain ⟨hlive, hnone, hfresh, rfl⟩ := effect_start heffect
  constructor
  · refine ⟨h.conn, h.base, h.describes.congr rfl, fun d hd ↦ ?_, nofun, ?_, ?_, h.targets, h.allowed⟩
    · rcases h.covered d hd with hle | ⟨hdead, -⟩
      · exact .inl hle
      · rw [hlive] at hdead
        cases hdead
    · rintro b hb
      obtain rfl := Option.some.inj hb
      exact ⟨rfl, hfresh⟩
    · intro hdead
      rw [hlive] at hdead
      cases hdead
  · rintro (⟨hdead, -⟩ | hrows)
    · rw [hlive] at hdead
      cases hdead
    · refine .inr ?_
      simpa [attachedRows, hnone] using hrows

theorem Held.data {op : DataStatement F} (h : Held a ds w v)
    (heffect : effect .writer v (.data op) = some v') :
    Held a ds w v' ∧ v'.committed = v.committed ∧ v'.live = v.live ∧
      attachedRows v' = attachedRows v ++ op.rows := by
  obtain ⟨b, hb, rfl⟩ := effect_data heffect
  refine ⟨⟨h.conn, h.base, h.describes.congr rfl, h.covered, fun htxn ↦ ?_, ?_, fun hdead ↦ ?_,
    h.targets, h.allowed⟩, rfl, rfl, ?_⟩
  · simp [h.closed htxn] at hb
  · rintro b' hb'
    obtain rfl := Option.some.inj hb'
    exact h.opened b hb
  · simp [h.dead hdead] at hb
  · simp [attachedRows, hb]

theorem Held.ended {xid : String} (h : Held a ds w v)
    (heffect : effect .writer v (.xa .xaEnd xid) = some v') :
    Held a ds w v' ∧ (Even ds total w v → Even ds total w v') := by
  obtain ⟨b, hb, rfl⟩ := effect_end heffect
  refine ⟨⟨h.conn, h.base, h.describes.congr rfl, h.covered, fun htxn ↦ ?_, ?_, fun hdead ↦ ?_,
    h.targets, h.allowed⟩, fun he ↦ ?_⟩
  · simp [h.closed htxn] at hb
  · rintro b' hb'
    obtain rfl := Option.some.inj hb'
    exact h.opened b hb
  · simp [h.dead hdead] at hb
  · simpa [Even, attachedRows, hb] using he

def prepared (w : XaSinkWriter F) : XaSinkWriter F :=
  { w with txnOpen := false, rowsInTxn := 0, lastCommittedWindow := w.openWindow }

theorem Held.prepare (h : Held a ds w v) (hbound : w.lastCommittedWindow + 1 < 2 ^ 64)
    (heffect : effect .writer v (.xa .xaPrepare (w.windowXid w.openWindow)) = some v') :
    ∃ d : InDoubt F, d.xid = w.windowXid w.openWindow ∧
      Held (a.allow [w.windowXid w.openWindow]) (d :: ds) (prepared w) v' ∧
      (Even ds total w v → Even (d :: ds) total (prepared w) v') ∧ Held a (d :: ds) w v'.hangUp := by
  obtain ⟨b, hb, hxid, rfl⟩ := effect_prepare heffect
  have hwindow : w.openWindow = w.lastCommittedWindow + 1 := Nat.mod_eq_of_lt hbound
  have hlive : v.live = true := by
    by_contra hdead
    simp [h.dead (by simpa using hdead)] at hb
  have htxn : w.txnOpen = true := by
    by_contra hclosed
    simp [h.closed (by simpa using hclosed)] at hb
  have hold : ∀ d ∈ ds, d.window ≤ w.lastCommittedWindow := by
    intro d hd
    rcases h.covered d hd with hle | ⟨hdead, -⟩
    · exact hle
    · rw [hlive] at hdead
      cases hdead
  let d : InDoubt F := ⟨w.windowXid w.openWindow, w.lastCommittedWindow + 1, b.rows⟩
  have hdescribes : Describes a.base (d :: ds) { v with
      attached := none
      prepared := Function.update v.prepared (w.windowXid w.openWindow) (some b.rows) } := by
    have hfresh : v.prepared (w.windowXid w.openWindow) = none := by
      rw [← hxid]
      exact (h.opened b hb).2
    refine h.describes.cons hfresh ?_ ?_ rfl
    · simp only [d, XaSinkWriter.windowXid, h.base, hwindow]
      exact a.ownWindow_windowXid w.epoch hbound
    · simp only [d, XaSinkWriter.windowXid, h.base]
      exact a.hexForm_windowXid w.epoch w.openWindow
  have hrel : ∀ p ∈ a.targets, a.rel p.2 (recovered p.1 (d :: ds) v.committed) := by
    intro p hp
    obtain ⟨hle, hr⟩ := h.targets p hp
    have hnewer : p.1 < d.window := Nat.lt_succ_of_le hle
    rwa [recovered_cons_newer hnewer]
  refine ⟨d, rfl, ⟨h.conn, h.base, hdescribes, fun e he ↦ .inl ?_, fun _ ↦ rfl, nofun, fun _ ↦ rfl,
    fun p hp ↦ ⟨?_, hrel p hp⟩, fun e he hle ↦ ?_⟩, ?_,
    ⟨h.conn, h.base, hdescribes.congr rfl, fun e he ↦ ?_, fun _ ↦ rfl, nofun, fun _ ↦ rfl,
      fun p hp ↦ ⟨(h.targets p hp).1, hrel p hp⟩, fun e he hle ↦ ?_⟩⟩
  · simp only [prepared, hwindow]
    rcases List.mem_cons.mp he with rfl | he
    · exact le_rfl
    · exact Nat.le_succ_of_le (hold e he)
  · simp only [prepared, hwindow]
    exact Nat.le_succ_of_le (h.targets p hp).1
  · rcases List.mem_cons.mp he with rfl | he
    · exact .inr (by simp [d])
    · exact .inl (h.allowed e he (hold e he))
  · rintro (⟨hdead, -⟩ | hrows)
    · rw [hlive] at hdead
      cases hdead
    · refine .inr (List.Perm.trans ?_ hrows)
      simp only [attachedRows, hb, Option.map_none, Option.getD_none, Option.map_some, Option.getD_some,
        List.flatMap_cons, List.append_nil, prepared, d]
      refine List.Perm.append_right w.buffer ?_
      rw [List.append_assoc]
      exact List.perm_append_comm.append_left v.committed
  · rcases List.mem_cons.mp he with rfl | he
    · exact .inr ⟨rfl, htxn, rfl⟩
    · exact .inl (hold e he)
  · rcases List.mem_cons.mp he with rfl | he
    · exact absurd hle (Nat.not_succ_le_self _)
    · exact h.allowed e he hle

theorem Held.prepareFailed (h : Held a ds w v) (he : Even ds total w v)
    (hbound : w.lastCommittedWindow + 1 < 2 ^ 64)
    (hfailed : Failed .writer v (.xa .xaPrepare (w.windowXid w.openWindow)) v') :
    ∃ ds', Held a ds' w v' ∧ Even ds' total w v' := by
  cases hfailed with
  | refused => exact ⟨ds, h, he⟩
  | hungUp u _ hu =>
    rcases hu with rfl | hu
    · exact ⟨ds, h.hangUp, he.hangUp h⟩
    · obtain ⟨d, -, -, -, hlost⟩ := @Held.prepare _ a ds w v u total h hbound hu
      have hopen : w.txnOpen = true := by
        obtain ⟨b, hb, -, -⟩ := effect_prepare hu
        by_contra hclosed
        simp [h.closed (by simpa using hclosed)] at hb
      exact ⟨d :: ds, hlost, .inl ⟨rfl, hopen⟩⟩
  | unanswered u hsession _ => cases hsession

theorem Held.mono {targets : List (ℕ × List (Row F))} {Allowed : String → Prop} (h : Held a ds w v)
    (htargets : ∀ p ∈ targets, p ∈ a.targets) (hallowed : ∀ xid, a.Allowed xid → Allowed xid) :
    Held (a.owing targets Allowed) ds w v :=
  ⟨h.conn, h.base, h.describes, h.covered, h.closed, h.opened, h.dead,
    fun p hp ↦ h.targets p (htargets p hp), fun d hd hle ↦ hallowed _ (h.allowed d hd hle)⟩

theorem Held.cut (h : Held a ds w v) (he : Even ds total w v) (htxn : w.txnOpen = false)
    (hbuffer : w.buffer = []) :
    Held (a.owing ((w.lastCommittedWindow, total) :: a.targets) a.Allowed) ds w v := by
  refine ⟨h.conn, h.base, h.describes, h.covered, h.closed, h.opened, h.dead, fun p hp ↦ ?_, h.allowed⟩
  rcases List.mem_cons.mp hp with rfl | hp
  · have hold : ∀ d ∈ ds, d.window ≤ w.lastCommittedWindow := by
      intro d hd
      rcases h.covered d hd with hle | ⟨-, hopen, -⟩
      · exact hle
      · rw [htxn] at hopen
        cases hopen
    have hrows : (v.committed ++ ds.flatMap InDoubt.rows).Perm total := by
      rcases he with ⟨-, hopen⟩ | hrows
      · rw [htxn] at hopen
        cases hopen
      · simpa [attachedRows, h.closed htxn, hbuffer] using hrows
    refine ⟨le_rfl, ?_⟩
    rw [recovered_of_covered hold]
    exact a.rel_perm total hrows.symm (a.rel_self total)
  · exact h.targets p hp

end Views

/-- A delete can be executed only for a table with a key. -/
def Keyed (w : XaSinkWriter F) (row : Row F) : Prop :=
  isDelete row = true → ∀ schema ∈ w.tableSchema, w.primaryKeys schema ≠ []

instance (w : XaSinkWriter F) (row : Row F) : Decidable (Keyed w row) :=
  inferInstanceAs (Decidable (isDelete row = true → ∀ schema ∈ w.tableSchema, w.primaryKeys schema ≠ []))

section Condition

open XaFlush

variable (server : XaServer F D) (view : D → View F)

def endures : D → List (DataStatement F) → Bool
  | _, [] => true
  | d, op :: ops =>
    match server.exec .writer d (.data op) with
    | (.ok _, d) => endures d ops
    | (.error _, d) => !(view d).live

def bufferEndures (s : Client (XaSinkWriter F) F D) : Bool :=
  match s.self.tableSchema with
  | none => false
  | some schema =>
    match flushPlan s.self schema with
    | .error _ => false
    | .ok ops => endures server view s.world.db ops

def flushEndures (s : Client (XaSinkWriter F) F D) : Bool :=
  s.self.buffer.isEmpty ||
    match beginFlush server s with
    | (.error _, _) => true
    | (.ok _, s) => bufferEndures server view s

end Condition

variable (a : Account F) (view : D → View F)

def Weak (s : Client (XaSinkWriter F) F D) : Prop := ∃ ds, Held a ds s.self (view s.world.db)

structure Ready (total : List (Row F)) (s : Client (XaSinkWriter F) F D) : Prop where
  even : ∃ ds, Held a ds s.self (view s.world.db) ∧ Even ds total s.self (view s.world.db)
  keyed : ∀ row ∈ s.self.buffer, Keyed s.self row

structure Flushing (total rest : List (Row F)) (s : Client (XaSinkWriter F) F D) : Prop where
  even : ∃ ds, Held a ds s.self (view s.world.db) ∧
    ((view s.world.db).live = false ∨ ((view s.world.db).committed ++ ds.flatMap InDoubt.rows ++
      attachedRows (view s.world.db) ++ rest).Perm total)
  txnOpen : s.self.txnOpen = true
  buffer : s.self.buffer = []

structure Spent (s : Client (XaSinkWriter F) F D) : Prop where
  weak : Weak a view s
  txnOpen : s.self.txnOpen = true
  buffer : s.self.buffer = []

variable {a view} {server : XaServer F D} {total rest : List (Row F)} {s : Client (XaSinkWriter F) F D}

theorem Ready.weak (h : Ready a view total s) : Weak a view s := by
  obtain ⟨ds, hheld, -⟩ := h.even
  exact ⟨ds, hheld⟩

theorem Ready.conn (h : Ready a view total s) :
    s.self.conn = true := by
  obtain ⟨ds, hheld, -⟩ := h.even
  exact hheld.conn

theorem Flushing.spent (h : Flushing a view total rest s) :
    Spent a view s := by
  obtain ⟨ds, hheld, -⟩ := h.even
  exact ⟨⟨ds, hheld⟩, h.txnOpen, h.buffer⟩

theorem Flushing.ready (h : Flushing a view total [] s) :
    Ready a view total s := by
  obtain ⟨ds, hheld, hrows⟩ := h.even
  refine ⟨⟨ds, hheld, ?_⟩, by simp [h.buffer]⟩
  rcases hrows with hdead | hrows
  · exact .inl ⟨hdead, h.txnOpen⟩
  · exact .inr (by rwa [h.buffer])

theorem Spent.ready (h : Spent a view s) (hdead : (view s.world.db).live = false) : Ready a view total s := by
  obtain ⟨ds, hheld⟩ := h.weak
  exact ⟨⟨ds, hheld, .inl ⟨hdead, h.txnOpen⟩⟩, by simp [h.buffer]⟩

section Statements

theorem xaExec_view (hl : Lawful server view) {command : XaCommand} {xid : String}
    (s₀ : Client (XaSinkWriter F) F D) :
    Triple (fun s ↦ s = s₀) (xaExec server command xid)
      (fun _ s ↦ s.self = s₀.self ∧
        effect .writer (view s₀.world.db) (.xa command xid) = some (view s.world.db))
      (fun s ↦ s.self = s₀.self ∧
        Failed .writer (view s₀.world.db) (.xa command xid) (view s.world.db)) := by
  refine .get fun s₁ hs₁ ↦ .ite (fun _ ↦ ?_) fun _ ↦ .fail ?_
  · subst hs₁
    exact execute_view hl s₁
  · rintro s rfl
    rw [hs₁]
    exact ⟨rfl, .refused⟩

theorem ensureConnected_of_conn (h : s.self.conn = true) :
    ensureConnected server s = (.ok (), s) := by
  rw [ensureConnected, Fallible.get_bind, if_pos h]
  rfl

theorem ensureConnected_ready : Keeps (Ready a view total) (ensureConnected server) := by
  intro s hs
  rw [ensureConnected_of_conn hs.conn]
  exact hs

theorem ensureTxnOpen_ready (hl : Lawful server view) :
    Triple (Ready a view total) (ensureTxnOpen server)
      (fun _ s ↦ Ready a view total s ∧ s.self.txnOpen = true) (Ready a view total) := by
  refine .get fun s₀ hs₀ ↦ .ite (fun hopen ↦ .pure ?_) fun _ ↦ ?_
  · rintro s rfl
    exact ⟨hs₀, hopen⟩
  · obtain ⟨ds, hheld, heven⟩ := hs₀.even
    refine .bind ((xaExec_view hl s₀).weaken (fun _ hs ↦ hs) (fun _ _ hs ↦ hs) ?_) fun _ ↦ ?_
    · rintro s ⟨hself, hfailed⟩
      have hquiet : ∀ u, effect .writer (view s₀.world.db)
          (.xa .xaStart (s₀.self.windowXid s₀.self.openWindow)) = some u →
          u.hangUp = (view s₀.world.db).hangUp := by
        intro u hu
        obtain ⟨-, -, -, rfl⟩ := effect_start hu
        rfl
      obtain ⟨hheld', heven'⟩ := hheld.failed hfailed hquiet
      exact ⟨⟨ds, hself ▸ hheld', hself ▸ heven' heven⟩, hself ▸ hs₀.keyed⟩
    · refine .modify ?_
      rintro s ⟨hself, heffect⟩
      obtain ⟨hheld', heven'⟩ := hheld.start heffect
      refine ⟨⟨⟨ds, ?_, ?_⟩, ?_⟩, rfl⟩
      · rw [hself]
        exact hheld'
      · rw [hself]
        exact heven' heven
      · rw [hself]
        exact hs₀.keyed

end Statements

section Flush

open XaFlush

theorem execCounted_flushing (hl : Lawful server view) {op : DataStatement F} :
    Triple (Flushing a view total (op.rows ++ rest)) (execCounted server op)
      (fun _ ↦ Flushing a view total rest) (Spent a view) := by
  refine .bind (Q := fun _ ↦ Flushing a view total rest) ?_ fun _ ↦ .modify fun s hs ↦ ?_
  · refine .get fun s₀ hs₀ ↦ .ite (fun _ ↦ ?_) fun _ ↦ .fail ?_
    · obtain ⟨ds, hheld, hrows⟩ := hs₀.even
      refine (execute_view hl s₀).weaken (fun _ hs ↦ hs) ?_ ?_
      · rintro _ s ⟨hself, heffect⟩
        obtain ⟨hheld', hcommitted, hlive, hattached⟩ := hheld.data heffect
        refine ⟨⟨ds, hself ▸ hheld', ?_⟩, hself ▸ hs₀.txnOpen, hself ▸ hs₀.buffer⟩
        rw [hcommitted, hlive, hattached]
        simpa only [List.append_assoc] using hrows
      · rintro s ⟨hself, hfailed⟩
        have hquiet : ∀ u, effect .writer (view s₀.world.db) (.data op) = some u →
            u.hangUp = (view s₀.world.db).hangUp := by
          intro u hu
          obtain ⟨b, -, rfl⟩ := effect_data hu
          rfl
        obtain ⟨hheld', -⟩ := @Held.failed _ _ _ _ _ _ [] _ hheld hfailed hquiet
        exact ⟨⟨ds, hself ▸ hheld'⟩, hself ▸ hs₀.txnOpen, hself ▸ hs₀.buffer⟩
    · rintro s rfl
      exact hs₀.spent
  · obtain ⟨ds, hheld, hrows⟩ := hs.even
    exact ⟨⟨ds, { hheld with }, hrows⟩, hs.txnOpen, hs.buffer⟩

theorem executeRun_flushing (hl : Lawful server view) {table : String} {schema : TableSchema}
    {primaryKeys : List String} {upsert : Bool} {batchSize : ℕ} {run : List (Row F)}
    (hkeyed : ∀ row ∈ run, isDelete row = true → primaryKeys ≠ []) :
    Triple (Flushing a view total (run ++ rest))
      (executeRun server table schema primaryKeys upsert batchSize run)
      (fun _ ↦ Flushing a view total rest) (Spent a view) := by
  refine .bind (Q := fun ops s ↦ Flushing a view total (ops.flatMap DataStatement.rows ++ rest) s)
    (.ofExcept ?_ ?_) fun ops ↦ ?_
  · intro ops s hops hs
    rwa [runStatements_rows hkeyed hops]
  · intro e s _ hs
    exact hs.spent
  · refine Triple.each (I := fun ops s ↦ Flushing a view total (ops.flatMap DataStatement.rows ++ rest) s)
      (fun op ops ↦ ?_) ops
    have hop := @execCounted_flushing _ _ a view server total
      (ops.flatMap DataStatement.rows ++ rest) hl op
    simpa only [List.flatMap_cons, List.append_assoc] using hop

theorem executeBuffer_ready (hl : Lawful server view) :
    Triple (fun s ↦ Ready a view total s ∧ s.self.txnOpen = true) (executeBuffer server)
      (fun _ s ↦ Ready a view total s ∧ s.self.buffer = []) (Spent a view) := by
  refine .get fun s₀ hs₀ ↦ ?_
  obtain ⟨hready, hopen⟩ := hs₀
  refine .bind (Q := fun _ ↦ Flushing a view total s₀.self.buffer) (.modify ?_) fun _ ↦ ?_
  · rintro s rfl
    obtain ⟨ds, hheld, heven⟩ := hready.even
    refine ⟨⟨ds, { hheld with }, ?_⟩, hopen, rfl⟩
    rcases heven with ⟨hdead, -⟩ | hrows
    · exact .inl hdead
    · exact .inr hrows
  · cases hschema : s₀.self.tableSchema with
    | none => exact .fail fun s hs ↦ hs.spent
    | some schema =>
      have hkeyed : ∀ row ∈ s₀.self.buffer, isDelete row = true → s₀.self.primaryKeys schema ≠ [] :=
        fun row hrow hdelete ↦ hready.keyed row hrow hdelete schema (by simp [hschema])
      have hloop := Triple.each (I := fun runs s ↦ (∀ row ∈ runs.flatten, isDelete row = true →
          s₀.self.primaryKeys schema ≠ []) ∧ Flushing a view total runs.flatten s)
        (E := Spent a view) (f := executeRun server s₀.self.qualifiedTable schema
          (s₀.self.primaryKeys schema) (s₀.self.config.enableUpsert &&
            !(s₀.self.primaryKeys schema).isEmpty) s₀.self.config.batchSize) (fun run runs ↦ ?_)
        (runsOf s₀.self.buffer)
      · have hflat : (runsOf s₀.self.buffer).flatten = s₀.self.buffer := List.flatten_splitBy _ _
        refine hloop.weaken (fun s hs ↦ ⟨?_, ?_⟩) (fun _ s hs ↦ ⟨hs.2.ready, hs.2.buffer⟩) fun _ hs ↦ hs
        · rwa [hflat]
        · rwa [hflat]
      · refine .assuming fun hruns ↦ ?_
        have hrun := @executeRun_flushing _ _ a view server total runs.flatten hl
          s₀.self.qualifiedTable schema (s₀.self.primaryKeys schema)
          (s₀.self.config.enableUpsert && !(s₀.self.primaryKeys schema).isEmpty)
          s₀.self.config.batchSize run fun row hrow ↦ hruns row (by simp [hrow])
        refine hrun.weaken (fun s hs ↦ hs) (fun _ s hs ↦ ⟨fun row hrow ↦ ?_, hs⟩) fun _ hs ↦ hs
        exact hruns row (List.mem_append_right run hrow)

theorem execCounted_lost {op : DataStatement F} {ops : List (DataStatement F)} :
    Triple (fun s ↦ s.self.conn = true ∧ endures server view s.world.db (op :: ops) = true)
      (execCounted server op)
      (fun _ s ↦ s.self.conn = true ∧ endures server view s.world.db ops = true)
      (fun s ↦ (view s.world.db).live = false) := by
  refine .bind (Q := fun _ s ↦ s.self.conn = true ∧ endures server view s.world.db ops = true) ?_
    fun _ ↦ .modify fun s hs ↦ hs
  refine .get fun s₀ hs₀ ↦ .ite (fun _ ↦ ?_) fun hconn ↦ absurd hs₀.1 hconn
  rintro s rfl
  obtain ⟨hconn, hends⟩ := hs₀
  rcases hexec : server.exec .writer s.world.db (.data op) with ⟨e | u, d⟩
  · simp only [execute, hexec, Except.mapError]
    simpa [endures, hexec] using hends
  · simp only [execute, hexec, Except.mapError]
    refine ⟨hconn, ?_⟩
    simpa [endures, hexec] using hends

theorem exists_plan (h : bufferEndures server view s = true) :
    ∃ schema ops, s.self.tableSchema = some schema ∧ flushPlan s.self schema = .ok ops ∧
      endures server view s.world.db ops = true := by
  unfold bufferEndures at h
  split at h
  · cases h
  · next schema hschema =>
    split at h
    · cases h
    · next ops hplan => exact ⟨schema, ops, hschema, hplan, h⟩

theorem executeBuffer_lost :
    Triple (fun s ↦ s.self.conn = true ∧ bufferEndures server view s = true) (executeBuffer server)
      (fun _ _ ↦ True) (fun s ↦ (view s.world.db).live = false) := by
  refine .get fun s₀ hs₀ ↦ ?_
  obtain ⟨hconn, hends⟩ := hs₀
  obtain ⟨schema, ops, hschema, hplan, hends⟩ := exists_plan hends
  refine .bind (Q := fun _ s ↦ s.self.conn = true ∧ endures server view s.world.db ops = true) (.modify ?_) fun _ ↦ ?_
  · rintro s rfl
    exact ⟨hconn, hends⟩
  · rw [hschema]
    dsimp only
    rw [each_executeRun hplan]
    have hloop := Triple.each (f := execCounted server) (I := fun ops s ↦ s.self.conn = true ∧
      endures server view s.world.db ops = true) (fun _ _ ↦ execCounted_lost) ops
    exact hloop.weaken (fun _ hs ↦ hs) (fun _ _ _ ↦ trivial) fun _ hs ↦ hs

theorem beginFlush_ready (hl : Lawful server view) :
    Triple (Ready a view total) (beginFlush server)
      (fun _ s ↦ Ready a view total s ∧ s.self.txnOpen = true) (Ready a view total) :=
  .bind ensureConnected_ready fun _ ↦ ensureTxnOpen_ready hl

theorem flushBatch_eq (h : s.self.buffer.isEmpty = false) :
    flushBatch server s = (beginFlush server >>= fun _ ↦ executeBuffer server) s := by
  rw [flushBatch, Fallible.get_bind, if_neg (by simp [h]), beginFlush, Fallible.bind_assoc]

theorem flushBatch_ready (hl : Lawful server view) :
    Triple (Ready a view total) (flushBatch server)
      (fun _ s ↦ Ready a view total s ∧ s.self.buffer = [])
      (fun s ↦ Ready a view total s ∨ Spent a view s) := by
  intro s hs
  cases hempty : s.self.buffer.isEmpty with
  | true =>
    rw [flushBatch, Fallible.get_bind, if_pos hempty]
    exact ⟨hs, by simpa using hempty⟩
  | false =>
    rw [flushBatch_eq hempty]
    have hbegin := (beginFlush_ready hl).weaken (fun _ (hs : Ready a view total _) ↦ hs)
      (fun _ _ hs ↦ hs) fun s (hs : Ready a view total s) ↦ (Or.inl hs : _ ∨ Spent a view s)
    refine Triple.bind hbegin (fun _ ↦ ?_) s hs
    exact (executeBuffer_ready hl).weaken (fun _ hs ↦ hs) (fun _ _ hs ↦ hs) fun _ hs ↦ .inr hs

theorem flushBatch_lost (hl : Lawful server view) :
    Triple (fun s ↦ Ready a view total s ∧ flushEndures server view s = true) (flushBatch server)
      (fun _ _ ↦ True) (fun s ↦ Ready a view total s ∨ (view s.world.db).live = false) := by
  rintro s ⟨hready, hends⟩
  cases hempty : s.self.buffer.isEmpty with
  | true =>
    rw [flushBatch, Fallible.get_bind, if_pos hempty]
    trivial
  | false =>
    have hbegin : Triple (fun s' ↦ s' = s) (beginFlush server)
        (fun _ s ↦ s.self.conn = true ∧ bufferEndures server view s = true)
        (fun s ↦ Ready a view total s ∨ (view s.world.db).live = false) := by
      rintro s rfl
      have hout := beginFlush_ready hl s hready
      rw [flushEndures, hempty, Bool.false_or] at hends
      split
      · next heq =>
        rw [heq] at hout hends
        exact ⟨hout.1.conn, hends⟩
      · next heq =>
        rw [heq] at hout
        exact .inl hout
    rw [flushBatch_eq hempty]
    refine Triple.bind hbegin (fun _ ↦ ?_) s rfl
    exact executeBuffer_lost.weaken (fun _ hs ↦ hs) (fun _ _ hs ↦ hs) fun _ hs ↦ .inr hs

theorem flushBatch_sound (hl : Lawful server view) :
    Triple (fun s ↦ Ready a view total s ∧ flushEndures server view s = true) (flushBatch server)
      (fun _ s ↦ Ready a view total s ∧ s.self.buffer = []) (Ready a view total) := by
  refine ((flushBatch_ready hl).and (flushBatch_lost hl)).weaken (fun _ hs ↦ ⟨hs.1, hs⟩)
    (fun _ _ hs ↦ hs.1) fun s hs ↦ ?_
  rcases hs with ⟨hready | hspent, hready' | hdead⟩
  · exact hready
  · exact hready
  · exact hready'
  · exact hspent.ready hdead

end Flush

section Calls

structure Settled (w : XaSinkWriter F) (s : Client (XaSinkWriter F) F D) : Prop where
  conn : s.self.conn = true
  config : s.self.config = w.config
  tableSchema : s.self.tableSchema = w.tableSchema
  lastCommittedWindow : s.self.lastCommittedWindow = w.lastCommittedWindow

variable {w : XaSinkWriter F}

theorem Settled.keyed (h : Settled w s) {row : Row F} :
    Keyed s.self row ↔ Keyed w row := by
  simp only [Keyed, XaSinkWriter.primaryKeys, h.config, h.tableSchema]

theorem ensureConnected_settled : Keeps (Settled w) (ensureConnected server) := by
  intro s hs
  rw [ensureConnected_of_conn hs.conn]
  exact hs

theorem flushBatch_settled : Keeps (Settled w) (flushBatch server) := by
  refine .get fun _ ↦ .ite (.pure ()) (.bind ensureConnected_settled fun _ ↦ .bind ?_ fun _ ↦ ?_)
  · refine .get fun _ ↦ .ite (.pure ()) (.bind (xaExec_keeps fun _ ↦ .of_snd fun _ hs ↦ ?_) fun _ ↦ ?_)
    · exact { hs with }
    · exact .modify fun _ hs ↦ { hs with }
  · have hexec : ∀ op, Keeps (Settled (D := D) w) (execCounted server op) := fun op ↦ by
      refine .bind (.get fun _ ↦ .ite (.of_snd fun _ hs ↦ ?_) (.fail _)) fun _ ↦ .modify fun _ hs ↦ ?_
      · exact { hs with }
      · exact { hs with }
    refine .get fun s₀ ↦ .bind (.modify fun _ hs ↦ { hs with }) fun _ ↦ ?_
    split
    · exact .fail _
    · exact .each fun run _ ↦ .bind (.ofExcept _) fun ops ↦ .each fun op _ ↦ hexec op

theorem write_settled {row : Row F} : Keeps (Settled w) (write server row) :=
  .get fun _ ↦ .bind (.modify fun _ hs ↦ { hs with }) fun _ ↦ .ite flushBatch_settled (.pure ())

theorem pollFlush_ready (hl : Lawful server view) :
    Triple (Ready a view total) (pollFlush server) (fun _ ↦ Ready a view total) (Weak a view) := by
  refine .get fun s₀ hs₀ ↦ .ite (fun _ ↦ .pure ?_) fun _ ↦ ?_
  · rintro s rfl
    exact hs₀
  · refine (flushBatch_ready hl).weaken ?_ (fun _ _ hs ↦ hs.1) fun s hs ↦ ?_
    · rintro s rfl
      exact hs₀
    · rcases hs with hready | hspent
      · exact hready.weak
      · exact hspent.weak

theorem Ready.push {row : Row F} (h : Ready a view total s)
    (hkeyed : Keyed s.self row) : Ready a view (total ++ [row]) (XaFlush.push row s) := by
  obtain ⟨ds, hheld, heven⟩ := h.even
  refine ⟨⟨ds, { hheld with }, ?_⟩, fun row' hrow' ↦ ?_⟩
  · rcases heven with hdead | hrows
    · exact .inl hdead
    · refine .inr ?_
      simp only [XaFlush.push]
      rw [← List.append_assoc]
      exact hrows.append_right [row]
  · rcases List.mem_append.mp hrow' with hbuffer | hnew
    · exact h.keyed row' hbuffer
    · rw [List.mem_singleton.mp hnew]
      exact hkeyed

theorem write_ready (hl : Lawful server view) {row : Row F} :
    Triple (fun s ↦ Ready a view total s ∧ Keyed s.self row) (write server row)
      (fun _ ↦ Ready a view (total ++ [row])) (Weak a view) := by
  refine .get fun s₀ hs₀ ↦ .bind (Q := fun _ ↦ Ready a view (total ++ [row])) (.modify ?_) fun _ ↦ ?_
  · rintro s rfl
    exact hs₀.1.push hs₀.2
  · refine .ite (fun _ ↦ ?_) fun _ ↦ .pure fun _ hs ↦ hs
    refine (flushBatch_ready hl).weaken (fun _ hs ↦ hs) (fun _ _ hs ↦ hs.1) fun s hs ↦ ?_
    rcases hs with hready | hspent
    · exact hready.weak
    · exact hspent.weak

def Account.cut (a : Account F) (total : List (Row F)) (infos : List XaCommitInfo) (w : XaSinkWriter F) :
    Account F :=
  a.owing ((w.lastCommittedWindow, total) :: a.targets) fun xid ↦
    a.Allowed xid ∨ xid ∈ infos.map XaCommitInfo.xid

theorem xaEnd_ready (hl : Lawful server view) {xid : String} :
    Keeps (fun s ↦ Ready a view total s ∧ s.self = w) (xaExec server .xaEnd xid) := by
  rintro s₀ ⟨hs₀, rfl⟩
  obtain ⟨ds, hheld, heven⟩ := hs₀.even
  refine (xaExec_view hl s₀).weaken (fun _ hs ↦ hs) ?_ ?_ s₀ rfl
  · rintro _ s ⟨hself, heffect⟩
    obtain ⟨hheld', heven'⟩ := hheld.ended heffect
    exact ⟨⟨⟨ds, hself ▸ hheld', hself ▸ heven' heven⟩, hself ▸ hs₀.keyed⟩, hself⟩
  · rintro s ⟨hself, hfailed⟩
    have hquiet : ∀ u, effect .writer (view s₀.world.db) (.xa .xaEnd xid) = some u →
        u.hangUp = (view s₀.world.db).hangUp := by
      intro u hu
      obtain ⟨b, -, rfl⟩ := effect_end hu
      rfl
    obtain ⟨hheld', heven'⟩ := hheld.failed hfailed hquiet
    exact ⟨⟨⟨ds, hself ▸ hheld', hself ▸ heven' heven⟩, hself ▸ hs₀.keyed⟩, hself⟩

theorem xaPrepare_ready (hl : Lawful server view) (hbuffer : w.buffer = [])
    (hbound : w.lastCommittedWindow + 1 < 2 ^ 64) :
    Triple (fun s ↦ Ready a view total s ∧ s.self = w) (xaExec server .xaPrepare (w.windowXid w.openWindow))
      (fun _ s ↦ Ready (a.allow [w.windowXid w.openWindow]) view total { s with self := prepared w } ∧
        s.self = w)
      (Ready a view total) := by
  rintro s₀ ⟨hs₀, rfl⟩
  obtain ⟨ds, hheld, heven⟩ := hs₀.even
  have hkeyed : ∀ row ∈ s₀.self.buffer, Keyed s₀.self row := by simp [hbuffer]
  refine (xaExec_view hl s₀).weaken (fun _ hs ↦ hs) ?_ ?_ s₀ rfl
  · rintro _ s ⟨hself, heffect⟩
    obtain ⟨d, -, hheld', heven', -⟩ := hheld.prepare hbound heffect
    exact ⟨⟨⟨d :: ds, hheld', heven' heven⟩, hkeyed⟩, hself⟩
  · rintro s ⟨hself, hfailed⟩
    obtain ⟨ds', hheld', heven'⟩ := hheld.prepareFailed heven hbound hfailed
    exact ⟨⟨ds', hself ▸ hheld', hself ▸ heven'⟩, hself ▸ hkeyed⟩

theorem prepareCommit_ready (hl : Lawful server view) {n : ℕ} :
    Triple (fun s ↦ Ready a view total s ∧ flushEndures server view s = true ∧
        s.self.lastCommittedWindow + 1 < 2 ^ 64)
      (prepareCommit server n)
      (fun infos s ↦ Ready (a.cut total infos s.self) view total s ∧ s.self.txnOpen = false ∧
        s.self.buffer = [])
      (Ready a view total) := by
  rintro s₀ ⟨hready, hends, hbound⟩
  rw [prepareCommit, Fallible.bind_ok (ensureConnected_of_conn hready.conn)]
  have hflush : Triple (fun s ↦ s = s₀) (flushBatch server)
      (fun _ s ↦ (Ready a view total s ∧ s.self.buffer = []) ∧ Settled s₀.self s) (Ready a view total) := by
    refine ((flushBatch_sound hl).and flushBatch_settled).weaken ?_ (fun _ _ hs ↦ hs) fun _ hs ↦ hs.1
    rintro s rfl
    exact ⟨⟨hready, hends⟩, hready.conn, rfl, rfl, rfl⟩
  refine Triple.bind hflush (fun _ ↦ .get fun s₁ hs₁ ↦ ?_) s₀ rfl
  obtain ⟨⟨hs₁, hbuffer⟩, hsettled⟩ := hs₁
  have hbound' : s₁.self.lastCommittedWindow + 1 < 2 ^ 64 := by rwa [hsettled.lastCommittedWindow]
  refine .ite (fun _ ↦ ?_) fun hclosed ↦ .pure ?_
  · refine .bind (Q := fun _ s ↦ Ready a view total s ∧ s.self = s₁.self) ?_ fun _ ↦ ?_
    · refine (xaEnd_ready hl).weaken ?_ (fun _ _ hs ↦ hs) fun _ hs ↦ hs.1
      rintro s rfl
      exact ⟨hs₁, rfl⟩
    refine .bind (xaPrepare_ready hl hbuffer hbound') fun _ ↦ ?_
    refine .bind (Q := fun _ s ↦ Ready (a.allow [s₁.self.windowXid s₁.self.openWindow]) view total s ∧
      s.self = prepared s₁.self) (.modify ?_) fun _ ↦ .pure ?_
    · rintro s ⟨hs, hself⟩
      rw [hself]
      exact ⟨hs, rfl⟩
    · rintro s ⟨hs, hself⟩
      have htxn : s.self.txnOpen = false := by rw [hself]; rfl
      have hempty : s.self.buffer = [] := by rw [hself]; exact hbuffer
      obtain ⟨ds, hheld, heven⟩ := hs.even
      exact ⟨⟨⟨ds, hheld.cut heven htxn hempty, heven⟩, hs.keyed⟩, htxn, hempty⟩
  · rintro s rfl
    have htxn : s.self.txnOpen = false := by simpa using hclosed
    obtain ⟨ds, hheld, heven⟩ := hs₁.even
    have hcut := (hheld.cut heven htxn hbuffer).mono (fun _ hp ↦ hp)
      fun xid hallowed ↦ (Or.inl hallowed : _ ∨ xid ∈ ([] : List XaCommitInfo).map XaCommitInfo.xid)
    exact ⟨⟨⟨ds, hcut, heven⟩, hs₁.keyed⟩, htxn, hbuffer⟩

theorem prepareCommit_settled {n : ℕ} :
    Triple (Settled w) (prepareCommit server n) (fun _ _ ↦ True) (Settled w) := by
  have hexec : ∀ command xid, Keeps (Settled (D := D) w) (xaExec server command xid) :=
    fun command xid ↦ xaExec_keeps fun _ ↦ .of_snd fun _ hs ↦ { hs with }
  refine .bind ensureConnected_settled fun _ ↦ .bind flushBatch_settled fun _ ↦ .get fun s₀ hs₀ ↦ ?_
  refine .ite (fun _ ↦ ?_) fun _ ↦ .pure fun _ _ ↦ trivial
  refine .bind (Q := fun _ ↦ Settled w) ((hexec _ _).pre ?_) fun _ ↦ ?_
  · rintro s rfl
    exact hs₀
  · refine .bind (hexec _ _) fun _ ↦ .bind (Q := fun _ _ ↦ True) (.modify fun _ _ ↦ trivial) fun _ ↦ ?_
    exact .pure fun _ _ ↦ trivial

end Calls

end SeaTunnel.Jdbc.XaHeld
