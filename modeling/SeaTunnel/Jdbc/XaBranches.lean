import Mathlib.Logic.Function.Basic
import SeaTunnel.Jdbc.XaSink
import SeaTunnel.Lib.Dict

namespace SeaTunnel.Jdbc.XaBranches

open Lib Xid XaSink

variable {F D : Type}

structure Attached (F : Type) where
  xid : String
  rows : List (Row F) := []
  ended : Bool := false
  deriving DecidableEq, Repr

/-- The part of the server state that one writer and its committer are about:
the session, the branches, and the row operations that have become visible. -/
structure View (F : Type) where
  live : Bool := false
  attached : Option (Attached F) := none
  prepared : String → Option (List (Row F)) := fun _ ↦ none
  committed : List (Row F) := []

namespace View

def hangUp (v : View F) : View F := { v with live := false, attached := none }

def connected (v : View F) : View F := { v with live := true, attached := none }

def settle (v : View F) (xid : String) (visible : List (Row F)) : View F :=
  { v with
    prepared := Function.update v.prepared xid none
    committed := v.committed ++ visible }

@[simp] theorem settle_prepared_self (v : View F) (xid : String) (rows : List (Row F)) :
    (v.settle xid rows).prepared xid = none := Function.update_self ..

theorem settle_prepared_of_ne (v : View F) {xid x : String} (rows : List (Row F)) (hne : x ≠ xid) :
    (v.settle xid rows).prepared x = v.prepared x := Function.update_of_ne hne ..

@[simp] theorem settle_committed (v : View F) (xid : String) (rows : List (Row F)) :
    (v.settle xid rows).committed = v.committed ++ rows := rfl

@[simp] theorem settle_attached (v : View F) (xid : String) (rows : List (Row F)) :
    (v.settle xid rows).attached = v.attached := rfl

end View

/-- What a statement does when the server carries it out. A branch outside
the view belongs to somebody else, and settling it changes nothing here. -/
def effect (session : Session) (v : View F) : Statement F → Option (View F)
  | .xa .xaStart xid =>
    if v.live ∧ v.attached = none ∧ v.prepared xid = none then some { v with attached := some { xid } }
    else none
  | .data op =>
    match v.attached with
    | none => none
    | some b => if b.ended then none else some { v with attached := some { b with rows := b.rows ++ op.rows } }
  | .xa .xaEnd xid =>
    match v.attached with
    | none => none
    | some b =>
      if b.xid = xid ∧ b.ended = false then some { v with attached := some { b with ended := true } } else none
  | .xa .xaPrepare xid =>
    match v.attached with
    | none => none
    | some b =>
      if b.xid = xid ∧ b.ended = true then
        some { v with attached := none, prepared := Function.update v.prepared xid (some b.rows) }
      else none
  | .xa .xaCommit xid =>
    if session = .writer ∧ v.live = false then none
    else
      match v.prepared xid with
      | none => some v
      | some rows => some (v.settle xid rows)
  | .xa .xaRollback xid =>
    if session = .writer ∧ v.live = false then none
    else
      match v.prepared xid with
      | none => some v
      | some _ => some (v.settle xid [])

section Effects

variable {session : Session} {v v' : View F} {xid : String}

theorem effect_start (h : effect session v (.xa .xaStart xid) = some v') :
    v.live = true ∧ v.attached = none ∧ v.prepared xid = none ∧
      v' = { v with attached := some { xid } } := by
  obtain ⟨hguard, h⟩ := Option.ite_none_right_eq_some.mp h
  exact ⟨hguard.1, hguard.2.1, hguard.2.2, (Option.some.inj h).symm⟩

theorem effect_data {op : DataStatement F} (h : effect session v (.data op) = some v') :
    ∃ b, v.attached = some b ∧ v' = { v with attached := some { b with rows := b.rows ++ op.rows } } := by
  simp only [effect] at h
  split at h
  · cases h
  · next b hb =>
    obtain ⟨-, h⟩ := Option.ite_none_left_eq_some.mp h
    exact ⟨b, hb, (Option.some.inj h).symm⟩

theorem effect_end (h : effect session v (.xa .xaEnd xid) = some v') :
    ∃ b, v.attached = some b ∧ v' = { v with attached := some { b with ended := true } } := by
  simp only [effect] at h
  split at h
  · cases h
  · next b hb =>
    obtain ⟨-, h⟩ := Option.ite_none_right_eq_some.mp h
    exact ⟨b, hb, (Option.some.inj h).symm⟩

theorem effect_prepare (h : effect session v (.xa .xaPrepare xid) = some v') :
    ∃ b, v.attached = some b ∧ b.xid = xid ∧
      v' = { v with attached := none, prepared := Function.update v.prepared xid (some b.rows) } := by
  simp only [effect] at h
  split at h
  · cases h
  · next b hb =>
    obtain ⟨hguard, h⟩ := Option.ite_none_right_eq_some.mp h
    exact ⟨b, hb, hguard.1, (Option.some.inj h).symm⟩

theorem effect_commit (h : effect session v (.xa .xaCommit xid) = some v') :
    (session = .writer → v.live = true) ∧
      (v.prepared xid = none ∧ v' = v ∨ ∃ rows, v.prepared xid = some rows ∧ v' = v.settle xid rows) := by
  obtain ⟨hguard, h⟩ := Option.ite_none_left_eq_some.mp h
  refine ⟨fun hs ↦ by simpa [hs] using hguard, ?_⟩
  split at h
  · next hnone => exact .inl ⟨hnone, (Option.some.inj h).symm⟩
  · next rows hrows => exact .inr ⟨rows, hrows, (Option.some.inj h).symm⟩

theorem effect_rollback (h : effect session v (.xa .xaRollback xid) = some v') :
    v.prepared xid = none ∧ v' = v ∨ ∃ rows, v.prepared xid = some rows ∧ v' = v.settle xid [] := by
  obtain ⟨-, h⟩ := Option.ite_none_left_eq_some.mp h
  split at h
  · next hnone => exact .inl ⟨hnone, (Option.some.inj h).symm⟩
  · next rows hrows => exact .inr ⟨rows, hrows, (Option.some.inj h).symm⟩

/-- A statement leaves every branch but its own as it is. -/
theorem effect_frame {statement : Statement F} (h : effect session v statement = some v')
    (hother : ∀ command, statement ≠ .xa command xid) : v'.prepared xid = v.prepared xid := by
  cases statement with
  | data op =>
    obtain ⟨b, -, rfl⟩ := effect_data h
    rfl
  | xa command other =>
    have hne : xid ≠ other := fun heq ↦ hother command (heq ▸ rfl)
    cases command with
    | xaStart =>
      obtain ⟨-, -, -, rfl⟩ := effect_start h
      rfl
    | xaEnd =>
      obtain ⟨b, -, rfl⟩ := effect_end h
      rfl
    | xaPrepare =>
      obtain ⟨b, -, -, rfl⟩ := effect_prepare h
      exact Function.update_of_ne hne ..
    | xaCommit =>
      obtain ⟨-, ⟨-, rfl⟩ | ⟨rows, -, rfl⟩⟩ := effect_commit h
      · rfl
      · exact View.settle_prepared_of_ne v rows hne
    | xaRollback =>
      obtain ⟨-, rfl⟩ | ⟨rows, -, rfl⟩ := effect_rollback h
      · rfl
      · exact View.settle_prepared_of_ne v [] hne

end Effects

/-- A statement that fails has been refused, or its answer was lost: then it
may have been carried out, and the writer's session is gone with the answer. -/
inductive Failed (session : Session) (v : View F) (statement : Statement F) : View F → Prop
  | refused : Failed session v statement v
  | hungUp (v' : View F) (hsession : session = .writer)
      (hv' : v' = v ∨ effect session v statement = some v') : Failed session v statement v'.hangUp
  | unanswered (v' : View F) (hsession : session = .committer)
      (hv' : effect session v statement = some v') : Failed session v statement v'

/-- What the sink relies on of the server: nobody else settles the branches
of the view, and the listing names all of them. -/
structure Lawful (server : XaServer F D) (view : D → View F) : Prop where
  discover : ∀ d table, view (server.discover d table).2 = view d
  connect_ok : ∀ d, (server.connect .writer d).1 = .ok () →
    view (server.connect .writer d).2 = (view d).connected
  connect_error : ∀ d e, (server.connect .writer d).1 = .error e →
    view (server.connect .writer d).2 = view d
  connect_committer : ∀ d, view (server.connect .committer d).2 = view d
  recover : ∀ session d, view (server.recover session d).2 = view d ∨
    session = .writer ∧ (∀ rows, (server.recover session d).1 ≠ .ok rows) ∧
      view (server.recover session d).2 = (view d).hangUp
  lists_prepared : ∀ session d rows, (server.recover session d).1 = .ok rows →
    ∀ xid, ((view d).prepared xid).isSome → .ofXid xid ∈ rows
  exec_ok : ∀ session d statement, (server.exec session d statement).1 = .ok () →
    effect session (view d) statement = some (view (server.exec session d statement).2)
  exec_error : ∀ session d statement e, (server.exec session d statement).1 = .error e →
    Failed session (view d) statement (view (server.exec session d statement).2)
  killSessions : ∀ d database, view (server.killSessions d database) = view d
  disconnect : ∀ d, view (server.disconnect d) = (view d).hangUp

theorem execute_view {C : Type} {server : XaServer F D} {view : D → View F} (hl : Lawful server view)
    {session : Session} {context : String} {statement : Statement F} (s₀ : Client C F D) :
    Triple (fun s ↦ s = s₀) (execute server session context statement)
      (fun _ s ↦ s.self = s₀.self ∧
        effect session (view s₀.world.db) statement = some (view s.world.db))
      (fun s ↦ s.self = s₀.self ∧ Failed session (view s₀.world.db) statement (view s.world.db)) := by
  rintro s rfl
  cases hexec : (server.exec session s.world.db statement).1 with
  | ok u =>
    simp only [execute, hexec, Except.mapError]
    exact ⟨trivial, hl.exec_ok session s.world.db statement hexec⟩
  | error e =>
    simp only [execute, hexec, Except.mapError]
    exact ⟨trivial, hl.exec_error session s.world.db statement e hexec⟩

theorem query_view {C : Type} {server : XaServer F D} {view : D → View F} (hl : Lawful server view)
    {session : Session} (s₀ : Client C F D) :
    Triple (fun s ↦ s = s₀) (query server session)
      (fun rows s ↦ s.self = s₀.self ∧ view s.world.db = view s₀.world.db ∧
        ∀ xid, ((view s₀.world.db).prepared xid).isSome → .ofXid xid ∈ rows)
      (fun s ↦ s.self = s₀.self ∧ (view s.world.db = view s₀.world.db ∨
        session = .writer ∧ view s.world.db = (view s₀.world.db).hangUp)) := by
  rintro s rfl
  cases hquery : (server.recover session s.world.db).1 with
  | ok rows =>
    simp only [query, hquery, Except.mapError]
    refine ⟨trivial, ?_, hl.lists_prepared session s.world.db rows hquery⟩
    rcases hl.recover session s.world.db with hsame | ⟨-, hfails, -⟩
    · exact hsame
    · exact absurd hquery (hfails rows)
  | error e =>
    simp only [query, hquery, Except.mapError]
    refine ⟨trivial, ?_⟩
    rcases hl.recover session s.world.db with hsame | ⟨hsession, -, hhung⟩
    · exact .inl hsame
    · exact .inr ⟨hsession, hhung⟩

section Reference

/-- A server in memory. It refuses the statements that `faults` marks, one
mark for each statement it is sent. -/
structure Memory (F : Type) where
  live : Bool := false
  attached : Option (Attached F) := none
  prepared : Dict String (List (Row F)) := ∅
  committed : List (Row F) := []
  faults : List Bool := []

def Memory.view (d : Memory F) : View F where
  live := d.live
  attached := d.attached
  prepared := fun xid ↦ d.prepared.lookup xid
  committed := d.committed

/-- It has no branch to settle under an id that is not prepared. -/
def Memory.knows (d : Memory F) : Statement F → Bool
  | .xa .xaCommit xid | .xa .xaRollback xid => (d.prepared.lookup xid).isSome
  | _ => true

def Memory.showing (d : Memory F) (v : View F) (statement : Statement F) : Memory F :=
  { d with
    live := v.live
    attached := v.attached
    prepared :=
      match statement with
      | .xa _ xid => d.prepared.assign xid (v.prepared xid)
      | .data _ => d.prepared
    committed := v.committed }

def Memory.apply (session : Session) (d : Memory F) (statement : Statement F) : Option (Memory F) :=
  if d.knows statement then (effect session d.view statement).map fun v ↦ d.showing v statement else none

def Memory.exec (session : Session) (d : Memory F) (statement : Statement F) :
    Except String Unit × Memory F :=
  let after := { d with faults := d.faults.tail }
  if d.faults.head? = some true then (.error "refused", after)
  else
    match after.apply session statement with
    | none => (.error "XAER_RMFAIL", after)
    | some d => (.ok (), d)

def memory (primaryKey : List String) : XaServer F (Memory F) where
  discover := fun d _ ↦ (.ok ("db", ⟨["id", "v"], primaryKey⟩), d)
  connect := fun session d ↦
    match session with
    | .writer => (.ok (), { d with live := true, attached := none })
    | .committer => (.ok (), d)
  recover := fun _ d ↦ (.ok (d.prepared.keys.map .ofXid), d)
  exec := Memory.exec
  killSessions := fun d _ ↦ d
  disconnect := fun d ↦ { d with live := false, attached := none }

theorem Memory.view_showing {d : Memory F} {v : View F} {statement : Statement F}
    (hframe : ∀ xid, (∀ command, statement ≠ .xa command xid) → v.prepared xid = d.view.prepared xid) :
    (d.showing v statement).view = v := by
  have hprepared : (d.showing v statement).view.prepared = v.prepared := by
    funext x
    cases statement with
    | data op => exact (hframe x nofun).symm
    | xa command xid =>
      refine (Dict.lookup_assign xid x (v.prepared xid) d.prepared).trans ?_
      split
      · next heq => rw [heq]
      · next hne => exact (hframe x fun _ heq ↦ hne (Statement.xa.inj heq).2.symm).symm
  exact congrArg (fun prepared ↦ ({ v with prepared } : View F)) hprepared

theorem Memory.apply_effect {session : Session} {d d' : Memory F} {statement : Statement F}
    (h : d.apply session statement = some d') :
    effect session d.view statement = some d'.view := by
  obtain ⟨-, h⟩ := Option.ite_none_right_eq_some.mp h
  obtain ⟨v, hv, rfl⟩ := Option.map_eq_some_iff.mp h
  rw [hv, Memory.view_showing fun xid hxid ↦ effect_frame hv hxid]

theorem Memory.exec_cases (session : Session) (d : Memory F) (statement : Statement F) :
    (∃ e, d.exec session statement = (.error e, { d with faults := d.faults.tail })) ∨
      ∃ d', d.exec session statement = (.ok (), d') ∧
        effect session d.view statement = some d'.view := by
  simp only [Memory.exec]
  split
  · exact .inl ⟨_, rfl⟩
  · split
    · exact .inl ⟨_, rfl⟩
    · next d' hd' => exact .inr ⟨d', rfl, Memory.apply_effect (d := { d with faults := d.faults.tail }) hd'⟩

theorem memory_lawful (primaryKey : List String) :
    Lawful (memory (F := F) primaryKey) Memory.view where
  discover := fun _ _ ↦ rfl
  connect_ok := fun _ _ ↦ rfl
  connect_error := fun _ _ h ↦ by cases h
  connect_committer := fun _ ↦ rfl
  recover := fun _ _ ↦ .inl rfl
  lists_prepared := by
    intro session d rows hrows xid hxid
    obtain rfl : _ = rows := Except.ok.inj hrows
    exact List.mem_map.mpr ⟨xid, AList.mem_keys.mpr (AList.lookup_isSome.mp hxid), rfl⟩
  exec_ok := by
    intro session d statement hok
    rcases d.exec_cases session statement with ⟨e, he⟩ | ⟨d', hd', heffect⟩
    · cases (congrArg Prod.fst he).symm.trans hok
    · rw [heffect]
      exact congrArg (fun r ↦ some r.2.view) hd'.symm
  exec_error := by
    intro session d statement e herr
    rcases d.exec_cases session statement with ⟨e', he⟩ | ⟨d', hd', -⟩
    · have hview : Memory.view (d.exec session statement).2 = d.view := by rw [he]; rfl
      change Failed _ _ _ (Memory.view (d.exec session statement).2)
      rw [hview]
      exact .refused
    · cases (congrArg Prod.fst hd').symm.trans herr
  killSessions := fun _ _ ↦ rfl
  disconnect := fun _ ↦ rfl

end Reference

end SeaTunnel.Jdbc.XaBranches
