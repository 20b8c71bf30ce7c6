import SeaTunnel.Formats.CanalTables

namespace SeaTunnel.Formats.CanalClient

open Lib
open CanalClientEncoder

variable {F V : Type} (c : Conversions F V)

section Spec

variable (state : TableState F V)

def TableState.value (row : CdcRow F) (column : String) : Option V := (state.get row column).map c.convertField

def TableState.InMust (column target : String) : Prop := ⟨column, target⟩ ∈ state.fields.must.entries

def TableState.InUpdate (column target : String) : Prop := ⟨column, target⟩ ∈ state.fields.update.entries

/-- The data has the row's value of every chosen column under the column's target, and
nothing else. Columns of one target share its place. -/
def Holds (row : CdcRow F) (chosen : String → String → Prop) (data : Dict String V) : Prop :=
  ∀ target, match data.lookup target with
    | some v => ∃ column, chosen column target ∧ state.value c row column = some v
    | none => ∀ column, chosen column target → state.value c row column = none

/-- Some configured column has another converted value after the update. -/
def Differs (before after : CdcRow F) : Prop :=
  (∃ column target v, state.InMust column target ∧ state.value c after column = some v ∧
      state.value c before column ≠ some v) ∨
    ∃ column target, state.InUpdate column target ∧ state.value c before column ≠ state.value c after column

/-- A piece of a table's stream: a row, the two images of an update with the expiry
checks between them, or a check or flush elsewhere. -/
inductive Item (F : Type)
  | insert (now : ℕ) (row : CdcRow F)
  | delete (now : ℕ) (row : CdcRow F)
  | pair (now : ℕ) (before : CdcRow F) (checks : List ℕ) (later : ℕ) (after : CdcRow F)
  | expire (now : ℕ)
  | flush

def Item.events : Item F → List (EncoderEvent F)
  | .insert now row | .delete now row => [.row now row]
  | .pair now before checks later after => .row now before :: checks.map .expire ++ [.row later after]
  | .expire now => [.expire now]
  | .flush => [.flush]

/-- The rows are of their kinds and the table's, and no pair outlives the window. -/
def Item.Proper (encoder : CanalClientEncoder F V) (table : String) : Item F → Prop
  | .insert _ row => row.kind = .insert ∧ encoder.stateFor row = .ok table
  | .delete _ row => row.kind = .delete ∧ encoder.stateFor row = .ok table
  | .pair now before checks _ after =>
    (before.kind = .updateBefore ∧ encoder.stateFor before = .ok table) ∧
      (after.kind = .updateAfter ∧ encoder.stateFor after = .ok table) ∧
      ∀ check ∈ checks, check - now < encoder.config.pairingWindowMs
  | .expire _ | .flush => True

/-- The message is one of the table, of the kind, and about the row: its key is the row's value of the key column. -/
structure Announces (eventType : EventType) (row : CdcRow F) (message : CanalMessage V) : Prop where
  table : message.table = state.dbName ++ "." ++ state.tableName
  dbName : message.dbName = c.toLowercase state.dbName
  tableName : message.tableName = c.toLowercase state.tableName
  eventType : message.eventType = eventType
  key : match state.get row state.fields.key with
    | some field => message.key = c.fieldToKey field
    | none => message.key = ""

/-- What the encoder is to emit for a piece of a stream. -/
def Emits : Item F → List (CanalMessage V) → Prop
  | .insert _ row, messages => ∃ message,
      messages = [message] ∧ Announces c state .insert row message ∧ message.oldData = none ∧
      Holds c state row (fun column target ↦ state.InMust column target ∨ state.InUpdate column target) message.data
  | .delete _ row, messages => ∃ message,
      messages = [message] ∧ Announces c state .delete row message ∧ message.oldData = none ∧
      Holds c state row state.InMust message.data
  | .pair _ before _ _ after, messages =>
    (messages = [] ↔ state.fields.update.entries ≠ [] ∧ ¬Differs c state before after) ∧
      (messages ≠ [] → ∃ message oldData,
        messages = [message] ∧ Announces c state .update after message ∧ message.oldData = some oldData ∧
        Holds c state before (fun column target ↦ state.InMust column target ∨ state.InUpdate column target) oldData ∧
        Holds c state after (fun column target ↦ state.InMust column target ∨
          state.InUpdate column target ∧ state.value c before column ≠ state.value c after column) message.data)
  | .expire _, messages | .flush, messages => messages = []

end Spec

section Maps

variable {c} {state : TableState F V} {row : CdcRow F}

theorem mapColumns_append (columns columns' : List (Sigma fun _ : String ↦ String)) (out : Dict String V) :
    state.mapColumns c row columns' (state.mapColumns c row columns out) =
      state.mapColumns c row (columns ++ columns') out := (List.foldl_append ..).symm

theorem lookup_mapColumns (c : Conversions F V) (state : TableState F V) (row : CdcRow F)
    (columns : List (Sigma fun _ : String ↦ String)) (out : Dict String V) (target : String) :
    match (state.mapColumns c row columns out).lookup target with
    | some v => (∃ column, ⟨column, target⟩ ∈ columns ∧ state.value c row column = some v) ∨
        out.lookup target = some v
    | none => (∀ column, ⟨column, target⟩ ∈ columns → state.value c row column = none) ∧ out.lookup target = none := by
  induction columns generalizing out with
  | nil =>
    change match out.lookup target with | some v => _ | none => _
    cases out.lookup target <;> simp
  | cons e columns ih =>
    obtain ⟨name, goal⟩ := e
    cases hget : state.get row name with
    | none =>
      have hmap : state.mapColumns c row (⟨name, goal⟩ :: columns) out = state.mapColumns c row columns out := by
        rw [TableState.mapColumns, List.foldl_cons, hget, TableState.mapColumns]
      have hrest := ih out
      rw [hmap]
      cases hlookup : (state.mapColumns c row columns out).lookup target with
      | some v =>
        rw [hlookup] at hrest
        exact hrest.imp_left fun ⟨column, hmem, hvalue⟩ ↦ ⟨column, List.mem_cons_of_mem _ hmem, hvalue⟩
      | none =>
        rw [hlookup] at hrest
        refine ⟨fun column hmem ↦ ?_, hrest.2⟩
        rcases List.mem_cons.mp hmem with heq | hmem
        · cases heq
          rw [TableState.value, hget, Option.map_none]
        · exact hrest.1 column hmem
    | some field =>
      have hmap : state.mapColumns c row (⟨name, goal⟩ :: columns) out =
          state.mapColumns c row columns (AList.insert goal (c.convertField field) out) := by
        rw [TableState.mapColumns, List.foldl_cons, hget, TableState.mapColumns]
      have hrest := ih (AList.insert goal (c.convertField field) out)
      have hvalue : state.value c row name = some (c.convertField field) := by
        rw [TableState.value, hget, Option.map_some]
      rw [hmap]
      by_cases heq : target = goal
      · -- the later columns have the place, or else this one
        rw [heq, AList.lookup_insert] at hrest
        rw [heq]
        cases hlookup : (state.mapColumns c row columns (AList.insert goal (c.convertField field) out)).lookup goal with
        | some v =>
          rw [hlookup] at hrest
          rcases hrest with ⟨column, hmem, hv⟩ | hv
          · exact .inl ⟨column, List.mem_cons_of_mem _ hmem, hv⟩
          · exact .inl ⟨name, List.mem_cons_self, hvalue.trans hv⟩
        | none =>
          rw [hlookup] at hrest
          cases hrest.2
      · rw [AList.lookup_insert_ne heq] at hrest
        cases hlookup : (state.mapColumns c row columns (AList.insert goal (c.convertField field) out)).lookup target with
        | some v =>
          rw [hlookup] at hrest
          exact hrest.imp_left fun ⟨column, hmem, hv⟩ ↦ ⟨column, List.mem_cons_of_mem _ hmem, hv⟩
        | none =>
          rw [hlookup] at hrest
          refine ⟨fun column hmem ↦ ?_, hrest.2⟩
          rcases List.mem_cons.mp hmem with he | hmem
          · cases he
            exact absurd rfl heq
          · exact hrest.1 column hmem

theorem holds_mapColumns {columns : List (Sigma fun _ : String ↦ String)} {chosen : String → String → Prop}
    (hchosen : ∀ column target, chosen column target ↔ ⟨column, target⟩ ∈ columns) :
    Holds c state row chosen (state.mapColumns c row columns ∅) := by
  intro target
  have hlookup := lookup_mapColumns c state row columns ∅ target
  cases hdata : (state.mapColumns c row columns ∅).lookup target with
  | some v =>
    rw [hdata] at hlookup
    rcases hlookup with ⟨column, hmem, hvalue⟩ | hempty
    · exact ⟨column, (hchosen column target).mpr hmem, hvalue⟩
    · cases hempty
  | none =>
    rw [hdata] at hlookup
    exact fun column hcolumn ↦ hlookup.1 column ((hchosen column target).mp hcolumn)

end Maps

section Messages

variable [DecidableEq V] {state : TableState F V}

omit [DecidableEq V] in
theorem announces_buildMessage (eventType : EventType) (row : CdcRow F) (data : Dict String V)
    (oldData : Option (Dict String V)) :
    Announces c state eventType row (state.buildMessage c eventType (state.rowKey c row) data oldData) := by
  refine ⟨rfl, rfl, rfl, rfl, ?_⟩
  cases hkey : state.get row state.fields.key with
  | some field => simp [TableState.buildMessage, TableState.rowKey, hkey]
  | none => simp [TableState.buildMessage, TableState.rowKey, hkey]

theorem changed_eq_true {old row : CdcRow F} {column : String} :
    state.changed c (some old) row column = true ↔ state.value c old column ≠ state.value c row column := by
  simp [TableState.changed, TableState.value]

theorem holds_insert (row : CdcRow F) : Holds c state row
    (fun column target ↦ state.InMust column target ∨ state.InUpdate column target) (state.mapImage c row none).1 := by
  rw [TableState.mapImage, mapColumns_append]
  refine holds_mapColumns fun column target ↦ ?_
  simp [TableState.InMust, TableState.InUpdate]

theorem holds_update (before after : CdcRow F) : Holds c state after
    (fun column target ↦ state.InMust column target ∨
      state.InUpdate column target ∧ state.value c before column ≠ state.value c after column)
    (state.mapImage c after (some before)).1 := by
  rw [TableState.mapImage, mapColumns_append]
  refine holds_mapColumns fun column target ↦ ?_
  simp [TableState.InMust, TableState.InUpdate, changed_eq_true]

omit [DecidableEq V] in
theorem holds_mapOld (before : CdcRow F) : Holds c state before
    (fun column target ↦ state.InMust column target ∨ state.InUpdate column target) (state.mapOld c before) := by
  refine holds_mapColumns fun column target ↦ ?_
  simp [TableState.InMust, TableState.InUpdate]

theorem isUpdate_iff (before after : CdcRow F) :
    (state.mapImage c after (some before)).2 = true ↔ Differs c state before after := by
  rw [TableState.mapImage, Bool.or_eq_true, List.any_eq_true, List.any_eq_true, Differs]
  refine or_congr ⟨?_, ?_⟩ ⟨?_, ?_⟩
  · rintro ⟨⟨column, target⟩, hmem, hchanged⟩
    rw [Bool.and_eq_true, changed_eq_true, Option.isSome_iff_exists] at hchanged
    obtain ⟨⟨field, hget⟩, hne⟩ := hchanged
    have hvalue : state.value c after column = some (c.convertField field) := by
      rw [TableState.value, hget, Option.map_some]
    exact ⟨column, target, _, hmem, hvalue, fun heq ↦ hne (heq.trans hvalue.symm)⟩
  · rintro ⟨column, target, v, hmem, hvalue, hne⟩
    refine ⟨⟨column, target⟩, hmem, ?_⟩
    rw [Bool.and_eq_true, changed_eq_true]
    refine ⟨?_, fun heq ↦ hne (heq.trans hvalue)⟩
    rw [TableState.value, Option.map_eq_some_iff] at hvalue
    obtain ⟨field, hget, -⟩ := hvalue
    exact Option.isSome_iff_exists.mpr ⟨field, hget⟩
  · rintro ⟨⟨column, target⟩, hmem, hchanged⟩
    exact ⟨column, target, hmem, (changed_eq_true c).mp hchanged⟩
  · rintro ⟨column, target, hmem, hne⟩
    exact ⟨⟨column, target⟩, hmem, (changed_eq_true c).mpr hne⟩

theorem emits_pair {now since later : ℕ} {before after : CdcRow F} {checks : List ℕ} {key : String}
    {data : Dict String V} (hafter : after.kind = .updateAfter) :
    Emits c state (.pair now before checks later after)
      ((state.holding (some { key, sourceRow := before, data, since })).encode c later after).1 := by
  have hencode : ((state.holding (some { key, sourceRow := before, data, since })).encode c later after).1 =
      if state.fields.update.entries.isEmpty = false ∧ (state.mapImage c after (some before)).2 = false then []
      else [state.buildMessage c .update (state.rowKey c after) (state.mapImage c after (some before)).1
        (some (state.mapOld c before))] := by
    rw [TableState.encode, hafter]
    rfl
  have hfilter : (state.fields.update.entries.isEmpty = false ∧ (state.mapImage c after (some before)).2 = false) ↔
      state.fields.update.entries ≠ [] ∧ ¬Differs c state before after := by
    rw [← isUpdate_iff, Bool.not_eq_true, List.isEmpty_eq_false_iff]
  rw [hencode]
  split_ifs with hfiltered
  · exact ⟨iff_of_true rfl (hfilter.mp hfiltered), fun h ↦ absurd rfl h⟩
  · refine ⟨iff_of_false (List.cons_ne_nil _ _) fun h ↦ hfiltered (hfilter.mpr h), fun _ ↦
      ⟨_, _, rfl, announces_buildMessage c .update after _ _, rfl, ?_, ?_⟩⟩
    · exact holds_mapOld c before
    · exact holds_update c before after

end Messages

section Runs

variable [DecidableEq V] {encoder : CanalClientEncoder F V} {table : String} {state : TableState F V}

def emitRest (encoder : CanalClientEncoder F V) (es : List (EncoderEvent F)) : CanalClientEncoder F V :=
  es.foldl (fun encoder e ↦ (emit c encoder e).2) encoder

theorem emitAll_append (es es' : List (EncoderEvent F)) :
    emitAll c encoder (es ++ es') = emitAll c encoder es ++ emitAll c (emitRest c encoder es) es' := by
  induction es generalizing encoder with
  | nil => rfl
  | cons e es ih => rw [List.cons_append, emitAll, emitAll, ih, List.append_assoc, emitRest, emitRest, List.foldl_cons]

theorem emit_check {now : ℕ} (hdue : ∀ table pending, heldImage table encoder = some pending →
      now - pending.since < encoder.config.pairingWindowMs) :
    (emit c encoder (.expire now)).1 = [] ∧ (emit c encoder (.expire now)).2.skeleton = encoder.skeleton ∧
      ∀ table, heldImage table (emit c encoder (.expire now)).2 = heldImage table encoder := by
  refine ⟨?_, skeleton_expirePending c, fun table ↦ (heldImage_expirePending c table).trans ?_⟩
  · refine List.flatMap_eq_nil_iff.mpr fun state hstate ↦ ?_
    obtain ⟨table, hlookup⟩ := Dict.mem_values.mp hstate
    have hexpired : state.hasExpired now encoder.config.pairingWindowMs = false := by
      cases hpending : state.pending with
      | none => rw [TableState.hasExpired, hpending, Option.any_none]
      | some pending =>
        have hlt := hdue table pending (by rw [heldImage, hlookup, Option.bind_some, hpending])
        rw [TableState.hasExpired, hpending, Option.any_some, decide_eq_false_iff_not]
        omega
    rw [TableState.expirePending, hexpired, if_neg Bool.false_ne_true]
  · cases hheld : heldImage table encoder with
    | none => rfl
    | some pending => rw [Option.filter_some, if_pos (by simpa using hdue table pending hheld)]

theorem emitAll_checks {checks : List ℕ} (hdue : ∀ check ∈ checks, ∀ table pending,
      heldImage table encoder = some pending → check - pending.since < encoder.config.pairingWindowMs) :
    emitAll c encoder (checks.map .expire) = [] ∧ (emitRest c encoder (checks.map .expire)).skeleton = encoder.skeleton ∧
      ∀ table, heldImage table (emitRest c encoder (checks.map .expire)) = heldImage table encoder := by
  induction checks generalizing encoder with
  | nil => exact ⟨rfl, rfl, fun _ ↦ rfl⟩
  | cons check checks ih =>
    obtain ⟨hnone, hskeleton, hheld⟩ := emit_check c (hdue check List.mem_cons_self)
    have hconfig : (emit c encoder (.expire check)).2.config = encoder.config := congrArg (·.config) hskeleton
    obtain ⟨hnone', hskeleton', hheld'⟩ := @ih (emit c encoder (.expire check)).2 fun check' hmem table pending hpending ↦ by
      rw [hconfig]
      exact hdue check' (List.mem_cons_of_mem _ hmem) table pending ((hheld table).symm.trans hpending)
    rw [List.map_cons, emitAll, hnone, hnone', emitRest, List.foldl_cons]
    exact ⟨rfl, hskeleton'.trans hskeleton, fun table ↦ (hheld' table).trans (hheld table)⟩

structure Idle (table : String) (state : TableState F V) (encoder : CanalClientEncoder F V) : Prop where
  held : ∀ table, heldImage table encoder = none
  lookup : encoder.tables.lookup table = some state

omit [DecidableEq V] in
theorem Item.Proper.of_skeleton {item : Item F} (h : item.Proper encoder table) {encoder' : CanalClientEncoder F V}
    (hskeleton : encoder'.skeleton = encoder.skeleton) : item.Proper encoder' table := by
  have hconfig : encoder'.config = encoder.config := congrArg (·.config) hskeleton
  cases item with
  | insert now row | delete now row => exact ⟨h.1, (stateFor_of_skeleton hskeleton row).trans h.2⟩
  | pair now before checks later after =>
    refine ⟨⟨h.1.1, (stateFor_of_skeleton hskeleton before).trans h.1.2⟩,
      ⟨h.2.1.1, (stateFor_of_skeleton hskeleton after).trans h.2.1.2⟩, ?_⟩
    rw [hconfig]
    exact h.2.2
  | expire now | flush => trivial

omit [DecidableEq V] in
theorem Idle.pending (h : Idle table state encoder) : state.pending = none := by
  have hheld := h.held table
  rwa [heldImage, h.lookup, Option.bind_some] at hheld

omit [DecidableEq V] in
theorem Idle.of_skeleton (h : Idle table state encoder) {encoder' : CanalClientEncoder F V}
    (hskeleton : encoder'.skeleton = encoder.skeleton) (hheld : ∀ table, heldImage table encoder' = none) :
    Idle table state encoder' where
  held := hheld
  lookup := by
    rw [lookup_of_skeleton hskeleton.symm h.lookup, hheld, ← h.pending]
    rfl

theorem Idle.emitsPair (h : Idle table state encoder) {now later : ℕ} {before after : CdcRow F} {checks : List ℕ}
    (hproper : (Item.pair now before checks later after).Proper encoder table) :
    let es := (Item.pair now before checks later after).events
    Emits c state (.pair now before checks later after) (emitAll c encoder es) ∧
      (emitRest c encoder es).skeleton = encoder.skeleton ∧ Idle table state (emitRest c encoder es) := by
  obtain ⟨⟨hbefore, hserved⟩, ⟨hafter, hserved'⟩, hchecks⟩ := hproper
  let pending : PendingDelete F V :=
    { key := state.rowKey c before, sourceRow := before, data := state.mustData c before, since := now }
  -- the before-image is held
  obtain ⟨hmessages, hskeleton, hheld⟩ := emit_row_ok c now hserved h.lookup
  set holding := (emit c encoder (.row now before)).2
  have hnext : nextHeld c now before state = some pending := by rw [nextHeld, hbefore]; rfl
  have hnone : (state.encode c now before).1 = [] := by
    rw [TableState.encode, hbefore, h.pending]
    rfl
  have hconfig : holding.config = encoder.config := congrArg (·.config) hskeleton
  -- the checks find it not due
  obtain ⟨hchecked, hskeleton', hheld'⟩ := @emitAll_checks F V c _ holding checks
    fun check hcheck table' image himage ↦ by
      rw [hheld, hnext] at himage
      split_ifs at himage
      · rw [hconfig, ← Option.some.inj himage]
        exact hchecks check hcheck
      · rw [h.held] at himage
        cases himage
  set checked := emitRest c holding (checks.map .expire)
  -- its partner finds it
  have hchecked' : checked.skeleton = encoder.skeleton := hskeleton'.trans hskeleton
  have himage : heldImage table checked = some pending := by rw [hheld', hheld, if_pos rfl, hnext]
  have hlookup : checked.tables.lookup table = some (state.holding (some pending)) := by
    rw [lookup_of_skeleton hchecked'.symm h.lookup, himage]
  obtain ⟨hmessages', hskeleton'', hheld''⟩ :=
    emit_row_ok c later ((stateFor_of_skeleton hchecked' after).trans hserved') hlookup
  have hevents : emitAll c encoder (Item.pair now before checks later after).events =
      ((state.holding (some pending)).encode c later after).1 := by
    rw [Item.events, List.cons_append, emitAll, hmessages, hnone, List.nil_append, emitAll_append, hchecked,
      List.nil_append, emitAll, hmessages', emitAll, List.append_nil]
  have hrest : emitRest c encoder (Item.pair now before checks later after).events =
      (emit c checked (.row later after)).2 := by
    rw [Item.events, List.cons_append, emitRest, List.foldl_cons, List.foldl_append, List.foldl_cons, List.foldl_nil]
    rfl
  dsimp only
  rw [hevents, hrest]
  refine ⟨?_, hskeleton''.trans hchecked', h.of_skeleton (hskeleton''.trans hchecked') fun table' ↦ ?_⟩
  · exact emits_pair c hafter
  · have hlast : nextHeld c later after (state.holding (some pending)) = none := by rw [nextHeld, hafter]
    rw [hheld'', hlast, hheld', hheld]
    split_ifs
    · rfl
    · exact h.held table'

theorem Idle.emits (h : Idle table state encoder) {item : Item F} (hproper : item.Proper encoder table) :
    Emits c state item (emitAll c encoder item.events) ∧
      (emitRest c encoder item.events).skeleton = encoder.skeleton ∧ Idle table state (emitRest c encoder item.events) := by
  have hpending := h.pending
  cases item with
  | insert now row =>
    obtain ⟨hkind, hserved⟩ := hproper
    obtain ⟨hmessages, hskeleton, hheld⟩ := emit_row_ok c now hserved h.lookup
    have hnext : nextHeld c now row state = none := by rw [nextHeld, hkind, hpending]
    refine ⟨⟨_, ?_, announces_buildMessage c .insert row (state.mapImage c row none).1 none, rfl, holds_insert c row⟩,
      hskeleton, h.of_skeleton hskeleton fun table' ↦ ?_⟩
    · rw [Item.events, emitAll, hmessages, emitAll, List.append_nil, TableState.encode, hkind]
    · exact (hheld table').trans (by rw [hnext, h.held, ite_self])
  | delete now row =>
    obtain ⟨hkind, hserved⟩ := hproper
    obtain ⟨hmessages, hskeleton, hheld⟩ := emit_row_ok c now hserved h.lookup
    have hnext : nextHeld c now row state = none := by rw [nextHeld, hkind, hpending]
    refine ⟨⟨_, ?_, announces_buildMessage c .delete row (state.mustData c row) none, rfl,
      holds_mapColumns fun _ _ ↦ Iff.rfl⟩, hskeleton, h.of_skeleton hskeleton fun table' ↦ ?_⟩
    · rw [Item.events, emitAll, hmessages, emitAll, List.append_nil, TableState.encode, hkind]
    · exact (hheld table').trans (by rw [hnext, h.held, ite_self])
  | pair now before checks later after => exact h.emitsPair c hproper
  | expire now =>
    obtain ⟨hnone, hskeleton, hheld⟩ := @emit_check F V c _ encoder now fun table' pending hpending ↦ by
      rw [h.held] at hpending
      cases hpending
    refine ⟨?_, hskeleton, h.of_skeleton hskeleton fun table' ↦ (hheld table').trans (h.held table')⟩
    rw [Item.events, emitAll, hnone]
    rfl
  | flush =>
    refine ⟨?_, skeleton_flush c, h.of_skeleton (skeleton_flush c) (heldImage_flush c)⟩
    change (encoder.tables.values.flatMap fun state ↦ (state.flush c).1) ++ [] = []
    rw [List.append_nil, List.flatMap_eq_nil_iff]
    intro other hother
    obtain ⟨table', hlookup⟩ := Dict.mem_values.mp hother
    have hnone := h.held table'
    rw [heldImage, hlookup, Option.bind_some] at hnone
    rw [TableState.flush, hnone]
    rfl

end Runs

section Example

end Example

end SeaTunnel.Formats.CanalClient
