import SeaTunnel.Formats.CanalClient

namespace SeaTunnel.Formats.CanalClient

open Lib
open Jdbc.XaSink (RowKind)

variable {F V : Type} (c : Conversions F V)

def TableState.holding (state : TableState F V) (pending : Option (PendingDelete F V)) : TableState F V :=
  { state with pending }

namespace CanalClientEncoder

def skeleton (encoder : CanalClientEncoder F V) : CanalClientEncoder F V :=
  { encoder with tables := encoder.tables.mapVals fun _ state ↦ state.holding none }

def heldImage (table : String) (encoder : CanalClientEncoder F V) : Option (PendingDelete F V) :=
  (encoder.tables.lookup table).bind TableState.pending

def Serves (encoder : CanalClientEncoder F V) (row : CdcRow F) : Prop :=
  ∃ table state, encoder.stateFor row = .ok table ∧ encoder.tables.lookup table = some state

end CanalClientEncoder

def isImage (kind : RowKind) : Bool := kind = .updateBefore || kind = .updateAfter

open CanalClientEncoder

def firstImage (encoder : CanalClientEncoder F V) (table : String) (rows : List (CdcRow F)) : Option RowKind :=
  (rows.find? fun row ↦ (encoder.stateFor row).toOption = some table && isImage row.kind).map fun row ↦ row.kind

structure Aligned (rows : List (CdcRow F)) (left encoder : CanalClientEncoder F V) : Prop where
  skeleton : left.skeleton = encoder.skeleton
  images : ∀ table, heldImage table left = heldImage table encoder ∨
    heldImage table left = none ∧ firstImage encoder table rows = some .updateBefore

section Skeleton

variable {encoder left : CanalClientEncoder F V} {row : CdcRow F}

theorem lookup_skeleton (table : String) :
    encoder.skeleton.tables.lookup table = (encoder.tables.lookup table).map (·.holding none) :=
  Dict.lookup_mapVals _ _ table

theorem lookup_of_skeleton (hskeleton : left.skeleton = encoder.skeleton) {table : String} {state : TableState F V}
    (hlookup : left.tables.lookup table = some state) :
    encoder.tables.lookup table = some (state.holding (heldImage table encoder)) := by
  have heq : (encoder.tables.lookup table).map (·.holding none) = some (state.holding none) := by
    rw [← lookup_skeleton, ← hskeleton, lookup_skeleton, hlookup, Option.map_some]
  obtain ⟨other, hother, hholding⟩ := Option.map_eq_some_iff.mp heq
  rw [heldImage, hother, Option.bind_some]
  cases other
  cases state
  cases hholding
  rfl

theorem stateFor_of_skeleton (hskeleton : left.skeleton = encoder.skeleton) (row : CdcRow F) :
    left.stateFor row = encoder.stateFor row := by
  have hdefault : left.defaultTable = encoder.defaultTable := congrArg (·.defaultTable) hskeleton
  have hexplicit : left.isExplicit = encoder.isExplicit := congrArg (·.isExplicit) hskeleton
  have hsome (table : String) : (left.tables.lookup table).isSome = (encoder.tables.lookup table).isSome := by
    have hlookup := congrArg (fun e ↦ (e.tables.lookup table).isSome) hskeleton
    simpa only [lookup_skeleton, Option.isSome_map] using hlookup
  unfold stateFor
  rw [hdefault, hexplicit]
  simp only [hsome]

theorem firstImage_of_skeleton (hskeleton : left.skeleton = encoder.skeleton) (table : String)
    (rows : List (CdcRow F)) : firstImage left table rows = firstImage encoder table rows := by
  simp only [firstImage, stateFor_of_skeleton hskeleton]

theorem CanalClientEncoder.Serves.of_skeleton (hskeleton : left.skeleton = encoder.skeleton) (hrow : Serves left row) :
    Serves encoder row := by
  obtain ⟨table, state, hstate, hlookup⟩ := hrow
  exact ⟨table, _, (stateFor_of_skeleton hskeleton row).symm.trans hstate, lookup_of_skeleton hskeleton hlookup⟩

theorem CanalClientEncoder.Serves.registered (hrow : Serves encoder row) : encoder.registeredTables ≠ 0 := by
  obtain ⟨table, state, -, hlookup⟩ := hrow
  intro hnone
  rw [registeredTables, List.length_eq_zero_iff] at hnone
  have hmem : (⟨table, state⟩ : Sigma fun _ ↦ TableState F V) ∈ encoder.tables.entries := AList.mem_lookup_iff.mp hlookup
  rw [hnone] at hmem
  cases hmem

theorem skeleton_modify {table : String} {state : TableState F V} {pending : Option (PendingDelete F V)}
    (hlookup : encoder.tables.lookup table = some state) :
    ({ encoder with tables := encoder.tables.modify table fun _ ↦ state.holding pending } : CanalClientEncoder F V).skeleton =
      encoder.skeleton := by
  have htables : (encoder.tables.modify table fun _ ↦ state.holding pending).mapVals (fun _ state ↦ state.holding none) =
      encoder.tables.mapVals fun _ state ↦ state.holding none := by
    rw [Dict.modify, Dict.mapVals_mapVals]
    refine Dict.mapVals_congr fun key other hkey ↦ ?_
    split
    · next heq =>
      subst heq
      cases hlookup.symm.trans hkey
      rfl
    · rfl
  simp only [skeleton, htables]

theorem heldImage_modify {table table' : String} {state : TableState F V} {pending : Option (PendingDelete F V)}
    (hlookup : encoder.tables.lookup table = some state) :
    heldImage table' ({ encoder with tables := encoder.tables.modify table fun _ ↦ state.holding pending } :
      CanalClientEncoder F V) = if table' = table then pending else heldImage table' encoder := by
  unfold heldImage
  dsimp only
  rw [Dict.lookup_modify]
  split
  · next heq =>
    subst heq
    rw [hlookup]
    rfl
  · rfl

end Skeleton

section Encode

variable [DecidableEq V] {state : TableState F V} {row : CdcRow F} {now : ℕ}

def nextHeld (now : ℕ) (row : CdcRow F) (state : TableState F V) : Option (PendingDelete F V) :=
  match row.kind with
  | .updateBefore => (state.stashUpdateBefore c now row).pending
  | .updateAfter => none
  | .delete | .insert => state.pending

/-- What is held for a table behind an image of it. -/
def imageHeld (encoder : CanalClientEncoder F V) (table : String) (now : ℕ) (row : CdcRow F) : Option (PendingDelete F V) :=
  (encoder.tables.lookup table).bind (nextHeld c now row)

theorem encode_holding (now : ℕ) (row : CdcRow F) (state : TableState F V) :
    (state.encode c now row).2 = state.holding (nextHeld c now row state) := by
  unfold TableState.encode nextHeld
  cases row.kind with
  | updateAfter => cases hpending : state.pending <;> simp [TableState.holding, ← hpending]
  | _ => rfl

omit [DecidableEq V] in
theorem nextHeld_image (hkind : isImage row.kind = true) (pending : Option (PendingDelete F V)) :
    nextHeld c now row (state.holding pending) = nextHeld c now row state := by
  unfold nextHeld
  cases hrow : row.kind with
  | updateBefore => rfl
  | updateAfter => rfl
  | insert => rw [hrow] at hkind; cases hkind
  | delete => rw [hrow] at hkind; cases hkind

omit [DecidableEq V] in
theorem nextHeld_other (hkind : isImage row.kind = false) :
    nextHeld c now row state = state.pending := by
  unfold nextHeld
  cases hrow : row.kind with
  | insert => rfl
  | delete => rfl
  | updateBefore => rw [hrow] at hkind; cases hkind
  | updateAfter => rw [hrow] at hkind; cases hkind

theorem encode_other (hkind : isImage row.kind = false) (pending pending' : Option (PendingDelete F V)) :
    ((state.holding pending).encode c now row).1 = ((state.holding pending').encode c now row).1 := by
  unfold TableState.encode
  cases hrow : row.kind with
  | insert => rfl
  | delete => rfl
  | updateBefore => rw [hrow] at hkind; cases hkind
  | updateAfter => rw [hrow] at hkind; cases hkind

theorem encode_updateBefore (hkind : row.kind = .updateBefore) :
    ((state.holding none).encode c now row).1 = [] := by
  unfold TableState.encode
  rw [hkind]
  rfl

omit [DecidableEq V] in
theorem imageHeld_updateAfter {encoder : CanalClientEncoder F V} {table : String}
    (hkind : row.kind = .updateAfter) : imageHeld c encoder table now row = none := by
  rw [imageHeld, Option.bind_eq_none_iff]
  intro state _
  rw [nextHeld, hkind]

omit [DecidableEq V] in
theorem since_imageHeld {encoder : CanalClientEncoder F V} {table : String}
    (himage : isImage row.kind = true) {held : PendingDelete F V} (hheld : held ∈ imageHeld c encoder table now row) :
    held.since = now := by
  obtain ⟨state, -, hheld⟩ := Option.bind_eq_some_iff.mp hheld
  unfold nextHeld at hheld
  cases hkind : row.kind with
  | updateBefore =>
    rw [hkind] at hheld
    obtain rfl := Option.some.inj hheld
    rfl
  | updateAfter => rw [hkind] at hheld; cases hheld
  | insert => rw [hkind] at himage; cases himage
  | delete => rw [hkind] at himage; cases himage

end Encode

section Rows

variable [DecidableEq V] {encoder left : CanalClientEncoder F V} {row : CdcRow F} {now : ℕ}

theorem encode_spec (now : ℕ) {table : String} {state : TableState F V}
    (htable : encoder.stateFor row = .ok table) (hlookup : encoder.tables.lookup table = some state) :
    ∃ encoder', encoder.encode c now row = .ok ((state.encode c now row).1, encoder') ∧
      encoder'.skeleton = encoder.skeleton ∧ ∀ table', heldImage table' encoder' =
        if table' = table then nextHeld c now row state else heldImage table' encoder := by
  refine ⟨{ encoder with tables := encoder.tables.modify table fun _ ↦ (state.encode c now row).2 }, ?_, ?_⟩
  · rw [CanalClientEncoder.encode, htable]
    dsimp only
    rw [hlookup]
  · rw [encode_holding]
    exact ⟨skeleton_modify hlookup, fun table' ↦ heldImage_modify hlookup⟩

theorem serves_of_encode {out : List (CanalMessage V) × CanalClientEncoder F V}
    (hok : encoder.encode c now row = .ok out) : Serves encoder row := by
  unfold CanalClientEncoder.encode at hok
  split at hok
  · cases hok
  · next table htable =>
    split at hok
    · cases hok
    · next state hlookup => exact ⟨table, state, htable, hlookup⟩

omit [DecidableEq V] in
theorem firstImage_cons (table : String) (row : CdcRow F) (rows : List (CdcRow F)) :
    firstImage encoder table (row :: rows) =
      if (encoder.stateFor row).toOption = some table ∧ isImage row.kind = true then some row.kind
      else firstImage encoder table rows := by
  rw [firstImage, List.find?_cons]
  by_cases hrow : (encoder.stateFor row).toOption = some table ∧ isImage row.kind = true
  · simp [hrow.1, hrow.2]
  · rw [if_neg hrow, firstImage]
    have hfalse : (decide ((encoder.stateFor row).toOption = some table) && isImage row.kind) = false := by
      rw [Bool.eq_false_iff]
      simpa using hrow
    rw [hfalse]

theorem Aligned.encode {rows : List (CdcRow F)} (h : Aligned (row :: rows) left encoder)
    {messages : List (CanalMessage V)} {left' : CanalClientEncoder F V}
    (hok : left.encode c now row = .ok (messages, left')) :
    ∃ messages' encoder', encoder.encode c now row = .ok (messages', encoder') ∧ messages ⊆ messages' ∧
      Aligned rows left' encoder' := by
  obtain ⟨table, state, htable, hlookup⟩ := serves_of_encode c hok
  obtain ⟨_, hleft, hskeleton, hheld⟩ := encode_spec c now htable hlookup
  cases hok.symm.trans hleft
  have htable' := (stateFor_of_skeleton h.skeleton row).symm.trans htable
  have hlookup' := lookup_of_skeleton h.skeleton hlookup
  obtain ⟨encoder', hencoder, hskeleton', hheld'⟩ := encode_spec c now htable' hlookup'
  have hpending : heldImage table left = state.pending := by rw [heldImage, hlookup, Option.bind_some]
  have hrest (table' : String) (hother : table' ≠ table ∨ isImage row.kind = false) :
      firstImage encoder' table' rows = firstImage encoder table' (row :: rows) := by
    rw [firstImage_of_skeleton hskeleton', firstImage_cons, if_neg]
    rintro ⟨heq, hkind⟩
    rw [htable'] at heq
    rcases hother with hne | hother
    · exact hne (Option.some.inj heq).symm
    · rw [hkind] at hother
      cases hother
  refine ⟨_, encoder', hencoder, ?_, hskeleton.trans (h.skeleton.trans hskeleton'.symm), fun table' ↦ ?_⟩
  · rcases h.images table with heq | ⟨hnone, hfirst⟩
    · rw [← heq, hpending]
      exact List.Subset.refl _
    · have hstate : state = state.holding none := by rw [← hnone, hpending, TableState.holding]
      rw [firstImage_cons, htable'] at hfirst
      cases hkind : isImage row.kind with
      | true =>
        rw [if_pos ⟨rfl, hkind⟩] at hfirst
        rw [hstate, encode_updateBefore c (Option.some.inj hfirst)]
        exact List.nil_subset _
      | false =>
        have hother : ((state.holding none).encode c now row).1 =
            ((state.holding (heldImage table encoder)).encode c now row).1 :=
          encode_other c hkind none (heldImage table encoder)
        rw [← hstate] at hother
        rw [hother]
        exact List.Subset.refl _
  · rw [hheld, hheld']
    by_cases heq : table' = table
    · subst heq
      rw [if_pos rfl, if_pos rfl]
      cases hkind : isImage row.kind with
      | true => exact .inl (nextHeld_image c hkind _).symm
      | false =>
        rw [nextHeld_other c hkind, nextHeld_other c hkind, hrest table' (.inr hkind), ← hpending]
        exact h.images table'
    · rw [if_neg heq, if_neg heq, hrest table' (.inl heq)]
      exact h.images table'

end Rows

section Expiry

variable {encoder left : CanalClientEncoder F V} {now : ℕ}

theorem skeleton_expirePending : (encoder.expirePending c now).2.skeleton = encoder.skeleton := by
  have htables : ((encoder.tables.mapVals fun _ state ↦ (state.expirePending c now encoder.config.pairingWindowMs).2).mapVals
      fun _ state ↦ state.holding none) = encoder.tables.mapVals fun _ state ↦ state.holding none := by
    rw [Dict.mapVals_mapVals]
    refine Dict.mapVals_congr fun _ state _ ↦ ?_
    unfold TableState.expirePending
    split
    · rfl
    · rfl
  simp only [expirePending, skeleton, htables]

theorem heldImage_expirePending (table : String) :
    heldImage table (encoder.expirePending c now).2 = (heldImage table encoder).filter fun pending ↦
      now - pending.since < encoder.config.pairingWindowMs := by
  unfold heldImage expirePending
  dsimp only
  rw [Dict.lookup_mapVals]
  cases encoder.tables.lookup table with
  | none => rfl
  | some state =>
    rw [Option.map_some, Option.bind_some, Option.bind_some, TableState.expirePending, TableState.hasExpired]
    cases hpending : state.pending with
    | none => simp [hpending]
    | some pending =>
      by_cases hdue : encoder.config.pairingWindowMs ≤ now - pending.since
      · simp [hdue, TableState.flush, Option.filter]
      · simp [hdue, hpending, Option.filter]

theorem Aligned.expirePending (h : Aligned [] left encoder) :
    (left.expirePending c now).1 ⊆ (encoder.expirePending c now).1 ∧
      Aligned [] (left.expirePending c now).2 (encoder.expirePending c now).2 := by
  have hwindow : left.config = encoder.config := congrArg (·.config) h.skeleton
  have hheld (table : String) : heldImage table left = heldImage table encoder :=
    (h.images table).resolve_right fun hfirst ↦ by cases hfirst.2
  refine ⟨fun message hmessage ↦ ?_, ?_, fun table ↦ .inl ?_⟩
  · obtain ⟨state, hstate, hm⟩ := List.mem_flatMap.mp hmessage
    obtain ⟨table, hlookup⟩ := Dict.mem_values.mp hstate
    have hlookup' := lookup_of_skeleton h.skeleton hlookup
    rw [← hheld, heldImage, hlookup, Option.bind_some] at hlookup'
    rw [hwindow] at hm
    exact List.mem_flatMap.mpr ⟨state, Dict.mem_values.mpr ⟨table, hlookup'⟩, hm⟩
  · rw [skeleton_expirePending, skeleton_expirePending, h.skeleton]
  · rw [heldImage_expirePending, heldImage_expirePending, hheld, hwindow]

end Expiry

section Order

variable {rows : List (CdcRow F)} {left middle encoder : CanalClientEncoder F V}

theorem Aligned.refl (rows : List (CdcRow F)) (encoder : CanalClientEncoder F V) : Aligned rows encoder encoder :=
  ⟨rfl, fun _ ↦ .inl rfl⟩

theorem Aligned.trans (h : Aligned rows left middle) (h' : Aligned rows middle encoder) : Aligned rows left encoder := by
  refine ⟨h.skeleton.trans h'.skeleton, fun table ↦ ?_⟩
  rcases h.images table with heq | ⟨hnone, hfirst⟩
  · rw [heq]
    exact h'.images table
  · rw [firstImage_of_skeleton h'.skeleton] at hfirst
    exact .inr ⟨hnone, hfirst⟩

theorem Aligned.append (h : Aligned rows left encoder) (rows' : List (CdcRow F)) :
    Aligned (rows ++ rows') left encoder := by
  refine ⟨h.skeleton, fun table ↦ (h.images table).imp id fun ⟨hnone, hfirst⟩ ↦ ⟨hnone, ?_⟩⟩
  obtain ⟨row, hrow, hkind⟩ := Option.map_eq_some_iff.mp hfirst
  rw [firstImage, List.find?_append, hrow, Option.some_or, Option.map_some, hkind]

end Order

end SeaTunnel.Formats.CanalClient
