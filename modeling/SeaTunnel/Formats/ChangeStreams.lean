import SeaTunnel.Formats.CdcRoundTrip
import SeaTunnel.Lib.ChangeStream

namespace SeaTunnel.Formats.ChangeStreams

open JsonValue CdcRoundTrip Lib.ChangeStream
open Jdbc.XaSink (RowKind Row)

variable {K T : Type} [DecidableEq K]

section Streams

def rowsOfChange : Change (List Field) → List (Row Field)
  | .insert row => [⟨.insert, row⟩]
  | .update before after => [⟨.updateBefore, before⟩, ⟨.updateAfter, after⟩]
  | .delete row => [⟨.delete, row⟩]

def applyRow (key : List Field → K) (t : Table K (List Field)) (row : Row Field) : Table K (List Field) :=
  match row.kind with
  | .insert | .updateAfter => put key t row.fields
  | .updateBefore | .delete => remove key t row.fields

variable (texts : Texts T) (format : MessageFormat) (schema : TableSchema)

/-- One message for each row, `clock n` the time of the `n`th. -/
def serializeAll (clock : ℕ → Int64) : ℕ → List (Row Field) → List T
  | _, [] => []
  | n, row :: rows => serialize texts format (clock n) schema row :: serializeAll clock (n + 1) rows

def decodeMessages : List T → Except String (List (Row Field))
  | [] => .ok []
  | message :: messages => do
    let rows ← deserializeAll texts format message schema
    let rest ← decodeMessages messages
    .ok (rows ++ rest)

/-- The stream that is decoded makes of every keyed table what the stream made of it. -/
def KeepsMeaning (clock : ℕ → Int64) (key : List Field → K) (stream : List (Change (List Field))) : Prop :=
  ∃ rows, decodeMessages texts format schema
      (serializeAll texts format schema clock 0 (stream.flatMap rowsOfChange)) = .ok rows ∧
    ∀ t, Keyed key t → rows.foldl (applyRow key) t = stream.foldl (Change.apply key) t

/-- No update moves a row to another key for good. Without a before-image the row
that has only nulls is deleted at each update, without an image of the deleted row at
each delete: the deletes of the other rows, and the moves, are lost. A row whose columns
are found by their names, case ignored, is another row where two names differ in case only. -/
def Survives (key : List Field → K) (stream : List (Change (List Field))) : Prop :=
  let null := key (nullFields schema)
  match format with
  | .debeziumJson => ∀ k, movedAway key k stream = false
  | .canalJson | .maxwellJson =>
    (∀ k, k ≠ null → movedAway key k stream = false) ∧
      (since key Change.isUpdate null stream = true → removedAt key null stream = true)
  | .oggJson =>
    let puts := stream.flatMap Change.puts
    let found := lastPut key null ((putsSinceDelete stream).map (caseless schema))
    (∀ k, k ≠ null →
      removedAt key k stream = false ∧ lastPut key k (puts.map (caseless schema)) = lastPut key k puts) ∧
    if removedAt key null stream then stream.any Change.isDelete ∧ found = none
    else found = lastPut key null puts ∧ (lastPut key null puts = none → stream.any Change.isDelete = false)

end Streams

section Rows

variable {texts : Texts T} {format : MessageFormat} {schema : TableSchema}

/-- The rows of the stream are rows over the schema. -/
def PlainStream (schema : TableSchema) (stream : List (Change (List Field))) : Prop :=
  ∀ row ∈ stream.flatMap rowsOfChange, PlainRow schema row

theorem decodeMessages_serializeAll (hdistinct : schema.Distinct) (clock : ℕ → Int64) (n : ℕ)
    {rows : List (Row Field)} (hrows : ∀ row ∈ rows, PlainRow schema row) :
    decodeMessages texts format schema (serializeAll texts format schema clock n rows) =
      .ok (rows.flatMap (decodedRows format schema)) := by
  induction rows generalizing n with
  | nil => rfl
  | cons row rows ih =>
    have hrow := deserializeAll_serialize texts format (clock n) hdistinct (hrows row (by simp))
    have hrest := ih (n + 1) fun row' hrow' ↦ hrows row' (by simp [hrow'])
    rw [serializeAll, decodeMessages, hrow, List.flatMap_cons]
    change (decodeMessages texts format schema (serializeAll texts format schema clock (n + 1) rows) >>= _) = _
    rw [hrest]
    rfl

variable {key : List Field → K}

def rowAt (key : List Field → K) (k : K) (v : Option (List Field)) (row : Row Field) : Option (List Field) :=
  if key row.fields = k then
    match row.kind with
    | .insert | .updateAfter => some row.fields
    | .updateBefore | .delete => none
  else v

theorem foldl_applyRow_at (rows : List (Row Field)) (t : Table K (List Field)) (k : K) :
    rows.foldl (applyRow key) t k = rows.foldl (rowAt key k) (t k) := by
  induction rows generalizing t with
  | nil => rfl
  | cons row rows ih =>
    rw [List.foldl_cons, List.foldl_cons, ih]
    congr 1
    obtain ⟨kind, fields⟩ := row
    cases kind <;> simp only [applyRow, rowAt, put, remove, Function.update_apply, eq_comm (a := k)]

def Change.decodedAt (format : MessageFormat) (schema : TableSchema) (key : List Field → K) (k : K)
    (v : Option (List Field)) (c : Change (List Field)) : Option (List Field) :=
  ((rowsOfChange c).flatMap (decodedRows format schema)).foldl (rowAt key k) v

theorem foldl_decoded_at (stream : List (Change (List Field))) (k : K) (v : Option (List Field)) :
    ((stream.flatMap rowsOfChange).flatMap (decodedRows format schema)).foldl (rowAt key k) v =
      stream.foldl (Change.decodedAt format schema key k) v := by
  induction stream generalizing v with
  | nil => rfl
  | cons c stream ih =>
    rw [List.flatMap_cons, List.flatMap_append, List.foldl_append, ih, List.foldl_cons]
    rfl

theorem keepsMeaning_iff (hdistinct : schema.Distinct) {stream : List (Change (List Field))}
    (hplain : PlainStream schema stream) (clock : ℕ → Int64) :
    KeepsMeaning texts format schema clock key stream ↔
      ∀ k v, (∀ row, v = some row → key row = k) →
        stream.foldl (Change.decodedAt format schema key k) v = stream.foldl (Change.at key k) v := by
  rw [KeepsMeaning, decodeMessages_serializeAll hdistinct clock 0 hplain]
  have hat (t : Table K (List Field)) (k : K) :
      ((stream.flatMap rowsOfChange).flatMap (decodedRows format schema)).foldl (applyRow key) t k =
        stream.foldl (Change.decodedAt format schema key k) (t k) := by rw [foldl_applyRow_at, foldl_decoded_at]
  constructor
  · rintro ⟨rows, hrows, hkeeps⟩ k v hv
    cases hrows
    have ht : Keyed key fun k' ↦ if k' = k then v else none := by
      intro k' row hrow
      by_cases heq : k' = k
      · rw [heq]
        exact hv row (by simpa [heq] using hrow)
      · simp [heq] at hrow
    have hk := congrFun (hkeeps _ ht) k
    rwa [hat, foldl_apply_at, if_pos rfl] at hk
  · intro hkeeps
    refine ⟨_, rfl, fun t ht ↦ funext fun k ↦ ?_⟩
    rw [hat, foldl_apply_at]
    exact hkeeps k (t k) (ht k)

section Keys

variable {k : K} {v : Option (List Field)}

theorem decodedAt_insert (hformat : format ≠ .oggJson) (row : List Field) :
    Change.decodedAt format schema key k v (.insert row) = if key row = k then some row else v := by
  cases format with
  | oggJson => exact absurd rfl hformat
  | _ => simp [Change.decodedAt, rowsOfChange, decodedRows, rowAt]

theorem decodedAt_delete (hformat : format ≠ .oggJson) (row : List Field) :
    Change.decodedAt format schema key k v (.delete row) = if key row = k then none else v := by
  cases format with
  | oggJson => exact absurd rfl hformat
  | _ => simp [Change.decodedAt, rowsOfChange, decodedRows, rowAt]

theorem decodedAt_update (hformat : format ≠ .oggJson) (before after : List Field) :
    Change.decodedAt format schema key k v (.update before after) =
      if key after = k then some after
      else if format ≠ .debeziumJson ∧ key (nullFields schema) = k then none
      else if key before = k then some before else v := by
  cases format with
  | oggJson => exact absurd rfl hformat
  | _ =>
    by_cases hbefore : key before = k <;> by_cases hafter : key after = k <;>
      by_cases hnull : key (nullFields schema) = k <;>
      simp [Change.decodedAt, rowsOfChange, decodedRows, rowAt, hbefore, hafter, hnull]

theorem decodedAt_ogg (c : Change (List Field)) : Change.decodedAt .oggJson schema key k v c =
    if key (nullFields schema) = k ∧ c.isDelete then none
    else (lastPut key k (c.puts.map (caseless schema))).or v := by
  cases c with
  | insert row =>
    by_cases hrow : key (caseless schema row) = k <;>
      simp [Change.decodedAt, rowsOfChange, decodedRows, rowAt, Change.isDelete, Change.puts, lastPut, hrow]
  | update before after =>
    by_cases hbefore : key (caseless schema before) = k <;> by_cases hafter : key (caseless schema after) = k <;>
      simp [Change.decodedAt, rowsOfChange, decodedRows, rowAt, Change.isDelete, Change.puts, lastPut, hbefore, hafter]
  | delete row =>
    by_cases hnull : key (nullFields schema) = k <;>
      simp [Change.decodedAt, rowsOfChange, decodedRows, rowAt, Change.isDelete, Change.puts, lastPut, hnull]

def Trails (moved : Bool) (source target : Option (List Field)) : Prop :=
  if moved then source = none ∧ target ≠ none else target = source

theorem trails_run (hformat : format ≠ .oggJson) (hk : format = .debeziumJson ∨ key (nullFields schema) ≠ k)
    (stream : List (Change (List Field))) (v : Option (List Field)) :
    Trails (movedAway key k stream) (stream.foldl (Change.at key k) v)
      (stream.foldl (Change.decodedAt format schema key k) v) := by
  have hnull : ¬(format ≠ .debeziumJson ∧ key (nullFields schema) = k) := fun ⟨hne, heq⟩ ↦
    hk.elim hne fun h ↦ h heq
  induction stream using List.reverseRecOn with
  | nil => simp [Trails, movedAway]
  | append_singleton cs c ih =>
    rw [movedAway_concat, List.foldl_append, List.foldl_append, List.foldl_cons, List.foldl_nil, List.foldl_cons,
      List.foldl_nil]
    cases c with
    | insert row =>
      rw [decodedAt_insert hformat]
      by_cases hrow : key row = k
      · simp [Trails, Change.moves, Change.at, hrow]
      · simpa [Change.moves, Change.at, hrow] using ih
    | delete row =>
      rw [decodedAt_delete hformat]
      by_cases hrow : key row = k
      · simp [Trails, Change.moves, Change.at, hrow]
      · simpa [Change.moves, Change.at, hrow] using ih
    | update before after =>
      rw [decodedAt_update hformat, if_neg hnull]
      by_cases hafter : key after = k
      · simp [Trails, Change.moves, Change.at, hafter]
      · by_cases hbefore : key before = k
        · simp [Trails, Change.moves, Change.at, hafter, hbefore]
        · simpa [Change.moves, Change.at, hafter, hbefore] using ih

theorem null_run (hformat : format ≠ .oggJson) (hne : format ≠ .debeziumJson) (hk : key (nullFields schema) = k)
    (stream : List (Change (List Field))) (v : Option (List Field)) :
    stream.foldl (Change.decodedAt format schema key k) v =
      if since key Change.isUpdate k stream then none else stream.foldl (Change.at key k) v := by
  induction stream using List.reverseRecOn with
  | nil => rfl
  | append_singleton cs c ih =>
    rw [since_concat, List.foldl_append, List.foldl_append, List.foldl_cons, List.foldl_nil, List.foldl_cons,
      List.foldl_nil, ih]
    cases c with
    | insert row =>
      rw [decodedAt_insert hformat]
      by_cases hrow : key row = k <;> simp [Change.touches, Change.at, Change.isUpdate, hrow]
    | delete row =>
      rw [decodedAt_delete hformat]
      by_cases hrow : key row = k <;> simp [Change.touches, Change.at, Change.isUpdate, hrow]
    | update before after =>
      rw [decodedAt_update hformat]
      by_cases hafter : key after = k <;> by_cases hbefore : key before = k <;>
        simp [Change.touches, Change.at, Change.isUpdate, hafter, hbefore, hk, hne]

theorem ogg_run (stream : List (Change (List Field))) (v : Option (List Field)) :
    stream.foldl (Change.decodedAt .oggJson schema key k) v =
      if key (nullFields schema) = k ∧ stream.any Change.isDelete then
        lastPut key k ((putsSinceDelete stream).map (caseless schema))
      else (lastPut key k ((stream.flatMap Change.puts).map (caseless schema))).or v := by
  induction stream using List.reverseRecOn with
  | nil => simp [lastPut]
  | append_singleton cs c ih =>
    rw [List.foldl_append, List.foldl_cons, List.foldl_nil, decodedAt_ogg, ih, putsSinceDelete_concat,
      List.flatMap_append, List.flatMap_singleton, List.map_append, lastPut_append]
    by_cases hnull : key (nullFields schema) = k
    · cases hdelete : c.isDelete with
      | true => simp [hnull, hdelete, lastPut]
      | false =>
        cases hany : cs.any Change.isDelete with
        | true => simp [hnull, hdelete, hany, lastPut_append]
        | false => simp [hnull, hdelete, hany, Option.or_assoc]
    · simp [hnull, Option.or_assoc]

def Agrees (format : MessageFormat) (schema : TableSchema) (key : List Field → K) (stream : List (Change (List Field)))
    (k : K) : Prop :=
  ∀ v, (∀ row, v = some row → key row = k) →
    stream.foldl (Change.decodedAt format schema key k) v = stream.foldl (Change.at key k) v

variable {stream : List (Change (List Field))}

theorem agrees_iff_movedAway (hformat : format ≠ .oggJson)
    (hk : format = .debeziumJson ∨ key (nullFields schema) ≠ k) :
    Agrees format schema key stream k ↔ movedAway key k stream = false := by
  constructor
  · intro hagrees
    have hrun := trails_run hformat hk stream none
    rw [hagrees none (by simp)] at hrun
    by_contra hmoved
    rw [Trails, if_pos (by simpa using hmoved)] at hrun
    exact hrun.2 hrun.1
  · intro hmoved v _
    have hrun := trails_run hformat hk stream v
    rwa [Trails, if_neg (by simp [hmoved])] at hrun

theorem agrees_null_iff (hformat : format ≠ .oggJson) (hne : format ≠ .debeziumJson) :
    Agrees format schema key stream (key (nullFields schema)) ↔
      (since key Change.isUpdate (key (nullFields schema)) stream = true →
        removedAt key (key (nullFields schema)) stream = true) := by
  constructor
  · intro hagrees hsince
    have heq := hagrees (some (nullFields schema)) fun row hrow ↦ by rw [Option.some.inj hrow]
    rw [null_run hformat hne rfl, if_pos hsince, foldl_at_eq] at heq
    by_contra hremoved
    rw [if_neg hremoved] at heq
    cases hput : lastPut key (key (nullFields schema)) (stream.flatMap Change.puts) <;> simp [hput] at heq
  · intro hremoved v _
    rw [null_run hformat hne rfl]
    split_ifs with hsince
    · rw [foldl_at_eq, if_pos (hremoved hsince)]
    · rfl

theorem agrees_ogg_iff (hk : key (nullFields schema) ≠ k) :
    Agrees .oggJson schema key stream k ↔ removedAt key k stream = false ∧
      lastPut key k ((stream.flatMap Change.puts).map (caseless schema)) =
        lastPut key k (stream.flatMap Change.puts) := by
  have hdec (v : Option (List Field)) : stream.foldl (Change.decodedAt .oggJson schema key k) v =
      (lastPut key k ((stream.flatMap Change.puts).map (caseless schema))).or v := by
    rw [ogg_run, if_neg fun h ↦ hk h.1]
  constructor
  · intro hagrees
    have hremoved : removedAt key k stream = false := by
      by_contra hremoved
      have hremoved : removedAt key k stream = true := by simpa using hremoved
      obtain ⟨row, hrow⟩ := exists_of_removedAt hremoved
      have heq := hagrees (some row) fun row' hrow' ↦ by rw [← Option.some.inj hrow', hrow]
      rw [hdec, foldl_at_eq, if_pos hremoved] at heq
      cases hput : lastPut key k ((stream.flatMap Change.puts).map (caseless schema)) <;> simp [hput] at heq
    have heq := hagrees none (by simp)
    rw [hdec, foldl_at_eq, hremoved, if_neg Bool.false_ne_true, Option.or_none, Option.or_none] at heq
    exact ⟨hremoved, heq⟩
  · rintro ⟨hremoved, hput⟩ v _
    rw [hdec, foldl_at_eq, hremoved, if_neg Bool.false_ne_true, hput]

theorem agrees_ogg_null_iff : Agrees .oggJson schema key stream (key (nullFields schema)) ↔
    if removedAt key (key (nullFields schema)) stream then stream.any Change.isDelete ∧
      lastPut key (key (nullFields schema)) ((putsSinceDelete stream).map (caseless schema)) = none
    else
      lastPut key (key (nullFields schema)) ((putsSinceDelete stream).map (caseless schema)) =
        lastPut key (key (nullFields schema)) (stream.flatMap Change.puts) ∧
      (lastPut key (key (nullFields schema)) (stream.flatMap Change.puts) = none →
        stream.any Change.isDelete = false) := by
  have hstart {v : Option (List Field)} (hv : v = none ∨ v = some (nullFields schema)) :
      ∀ row, v = some row → key row = key (nullFields schema) := by
    rintro row rfl
    rcases hv with hv | hv
    · cases hv
    · rw [Option.some.inj hv]
  constructor
  · intro hagrees
    have hnone := hagrees none (hstart (.inl rfl))
    have hsome := hagrees (some (nullFields schema)) (hstart (.inr rfl))
    rw [ogg_run, foldl_at_eq] at hnone hsome
    cases hany : stream.any Change.isDelete with
    | true =>
      rw [hany, if_pos ⟨rfl, rfl⟩] at hnone hsome
      split_ifs at hnone hsome ⊢ with hremoved
      · exact ⟨rfl, hnone⟩
      · rw [Option.or_none] at hnone
        refine ⟨hnone, fun hput ↦ ?_⟩
        rw [hput] at hnone hsome
        rw [hnone] at hsome
        cases hsome
    | false =>
      rw [hany, if_neg (by simp)] at hnone hsome
      rw [putsSinceDelete_of_none hany]
      split_ifs at hnone hsome ⊢ with hremoved
      · rw [Option.or_none] at hnone
        rw [hnone] at hsome
        cases hsome
      · rw [Option.or_none, Option.or_none] at hnone
        exact ⟨hnone, fun _ ↦ rfl⟩
  · intro hcond v _
    rw [ogg_run, foldl_at_eq]
    cases hany : stream.any Change.isDelete with
    | true =>
      rw [if_pos ⟨rfl, rfl⟩]
      split_ifs at hcond ⊢ with hremoved
      · exact hcond.2
      · obtain ⟨hfound, hnone⟩ := hcond
        rw [hfound]
        cases hput : lastPut key (key (nullFields schema)) (stream.flatMap Change.puts) with
        | none =>
          rw [hnone hput] at hany
          cases hany
        | some row => rfl
    | false =>
      rw [if_neg (by simp)]
      rw [putsSinceDelete_of_none hany] at hcond
      split_ifs at hcond ⊢ with hremoved
      · rw [hany] at hcond
        cases hcond.1
      · rw [hcond.1]

end Keys

/-- Streams keep their meaning exactly when no change of theirs is one that the format loses. -/
theorem keepsMeaning_iff_survives (texts : Texts T) (format : MessageFormat) (schema : TableSchema)
    (hdistinct : schema.Distinct) (key : List Field → K) (stream : List (Change (List Field)))
    (hplain : PlainStream schema stream) (clock : ℕ → Int64) :
    KeepsMeaning texts format schema clock key stream ↔ Survives format schema key stream := by
  rw [keepsMeaning_iff hdistinct hplain]
  change (∀ k, Agrees format schema key stream k) ↔ _
  have hsplit (p : K → Prop) (null : K) : (∀ k, p k) ↔ (∀ k, k ≠ null → p k) ∧ p null := by
    refine ⟨fun h ↦ ⟨fun k _ ↦ h k, h null⟩, fun ⟨hothers, hnull⟩ k ↦ ?_⟩
    by_cases hk : k = null
    · rwa [hk]
    · exact hothers k hk
  cases format with
  | debeziumJson => exact forall_congr' fun k ↦ agrees_iff_movedAway nofun (.inl rfl)
  | canalJson =>
    refine (hsplit _ (key (nullFields schema))).trans (and_congr ?_ (agrees_null_iff nofun nofun))
    exact forall₂_congr fun k hk ↦ agrees_iff_movedAway nofun (.inr hk.symm)
  | maxwellJson =>
    refine (hsplit _ (key (nullFields schema))).trans (and_congr ?_ (agrees_null_iff nofun nofun))
    exact forall₂_congr fun k hk ↦ agrees_iff_movedAway nofun (.inr hk.symm)
  | oggJson =>
    refine (hsplit _ (key (nullFields schema))).trans (and_congr ?_ agrees_ogg_null_iff)
    exact forall₂_congr fun k hk ↦ agrees_ogg_iff hk.symm

end Rows

section Example

def idOf : List Field → Int64
  | .int64 id :: _ => id
  | _ => 0

theorem plain_users {row : Row Field} (h : ∃ kind id name, row = ⟨kind, [.int64 id, .string name]⟩) :
    PlainRow users row := by
  obtain ⟨kind, id, name, rfl⟩ := h
  exact ⟨rfl, by simp [Field.isPlain]⟩

theorem rename_keeps_meaning : KeepsMeaning plainTexts .debeziumJson users (fun _ ↦ 0) idOf
    [.insert [.int64 1, .string "a"], .update [.int64 1, .string "a"] [.int64 1, .string "b"],
      .delete [.int64 2, .string "c"]] := by
  refine (keepsMeaning_iff_survives plainTexts .debeziumJson users ?_ idOf _ ?_ fun _ ↦ 0).mpr fun k ↦ ?_
  · simp [TableSchema.Distinct, users]
  · intro row hrow
    refine plain_users ?_
    have hrow : row = ⟨.insert, [.int64 1, .string "a"]⟩ ∨ row = ⟨.updateBefore, [.int64 1, .string "a"]⟩ ∨
      row = ⟨.updateAfter, [.int64 1, .string "b"]⟩ ∨ row = ⟨.delete, [.int64 2, .string "c"]⟩ := by
      simpa [rowsOfChange] using hrow
    rcases hrow with rfl | rfl | rfl | rfl <;> exact ⟨_, _, _, rfl⟩
  · by_cases hone : 1 = k <;> by_cases htwo : 2 = k <;> simp [movedAway, Change.moves, idOf, hone, htwo]

/-- A row that an update moves to another key stays behind in every format. -/
theorem move_leaves_row : PlainStream users [.update [.int64 1, .string "a"] [.int64 2, .string "a"]] ∧
    ∀ format, ¬KeepsMeaning plainTexts format users (fun _ ↦ 0) idOf
      [.update [.int64 1, .string "a"] [.int64 2, .string "a"]] := by
  have hplain : PlainStream users [.update [.int64 1, .string "a"] [.int64 2, .string "a"]] := by
    intro row hrow
    refine plain_users ?_
    have hrow : row = ⟨.updateBefore, [.int64 1, .string "a"]⟩ ∨ row = ⟨.updateAfter, [.int64 2, .string "a"]⟩ := by
      simpa [rowsOfChange] using hrow
    rcases hrow with rfl | rfl <;> exact ⟨_, _, _, rfl⟩
  refine ⟨hplain, fun format hkeeps ↦ ?_⟩
  have hdistinct : users.Distinct := by simp [TableSchema.Distinct, users]
  have hat := (keepsMeaning_iff hdistinct hplain fun _ ↦ 0).mp hkeeps 1 none (by simp)
  have hcaseless (id : Int64) : caseless users [.int64 id, .string "a"] = [.int64 id, .string "a"] := rfl
  have hnull : nullFields users = [.null, .null] := rfl
  cases format <;>
    simp [Change.decodedAt, rowsOfChange, decodedRows, rowAt, Change.at, idOf, hnull, hcaseless] at hat

end Example

end SeaTunnel.Formats.ChangeStreams
