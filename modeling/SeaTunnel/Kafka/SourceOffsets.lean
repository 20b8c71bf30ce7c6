import Mathlib.Data.List.Nodup
import SeaTunnel.Kafka.SourceLineage

namespace SeaTunnel.Kafka.SourceLineage

open Lib Lib.Runs Kafka.SourceReader

variable {D R : Type}

section Property

variable (config : KafkaSourceConfig) (partitions : Partitions) (decodePayload : D → List R)

def HasRow (log : Log D) (offset : ℤ) (i : ℕ) : Prop :=
  ∃ r ∈ log.records, r.offset = offset ∧ ∃ data, r.payload = some data ∧ i < (decodePayload data).length

/-- The rows of the assigned partitions from where the lineage began. -/
def Lineage.Owed (s : Lineage D R) (id : RowId) : Prop :=
  id.1 ∈ s.reader.assigned ∧ (∃ b, s.base id.1 = some b ∧ b ≤ id.2.1) ∧
    HasRow decodePayload (s.logs id.1) id.2.1 id.2.2

/-- Nothing is left to read at the reader's positions. -/
def Lineage.Drained (s : Lineage D R) : Prop :=
  s.reader.pending = [] ∧ ∀ p ∈ s.reader.assigned, ∀ position, s.positions p = some position →
    ∀ r ∈ (s.logs p).records, r.offset < position

/-- Messages are produced and polled, by one reader. -/
def Reading : LineageInput D → Prop
  | .produce _ _ _ | .poll _ => True
  | _ => False

/-- The reader can drain its partitions, and when it has, every row was
returned by it or before its checkpoint. -/
def Lineage.Delivers (s : Lineage D R) : Prop :=
  (∃ is : List (LineageInput D), (∀ i ∈ is, Reading i) ∧
    ((lineage config partitions decodePayload).run s is).Drained) ∧
  ∀ is : List (LineageInput D), (∀ i ∈ is, Reading i) →
    ((lineage config partitions decodePayload).run s is).Drained →
    ∀ id, ((lineage config partitions decodePayload).run s is).Owed decodePayload id →
      id ∈ ((lineage config partitions decodePayload).run s is).returned

/-- No stored offset moves backwards or disappears from the state that the
previous reader was restored from to the one that this reader is. -/
def Advances (saved : Saved R) (s : Lineage D R) : Prop :=
  ∀ p ∈ s.reader.assigned, ∀ o,
    saved.reader.restoreOffsets.lookup (offsetKey config.topic p) = some o →
    ∃ o', s.reader.restoreOffsets.lookup (offsetKey config.topic p) = some o' ∧ o ≤ o'

def RestoresAll (_ : List (LineageEvent D R)) : LineageEvent D R → Prop
  | .restored saved s => s.Delivers config partitions decodePayload ∧ Advances config saved s

def mine : List ℕ := partitions.ids.filter fun p ↦ p % config.subtaskCount = config.subtaskIndex

/-- The startup mode begins no later than the first row owed. -/
def StartsBefore (log : Log D) (base : Option ℤ) (start : Option ℤ) : Prop :=
  ∀ b, base = some b → ∃ position, start = some position ∧
    ∀ o i, HasRow decodePayload log o i → b ≤ o → position ≤ o

/-- The checkpoint was taken with no decoded row waiting, by a reader that had
read a message of every partition it had an offset for; and the partitions
without an offset start where the lineage began. -/
def TakenBetweenMessages (_ : List (LineageEvent D R)) (s : Lineage D R) : LineageInput D → Prop
  | .restart k answers => ∀ saved, s.saved[k]? = some saved →
    saved.reader.pending = [] ∧
    ∀ p ∈ mine config partitions,
      saved.reader.lastOffsets.lookup (offsetKey config.topic p) = none →
      saved.reader.restoreOffsets.lookup (offsetKey config.topic p) = none ∧
      StartsBefore decodePayload (s.logs p) (saved.base p)
        (seek config answers (s.logs p) p
          (KafkaSourceReader.startOffset (answers.cluster config.topic partitions) config.topic p config none))
  | _ => True

end Property

section Logs

variable {decodePayload : D → List R} {log : Log D}

theorem hasRow_append {gap : ℕ} {payload : Option D} {o : ℤ} {i : ℕ} :
    HasRow decodePayload (log.append gap payload) o i →
      HasRow decodePayload log o i ∨ log.logEnd ≤ o := by
  rintro ⟨r, hr, rfl, hrow⟩
  rcases List.mem_append.mp hr with hr | hr
  · exact .inl ⟨r, hr, rfl, hrow⟩
  · refine .inr ?_
    rw [List.mem_singleton.mp hr]
    dsimp only
    omega

theorem next_eq_some {position : ℤ} {r : Record D} (h : log.next position = some r) :
    r ∈ log.records ∧ position ≤ r.offset ∧ ∀ r' ∈ log.records, position ≤ r'.offset → r.offset ≤ r'.offset := by
  obtain ⟨hle, before, after, heq, hbefore⟩ := List.find?_eq_some_iff_append.mp h
  have hsorted := log.sorted
  rw [heq, List.pairwise_append] at hsorted
  refine ⟨by simp [heq], by simpa using hle, fun r' hr' hle' ↦ ?_⟩
  rw [heq] at hr'
  rcases List.mem_append.mp hr' with hr' | hr'
  · have := hbefore r' hr'
    simp at this
    omega
  · rcases List.mem_cons.mp hr' with rfl | hr'
    · omega
    · have hlt := (List.pairwise_cons.mp hsorted.2.1).1 r' hr'
      omega

theorem record_unique {r r' : Record D} (hr : r ∈ log.records) (hr' : r' ∈ log.records)
    (heq : r.offset = r'.offset) : r = r' := by
  have hnodup : (log.records.map Record.offset).Nodup := by
    rw [List.Nodup, List.pairwise_map]
    exact log.sorted.imp fun hlt ↦ by omega
  exact List.inj_on_of_nodup_map hnodup hr hr' heq

theorem next_eq_none {position : ℤ} (h : log.next position = none) :
    ∀ r ∈ log.records, r.offset < position := by
  intro r hr
  have := List.find?_eq_none.mp h r hr
  simpa using this

theorem seek_inLog {config : KafkaSourceConfig} {answers : Answers} {p : ℕ} {offset : Offset} {position : ℤ}
    (h : seek config answers log p offset = some position) : 0 ≤ position ∧ position ≤ log.logEnd := by
  have hend := log.nonneg
  have hreset : ∀ position, resetPosition config log = some position →
      0 ≤ position ∧ position ≤ log.logEnd := by
    intro position hreset
    rw [resetPosition] at hreset
    split at hreset
    · cases hreset
      omega
    · cases hreset
      omega
    · cases hreset
  have hguard : ∀ q : ℤ, (if 0 ≤ q ∧ q ≤ log.logEnd then some q else resetPosition config log) = some position →
      0 ≤ position ∧ position ≤ log.logEnd := by
    intro q hq
    split at hq
    · next hin => cases hq; exact hin
    · exact hreset _ hq
  cases offset with
  | beginning =>
    cases h
    omega
  | «end» =>
    cases h
    omega
  | offset q => exact hguard q h
  | invalid =>
    rw [seek] at h
    split at h
    · exact hguard _ h
    · exact hreset _ h

end Logs

section Polling

variable {config : KafkaSourceConfig} {decodePayload : D → List R} {s : Lineage D R} {p : ℕ}

def Lineage.popRow (s : Lineage D R) : Lineage D R :=
  match s.reader.pending with
  | [] => s
  | row :: pending =>
    { s with reader := { s.reader with pending }, returned := s.returned ++ [row.1] }

def recordMessage (config : KafkaSourceConfig) (p : ℕ) (hp : p < 2 ^ 31) (r : Record D) : Message (ℕ × ℤ × D) :=
  ⟨config.topic, p, r.offset, r.payload.map fun data ↦ (p, r.offset, data), hp⟩

def Lineage.absorb (config : KafkaSourceConfig) (decodePayload : D → List R) (s : Lineage D R) (p : ℕ)
    (hp : p < 2 ^ 31) (r : Record D) : Lineage D R :=
  { s with
    reader := s.reader.received (decodeTagged decodePayload) (recordMessage config p hp r)
    positions := Function.update s.positions p (some (r.offset + 1)) }

theorem poll_waiting (hpending : s.reader.pending ≠ []) : s.poll config decodePayload p = s.popRow := by
  obtain ⟨row, pending, heq⟩ := List.exists_cons_of_ne_nil hpending
  have hpositions : s.positionsAfter config p = s.positions := by
    unfold Lineage.positionsAfter
    split
    · simp [heq]
    · rfl
  simp [Lineage.poll, Lineage.popRow, KafkaSourceReader.pollNext, heq, hpositions, Lineage.rowOf]

theorem poll_next (hpending : s.reader.pending = []) (hconsumer : s.reader.consumer.isSome = true)
    (hassigned : p ∈ s.reader.assigned) {position : ℤ} (hposition : s.positions p = some position)
    {r : Record D} (hnext : (s.logs p).next position = some r) (hp : p < 2 ^ 31) :
    s.poll config decodePayload p = (s.absorb config decodePayload p hp r).popRow := by
  have hreceive : s.receive config p = .message (recordMessage config p hp r) := by
    simp only [Lineage.receive, hassigned, if_true, hposition, hnext, recordMessage]
    exact dif_pos hp
  have hpositions : s.positionsAfter config p = Function.update s.positions p (some (r.offset + 1)) := by
    simp [Lineage.positionsAfter, hreceive, hpending, hconsumer, recordMessage]
  simp only [Lineage.poll, KafkaSourceReader.pollNext, hpending, hconsumer, if_true, hreceive, hpositions,
    Lineage.popRow, Lineage.absorb]
  cases (s.reader.received (decodeTagged decodePayload) (recordMessage config p hp r)).pending with
  | nil => simp [Lineage.rowOf]
  | cons row pending => simp [Lineage.rowOf]

theorem poll_cases (config : KafkaSourceConfig) (decodePayload : D → List R) (s : Lineage D R) (p : ℕ) :
    s.poll config decodePayload p = s.popRow ∨
    ∃ (hp : p < 2 ^ 31) (position : ℤ) (r : Record D), p ∈ s.reader.assigned ∧
      s.positions p = some position ∧ (s.logs p).next position = some r ∧
      s.poll config decodePayload p = (s.absorb config decodePayload p hp r).popRow := by
  by_cases hpending : s.reader.pending = []
  · have hpop : s.popRow = s := by simp [Lineage.popRow, hpending]
    have hidle : (∀ msg, s.receive config p ≠ .message msg) → s.poll config decodePayload p = s.popRow := by
      intro hnone
      rw [hpop]
      have hpositions : s.positionsAfter config p = s.positions := by
        unfold Lineage.positionsAfter
        split
        · next msg hmsg => exact absurd hmsg (hnone msg)
        · rfl
      cases hrecv : s.receive config p with
      | message msg => exact absurd hrecv (hnone msg)
      | error | timeout =>
        simp [Lineage.poll, KafkaSourceReader.pollNext, hpending, hrecv, hpositions, Lineage.rowOf]
    by_cases hconsumer : s.reader.consumer.isSome = true
    · by_cases hassigned : p ∈ s.reader.assigned
      · cases hposition : s.positions p with
        | none => exact .inl (hidle (by simp [Lineage.receive, hassigned, hposition]))
        | some position =>
          cases hnext : (s.logs p).next position with
          | none => exact .inl (hidle (by simp [Lineage.receive, hassigned, hposition, hnext]))
          | some r =>
            by_cases hp : p < 2 ^ 31
            · exact .inr ⟨hp, position, r, hassigned, rfl, hnext,
                poll_next hpending hconsumer hassigned hposition hnext hp⟩
            · refine .inl (hidle fun msg hmsg ↦ ?_)
              simp only [Lineage.receive, hassigned, if_true, hposition, hnext] at hmsg
              rw [dif_neg hp] at hmsg
              cases hmsg
      · exact .inl (hidle (by simp [Lineage.receive, hassigned]))
    · left
      have hpositions : s.positionsAfter config p = s.positions := by
        unfold Lineage.positionsAfter
        split
        · simp [hconsumer]
        · rfl
      rw [hpop]
      simp [Lineage.poll, KafkaSourceReader.pollNext, hpending, hconsumer, hpositions, Lineage.rowOf]
  · exact .inl (poll_waiting hpending)

end Polling

section Opening

variable {config : KafkaSourceConfig} {partitions : Partitions}

theorem assignment_ok {cluster : Cluster} {rd : KafkaSourceReader R} {ps : List ℕ} {tpl : List (ℕ × Offset)}
    (h : KafkaSourceReader.assignment cluster rd ps = .ok tpl) :
    tpl = ps.map fun p ↦ (p, KafkaSourceReader.startOf cluster rd p) := by
  induction ps generalizing tpl with
  | nil =>
    rw [KafkaSourceReader.assignment] at h
    cases h
    rfl
  | cons p ps ih =>
    rw [KafkaSourceReader.assignment] at h
    split at h
    · cases h
    · cases hrest : KafkaSourceReader.assignment cluster rd ps with
      | error e => rw [hrest] at h; cases h
      | ok rest =>
        rw [hrest] at h
        cases h
        rw [ih hrest, List.map_cons]

structure OpenedFrom (config : KafkaSourceConfig) (partitions : Partitions) (answers : Answers)
    (state : KafkaSourceState) (s s' : Lineage D R) : Prop where
  logs : s'.logs = s.logs
  saved : s'.saved = s.saved
  assigned : s'.reader.assigned = mine config partitions
  consumer : s'.reader.consumer.isSome = true
  lastOffsets : s'.reader.lastOffsets = ∅
  restoreOffsets : s'.reader.restoreOffsets = state.offsets
  pending : s'.reader.pending = []
  positions : ∀ p ∈ mine config partitions, s'.positions p = seek config answers (s.logs p) p
    (KafkaSourceReader.startOffset (answers.cluster config.topic partitions) config.topic p config
      (state.offsets.lookup (offsetKey config.topic p)))

theorem openedFrom_of_eq {s s' : Lineage D R} {answers : Answers} {state : KafkaSourceState}
    (h : s.opened config partitions answers state = some s') :
    OpenedFrom config partitions answers state s s' := by
  have hpartitions : (KafkaSourceReader.restoreFromState { config } state : KafkaSourceReader (Tagged R)).partitions
      [(config.topic, partitions.ids)] = mine config partitions := by
    simp only [KafkaSourceReader.partitions, KafkaSourceReader.restoreFromState, List.find?_cons, decide_true]
    rfl
  have hmetadata : (answers.cluster config.topic partitions).fetchMetadata =
      .ok [(config.topic, partitions.ids)] := rfl
  have hcreate : (answers.cluster config.topic partitions).create = .ok () := rfl
  have hassign : ∀ tpl, (answers.cluster config.topic partitions).assign tpl = .ok () := fun _ ↦ rfl
  rw [Lineage.opened] at h
  simp only [KafkaSourceReader.openReader, hcreate, hmetadata, hassign, hpartitions] at h
  cases hassignment : KafkaSourceReader.assignment (answers.cluster config.topic partitions)
      (KafkaSourceReader.restoreFromState { config } state : KafkaSourceReader (Tagged R))
      (mine config partitions) with
  | error e =>
    rw [hassignment] at h
    cases h
  | ok tpl =>
    rw [hassignment] at h
    cases h
    refine ⟨rfl, rfl, rfl, rfl, rfl, rfl, rfl, fun p hp ↦ ?_⟩
    obtain ⟨e, hfind⟩ : ∃ e, tpl.find? (fun e ↦ e.1 = p) = some e := by
      rw [← Option.isSome_iff_exists, List.find?_isSome, assignment_ok hassignment]
      exact ⟨_, List.mem_map_of_mem hp, by simp⟩
    have hmem := List.mem_of_find?_eq_some hfind
    have hpart : e.1 = p := by simpa using List.find?_some hfind
    rw [assignment_ok hassignment] at hmem
    obtain ⟨p', -, rfl⟩ := List.mem_map.mp hmem
    obtain rfl : p' = p := hpart
    simp only [Lineage.startPositions, Option.getD_some, hfind]
    rfl

end Opening

section Invariant

variable (config : KafkaSourceConfig) (partitions : Partitions) (decodePayload : D → List R)

structure PartitionOk (log : Log D) (reader : KafkaSourceReader (Tagged R)) (p : ℕ) (position base : Option ℤ)
    (returned : List RowId) : Prop where
  read : ∀ o, reader.lastOffsets.lookup (offsetKey config.topic p) = some o → position = some (o + 1)
  restored : ∀ o, reader.restoreOffsets.lookup (offsetKey config.topic p) = some o →
    ∃ q, position = some q ∧ o + 1 ≤ q
  inLog : ∀ q, position = some q → 0 ≤ q ∧ q ≤ log.logEnd
  owed : ∀ b, base = some b → ∃ q, position = some q ∧ ∀ o i, HasRow decodePayload log o i → b ≤ o → o < q →
    (p, o, i) ∈ returned ++ reader.pending.map Prod.fst

structure ReaderOk (s : Lineage D R) : Prop where
  assigned : s.reader.assigned ⊆ mine config partitions
  partition : ∀ p ∈ mine config partitions, PartitionOk config decodePayload (s.logs p) s.reader p (s.positions p)
    (s.base p) s.returned

def SavedOk (logs : ℕ → Log D) (saved : Saved R) : Prop :=
  ∃ positions : ℕ → Option ℤ, ∀ p ∈ mine config partitions,
    PartitionOk config decodePayload (logs p) saved.reader p (positions p) (saved.base p) saved.returned

structure LineageOk (_ : List (LineageEvent D R)) (s : Lineage D R) : Prop where
  reader : ReaderOk config partitions decodePayload s
  saved : ∀ saved ∈ s.saved, SavedOk config partitions decodePayload s.logs saved

variable {config partitions decodePayload} {s : Lineage D R}

theorem PartitionOk.append {log : Log D} {reader : KafkaSourceReader (Tagged R)} {p : ℕ}
    {position base : Option ℤ} {returned : List RowId}
    (h : PartitionOk config decodePayload log reader p position base returned) (gap : ℕ) (payload : Option D) :
    PartitionOk config decodePayload (log.append gap payload) reader p position base returned := by
  refine ⟨h.read, h.restored, fun q hq ↦ ?_, fun b hb ↦ ?_⟩
  · have hin := h.inLog q hq
    have hend : (log.append gap payload).logEnd = log.logEnd + gap + 1 := rfl
    omega
  · obtain ⟨q, hq, hrows⟩ := h.owed b hb
    refine ⟨q, hq, fun o i hrow hle hlt ↦ ?_⟩
    rcases hasRow_append hrow with hrow | hge
    · exact hrows o i hrow hle hlt
    · have hin := h.inLog q hq
      omega

theorem PartitionOk.update {logs : ℕ → Log D} {reader : KafkaSourceReader (Tagged R)} {p p' gap : ℕ}
    {payload : Option D} {position base : Option ℤ} {returned : List RowId}
    (h : PartitionOk config decodePayload (logs p') reader p' position base returned) :
    PartitionOk config decodePayload (Function.update logs p ((logs p).append gap payload) p') reader p'
      position base returned := by
  rcases eq_or_ne p' p with rfl | hne
  · rw [Function.update_self]
    exact h.append gap payload
  · rwa [Function.update_of_ne hne]

theorem ReaderOk.produce (h : ReaderOk config partitions decodePayload s) (p gap : ℕ)
    (payload : Option D) : ReaderOk config partitions decodePayload
      { s with logs := Function.update s.logs p ((s.logs p).append gap payload) } :=
  ⟨h.assigned, fun p' hp' ↦ (h.partition p' hp').update⟩

theorem ReaderOk.popRow (h : ReaderOk config partitions decodePayload s) :
    ReaderOk config partitions decodePayload s.popRow := by
  unfold Lineage.popRow
  split
  · exact h
  · next row pending hpending =>
    refine ⟨h.assigned, fun p hp ↦ ?_⟩
    have hok := h.partition p hp
    refine ⟨hok.read, hok.restored, hok.inLog, fun b hb ↦ ?_⟩
    obtain ⟨q, hq, hrows⟩ := hok.owed b hb
    refine ⟨q, hq, fun o i hrow hle hlt ↦ ?_⟩
    have hmem := hrows o i hrow hle hlt
    rw [hpending] at hmem
    simpa using hmem

theorem mem_decodeTagged {p i : ℕ} {o : ℤ} {data : D} (hi : i < (decodePayload data).length) :
    (p, o, i) ∈ (decodeTagged decodePayload (p, o, data)).map Prod.fst := by
  refine List.mem_map.mpr ⟨((p, o, i), (decodePayload data)[i]), ?_, rfl⟩
  exact List.mem_mapIdx.mpr ⟨i, hi, rfl⟩

theorem mine_lt {p : ℕ} (hp : p ∈ mine config partitions) : p < 2 ^ 31 :=
  partitions.ids_lt p (List.mem_of_mem_filter hp)

theorem ReaderOk.absorb (h : ReaderOk config partitions decodePayload s) {p : ℕ}
    (hp : p < 2 ^ 31) (hassigned : p ∈ s.reader.assigned) {q : ℤ} (hq : s.positions p = some q) {r : Record D}
    (hnext : (s.logs p).next q = some r) :
    ReaderOk config partitions decodePayload (s.absorb config decodePayload p hp r) := by
  obtain ⟨hmem, hle, hfirst⟩ := next_eq_some hnext
  refine ⟨h.assigned, fun p' hp' ↦ ?_⟩
  have hok := h.partition p' hp'
  -- The rows of the record join those that wait.
  have hwaits : ∀ id ∈ s.returned ++ s.reader.pending.map Prod.fst,
      id ∈ s.returned ++ (s.absorb config decodePayload p hp r).reader.pending.map Prod.fst := by
    intro id hid
    simp only [Lineage.absorb, KafkaSourceReader.received, List.map_append, ← List.append_assoc]
    exact List.mem_append_left _ hid
  rcases eq_or_ne p' p with rfl | hne
  · have hposition : (s.absorb config decodePayload p' hp r).positions p' = some (r.offset + 1) :=
      Function.update_self ..
    rw [hposition]
    refine ⟨fun o ho ↦ ?_, fun o ho ↦ ?_, fun q' hq' ↦ ?_, fun b hb ↦ ?_⟩
    · have hlast : (s.absorb config decodePayload p' hp r).reader.lastOffsets.lookup
          (offsetKey config.topic p') = some r.offset := AList.lookup_insert _
      rw [hlast] at ho
      rw [Option.some.inj ho]
    · obtain ⟨q', hq', hlt⟩ := hok.restored o ho
      have : q' = q := by simpa [hq] using hq'.symm
      exact ⟨_, rfl, by omega⟩
    · have hbounds := (s.logs p').bounds r hmem
      cases hq'
      change 0 ≤ r.offset + 1 ∧ r.offset + 1 ≤ (s.logs p').logEnd
      omega
    · obtain ⟨q', hq', hrows⟩ := hok.owed b hb
      refine ⟨_, rfl, fun o i hrow hb' hlt ↦ ?_⟩
      have hsame : q' = q := by simpa [hq] using hq'.symm
      by_cases hread : o < q'
      · exact hwaits _ (hrows o i hrow hb' hread)
      · obtain ⟨r', hr', rfl, data, hdata, hi⟩ := hrow
        have hoffset := hfirst r' hr' (by omega)
        obtain rfl : r = r' := record_unique hmem hr' (by omega)
        simp only [Lineage.absorb, KafkaSourceReader.received, recordMessage, hdata, Option.map_some,
          Option.getD_some, List.map_append, List.mem_append]
        exact .inr (.inr (mem_decodeTagged hi))
  · have hkey : offsetKey config.topic p' ≠ offsetKey config.topic p := fun heq ↦
      hne (offsetKey_injective (mine_lt hp') hp heq).2
    have hposition : (s.absorb config decodePayload p hp r).positions p' = s.positions p' :=
      Function.update_of_ne hne ..
    have hlast : (s.absorb config decodePayload p hp r).reader.lastOffsets.lookup (offsetKey config.topic p') =
        s.reader.lastOffsets.lookup (offsetKey config.topic p') := AList.lookup_insert_ne hkey
    rw [hposition]
    refine ⟨fun o ho ↦ hok.read o (hlast ▸ ho), hok.restored, hok.inLog, fun b hb ↦ ?_⟩
    obtain ⟨q', hq', hrows⟩ := hok.owed b hb
    exact ⟨q', hq', fun o i hrow hb' hlt ↦ hwaits _ (hrows o i hrow hb' hlt)⟩

theorem ReaderOk.poll (h : ReaderOk config partitions decodePayload s) (p : ℕ) :
    ReaderOk config partitions decodePayload (s.poll config decodePayload p) := by
  rcases poll_cases config decodePayload s p with hpoll | ⟨hp, q, r, hassigned, hq, hnext, hpoll⟩
  · rw [hpoll]
    exact h.popRow
  · rw [hpoll]
    exact (h.absorb hp hassigned hq hnext).popRow

theorem readerOk_start {s s' : Lineage D R} {answers : Answers}
    (h : OpenedFrom config partitions answers ⟨∅⟩ s s') :
    ReaderOk config partitions decodePayload { s' with returned := [], base := s'.positions } := by
  refine ⟨by simp [h.assigned], fun p hp ↦ ⟨fun o ho ↦ ?_, fun o ho ↦ ?_, fun q hq ↦ ?_, fun b hb ↦ ?_⟩⟩
  · simp [h.lastOffsets] at ho
  · simp [h.restoreOffsets] at ho
  · change s'.positions p = some q at hq
    rw [h.positions p hp] at hq
    rw [h.logs]
    exact seek_inLog hq
  · refine ⟨b, hb, fun o i _ hle hlt ↦ ?_⟩
    omega

theorem readerOk_restart {s s' : Lineage D R} {answers : Answers} {saved : Saved R}
    (hsaved : SavedOk config partitions decodePayload s.logs saved)
    (h : OpenedFrom config partitions answers saved.reader.snapshotState.1 s s')
    (hpending : saved.reader.pending = [])
    (hstart : ∀ p ∈ mine config partitions,
      saved.reader.lastOffsets.lookup (offsetKey config.topic p) = none →
      StartsBefore decodePayload (s.logs p) (saved.base p) (s'.positions p)) :
    ReaderOk config partitions decodePayload { s' with returned := saved.returned, base := saved.base } := by
  obtain ⟨positions, hok⟩ := hsaved
  refine ⟨by simp [h.assigned], fun p hp ↦ ?_⟩
  have hstate : saved.reader.snapshotState.1.offsets = saved.reader.lastOffsets := rfl
  have hposition := h.positions p hp
  -- An offset of the state is where the reader begins, because its message is in the log.
  have hread : ∀ o, saved.reader.lastOffsets.lookup (offsetKey config.topic p) = some o →
      s'.positions p = some (o + 1) := by
    intro o ho
    have hin := (hok p hp).inLog _ ((hok p hp).read o ho)
    rw [hposition, hstate, ho]
    simp [KafkaSourceReader.startOffset, seek, hin]
  refine ⟨fun o ho ↦ ?_, fun o ho ↦ ?_, fun q hq ↦ ?_, fun b hb ↦ ?_⟩
  · simp [h.lastOffsets] at ho
  · change s'.reader.restoreOffsets.lookup _ = some o at ho
    rw [h.restoreOffsets, hstate] at ho
    exact ⟨o + 1, hread o ho, by omega⟩
  · change s'.positions p = some q at hq
    rw [hposition] at hq
    rw [h.logs]
    exact seek_inLog hq
  · rw [h.logs]
    cases hlast : saved.reader.lastOffsets.lookup (offsetKey config.topic p) with
    | some o =>
      obtain ⟨q, hq, hrows⟩ := (hok p hp).owed b hb
      have hsame : q = o + 1 := by simpa [(hok p hp).read o hlast] using hq.symm
      refine ⟨o + 1, hread o hlast, fun o' i hrow hle hlt ↦ ?_⟩
      have hmem := hrows o' i hrow hle (by omega)
      rw [hpending] at hmem
      exact List.mem_append_left _ (by simpa using hmem)
    | none =>
      obtain ⟨q, hq, hrows⟩ := hstart p hp hlast b hb
      refine ⟨q, hq, fun o i hrow hle hlt ↦ ?_⟩
      have := hrows o i hrow hle
      omega

section Taken

variable {h : List (LineageEvent D R)} {s s' : Lineage D R} (hs : LineageOk config partitions decodePayload h s) {k : ℕ}
  {answers : Answers} {saved : Saved R} (hi : TakenBetweenMessages config partitions decodePayload h s (.restart k answers))
  (hsaved : s.saved[k]? = some saved) (hfrom : OpenedFrom config partitions answers saved.reader.snapshotState.1 s s')

include hs hi hsaved hfrom

theorem restarted_of_taken :
    ReaderOk config partitions decodePayload { s' with returned := saved.returned, base := saved.base } := by
  obtain ⟨hpending, hstart⟩ := hi saved hsaved
  refine readerOk_restart (hs.saved saved (List.mem_of_getElem? hsaved)) hfrom hpending fun p hp hlast ↦ ?_
  rw [hfrom.positions p hp]
  change StartsBefore _ _ _ (seek _ _ _ _ (KafkaSourceReader.startOffset _ _ _ _
    (saved.reader.lastOffsets.lookup (offsetKey config.topic p))))
  rw [hlast]
  exact (hstart p hp hlast).2

theorem advances_of_taken :
    Advances config saved { s' with returned := saved.returned, base := saved.base } := by
  obtain ⟨positions, hok⟩ := hs.saved saved (List.mem_of_getElem? hsaved)
  intro p hp o ho
  change p ∈ s'.reader.assigned at hp
  rw [hfrom.assigned] at hp
  change ∃ o', s'.reader.restoreOffsets.lookup _ = some o' ∧ o ≤ o'
  rw [hfrom.restoreOffsets]
  change ∃ o', saved.reader.lastOffsets.lookup _ = some o' ∧ o ≤ o'
  cases hlast : saved.reader.lastOffsets.lookup (offsetKey config.topic p) with
  | none =>
    have hnone := ((hi saved hsaved).2 p hp hlast).1
    rw [hnone] at ho
    cases ho
  | some o' =>
    obtain ⟨q, hq, hle⟩ := (hok p hp).restored o ho
    have hsame : q = o' + 1 := by simpa [(hok p hp).read o' hlast] using hq.symm
    exact ⟨o', rfl, by omega⟩

end Taken

theorem LineageOk.step {h : List (LineageEvent D R)}
    (hs : LineageOk config partitions decodePayload h s) {i : LineageInput D}
    (hi : TakenBetweenMessages config partitions decodePayload h s i) :
    LineageOk config partitions decodePayload (h ++ (lineage config partitions decodePayload).emit s i)
      ((lineage config partitions decodePayload).next s i) := by
  cases i with
  | produce p gap payload =>
    refine ⟨hs.reader.produce p gap payload, fun saved hsaved ↦ ?_⟩
    obtain ⟨positions, hok⟩ := hs.saved saved hsaved
    exact ⟨positions, fun p' hp' ↦ (hok p' hp').update⟩
  | poll p => exact ⟨hs.reader.poll p, hs.saved⟩
  | checkpoint =>
    have hsame : ReaderOk config partitions decodePayload { s with reader := s.reader.snapshotState.2 } :=
      ⟨hs.reader.assigned, fun p hp ↦
        have hok := hs.reader.partition p hp
        ⟨hok.read, hok.restored, hok.inLog, hok.owed⟩⟩
    refine ⟨⟨hsame.assigned, hsame.partition⟩, fun saved hsaved ↦ ?_⟩
    rcases List.mem_append.mp hsaved with hsaved | hsaved
    · exact hs.saved saved hsaved
    · rw [List.mem_singleton.mp hsaved]
      exact ⟨s.positions, hs.reader.partition⟩
  | start answers =>
    simp only [lineage, Machine.next, Machine.emit, Lineage.step]
    cases hopened : s.opened config partitions answers ⟨∅⟩ with
    | none => exact ⟨hs.reader, hs.saved⟩
    | some s' =>
      have hfrom := openedFrom_of_eq hopened
      exact ⟨readerOk_start hfrom, by simpa [hfrom.saved, hfrom.logs] using hs.saved⟩
  | restart k answers =>
    simp only [lineage, Machine.next, Machine.emit, Lineage.step]
    cases hsaved : s.saved[k]? with
    | none => exact ⟨hs.reader, hs.saved⟩
    | some saved =>
      dsimp only
      cases hopened : s.opened config partitions answers saved.reader.snapshotState.1 with
      | none => exact ⟨hs.reader, hs.saved⟩
      | some s' =>
        have hfrom := openedFrom_of_eq hopened
        refine ⟨?_, by simpa [hfrom.saved, hfrom.logs] using hs.saved⟩
        exact restarted_of_taken hs hi hsaved hfrom

end Invariant

section Draining

variable {config : KafkaSourceConfig} {partitions : Partitions} {decodePayload : D → List R} {s : Lineage D R}

theorem sum_filter_lt {α : Type} (w : α → ℕ) {P P' : α → Bool} {as : List α} {a : α}
    (himp : ∀ b, P' b = true → P b = true) (hmem : a ∈ as) (ha : P a = true) (ha' : P' a = false) :
    ((as.filter P').map w).sum + w a ≤ ((as.filter P).map w).sum := by
  have hmono : ∀ as : List α, ((as.filter P').map w).sum ≤ ((as.filter P).map w).sum := by
    intro as
    induction as with
    | nil => simp
    | cons b as ih =>
      rw [List.filter_cons, List.filter_cons]
      by_cases hb : P' b = true
      · simpa [hb, himp b hb] using ih
      · by_cases hb' : P b = true
        · simp only [hb, hb', if_true, Bool.false_eq_true, if_false, List.map_cons, List.sum_cons]
          omega
        · simpa [hb, hb'] using ih
  induction as with
  | nil => cases hmem
  | cons b as ih =>
    rw [List.filter_cons, List.filter_cons]
    rcases List.mem_cons.mp hmem with rfl | hmem
    · have := hmono as
      simp only [ha, ha', if_true, Bool.false_eq_true, if_false, List.map_cons, List.sum_cons]
      omega
    · have hih := ih hmem
      by_cases hb : P' b = true
      · simp only [hb, himp b hb, if_true, List.map_cons, List.sum_cons]
        omega
      · by_cases hb' : P b = true
        · simp only [hb, hb', if_true, Bool.false_eq_true, if_false, List.map_cons, List.sum_cons]
          omega
        · simpa [hb, hb'] using hih

theorem sum_map_lt {α : Type} {f g : α → ℕ} {as : List α} {a : α} {c : ℕ} (hle : ∀ b, g b ≤ f b)
    (hmem : a ∈ as) (ha : g a + c ≤ f a) : (as.map g).sum + c ≤ (as.map f).sum := by
  have hmono : ∀ as : List α, (as.map g).sum ≤ (as.map f).sum := by
    intro as
    induction as with
    | nil => simp
    | cons b as ih =>
      have := hle b
      simp only [List.map_cons, List.sum_cons]
      omega
  induction as with
  | nil => cases hmem
  | cons b as ih =>
    simp only [List.map_cons, List.sum_cons]
    rcases List.mem_cons.mp hmem with rfl | hmem
    · have := hmono as
      omega
    · have := ih hmem
      have := hle b
      omega

def rowCount (decodePayload : D → List R) (r : Record D) : ℕ :=
  ((r.payload.map decodePayload).getD []).length

def Lineage.unread (s : Lineage D R) (p : ℕ) : List (Record D) :=
  match s.positions p with
  | some q => (s.logs p).records.filter fun r ↦ q ≤ r.offset
  | none => []

def Lineage.load (decodePayload : D → List R) (s : Lineage D R) (p : ℕ) : ℕ :=
  ((s.unread p).map fun r ↦ rowCount decodePayload r + 1).sum

def Lineage.backlog (decodePayload : D → List R) (s : Lineage D R) : ℕ :=
  s.reader.pending.length + (s.reader.assigned.map (s.load decodePayload)).sum

theorem backlog_popRow (s : Lineage D R) :
    s.popRow.backlog decodePayload = s.backlog decodePayload - min 1 s.reader.pending.length := by
  unfold Lineage.popRow
  split
  · next hnil => simp [hnil]
  · next row pending hpending =>
    have hload : Lineage.load decodePayload { s with
        reader := { s.reader with pending }, returned := s.returned ++ [row.1] } = s.load decodePayload := rfl
    simp only [Lineage.backlog, hload, hpending, List.length_cons]
    omega

theorem backlog_absorb {p : ℕ} (hp : p < 2 ^ 31) (hassigned : p ∈ s.reader.assigned) {q : ℤ}
    (hq : s.positions p = some q) {r : Record D} (hnext : (s.logs p).next q = some r) :
    (s.absorb config decodePayload p hp r).backlog decodePayload + 1 ≤ s.backlog decodePayload := by
  obtain ⟨hmem, hle, -⟩ := next_eq_some hnext
  have hself : (s.absorb config decodePayload p hp r).unread p =
      (s.logs p).records.filter fun r' ↦ r.offset + 1 ≤ r'.offset := by
    simp [Lineage.unread, Lineage.absorb]
  have hother : ∀ p', p' ≠ p → (s.absorb config decodePayload p hp r).unread p' = s.unread p' := by
    intro p' hne
    simp [Lineage.unread, Lineage.absorb, Function.update_of_ne hne]
  have hread : (s.absorb config decodePayload p hp r).load decodePayload p + (rowCount decodePayload r + 1) ≤
      s.load decodePayload p := by
    rw [Lineage.load, Lineage.load, hself, Lineage.unread, hq]
    refine sum_filter_lt (fun r ↦ rowCount decodePayload r + 1) (fun r' hr' ↦ ?_) hmem (by simpa using hle) ?_
    · have : r.offset + 1 ≤ r'.offset := by simpa using hr'
      simp only [decide_eq_true_eq]
      omega
    · simp only [decide_eq_false_iff_not]
      omega
  have hle : ∀ p', (s.absorb config decodePayload p hp r).load decodePayload p' ≤ s.load decodePayload p' := by
    intro p'
    rcases eq_or_ne p' p with rfl | hne
    · omega
    · rw [Lineage.load, Lineage.load, hother p' hne]
  have hsum := sum_map_lt hle hassigned hread
  have hpending : (s.absorb config decodePayload p hp r).reader.pending.length =
      s.reader.pending.length + rowCount decodePayload r := by
    simp only [Lineage.absorb, KafkaSourceReader.received, recordMessage, rowCount, List.length_append]
    cases r.payload <;> simp [decodeTagged]
  have hassigned' : (s.absorb config decodePayload p hp r).reader.assigned = s.reader.assigned := rfl
  rw [Lineage.backlog, Lineage.backlog, hpending, hassigned']
  omega

theorem popRow_frame (s : Lineage D R) : s.popRow.reader.assigned = s.reader.assigned ∧
    s.popRow.reader.consumer = s.reader.consumer := by
  unfold Lineage.popRow
  split <;> exact ⟨rfl, rfl⟩

theorem poll_frame (s : Lineage D R) (p : ℕ) :
    (s.poll config decodePayload p).reader.assigned = s.reader.assigned ∧
    (s.poll config decodePayload p).reader.consumer = s.reader.consumer := by
  rcases poll_cases config decodePayload s p with hpoll | ⟨hp, q, r, -, -, -, hpoll⟩
  · rw [hpoll]
    exact popRow_frame s
  · rw [hpoll]
    exact popRow_frame (s.absorb config decodePayload p hp r)

theorem exists_poll_lt (hconsumer : s.reader.consumer.isSome = true)
    (hassigned : ∀ p ∈ s.reader.assigned, p < 2 ^ 31) (hleft : ¬ s.Drained) :
    ∃ p, (s.poll config decodePayload p).backlog decodePayload < s.backlog decodePayload := by
  by_cases hpending : s.reader.pending = []
  · have hunread : ∃ p ∈ s.reader.assigned, ∃ q, s.positions p = some q ∧ ∃ r, (s.logs p).next q = some r := by
      by_contra hnone
      refine hleft ⟨hpending, fun p hp q hq r hr ↦ ?_⟩
      cases hnext : (s.logs p).next q with
      | none => exact next_eq_none hnext r hr
      | some r' => exact absurd ⟨p, hp, q, hq, r', hnext⟩ hnone
    obtain ⟨p, hp, q, hq, r, hnext⟩ := hunread
    refine ⟨p, ?_⟩
    rw [poll_next hpending hconsumer hp hq hnext (hassigned p hp), backlog_popRow]
    have := @backlog_absorb _ _ config decodePayload s p (hassigned p hp) hp q hq r hnext
    omega
  · refine ⟨0, ?_⟩
    rw [poll_waiting hpending, backlog_popRow]
    have hpos : 0 < s.reader.pending.length := List.length_pos_of_ne_nil hpending
    have hle : s.reader.pending.length ≤ s.backlog decodePayload := Nat.le_add_right ..
    omega

theorem exists_drained (hconsumer : s.reader.consumer.isSome = true) (hassigned : ∀ p ∈ s.reader.assigned, p < 2 ^ 31) :
    ∃ is : List (LineageInput D), (∀ i ∈ is, Reading i) ∧
      ((lineage config partitions decodePayload).run s is).Drained := by
  induction hn : s.backlog decodePayload using Nat.strong_induction_on generalizing s with
  | _ n ih =>
    by_cases hleft : s.Drained
    · exact ⟨[], by simp, hleft⟩
    · obtain ⟨p, hlt⟩ := @exists_poll_lt _ _ config decodePayload s hconsumer hassigned hleft
      obtain ⟨hsame, hcons⟩ := @poll_frame _ _ config decodePayload s p
      obtain ⟨is, hreading, hdrained⟩ := ih _ (hn ▸ hlt) (hcons ▸ hconsumer) (hsame ▸ hassigned) rfl
      refine ⟨.poll p :: is, ?_, hdrained⟩
      intro i hi
      rcases List.mem_cons.mp hi with rfl | hi
      · trivial
      · exact hreading i hi

theorem ReaderOk.reading (h : ReaderOk config partitions decodePayload s)
    {is : List (LineageInput D)} (his : ∀ i ∈ is, Reading i) :
    ReaderOk config partitions decodePayload ((lineage config partitions decodePayload).run s is) := by
  induction is generalizing s with
  | nil => exact h
  | cons i is ih =>
    refine ih ?_ fun j hj ↦ his j (List.mem_cons_of_mem i hj)
    cases i with
    | produce p gap payload => exact h.produce p gap payload
    | poll p => exact h.poll p
    | checkpoint => exact absurd (his _ List.mem_cons_self) id
    | start answers => exact absurd (his _ List.mem_cons_self) id
    | restart k answers => exact absurd (his _ List.mem_cons_self) id

theorem ReaderOk.delivers (h : ReaderOk config partitions decodePayload s)
    (hconsumer : s.reader.consumer.isSome = true) : s.Delivers config partitions decodePayload := by
  refine ⟨exists_drained hconsumer fun p hp ↦ mine_lt (h.assigned hp), fun is his hdrained row hid ↦ ?_⟩
  have hok := h.reading his
  obtain ⟨p, o, i⟩ := row
  obtain ⟨hassigned, ⟨b, hb, hle⟩, hrow⟩ := hid
  obtain ⟨q, hq, hrows⟩ := (hok.partition p (hok.assigned hassigned)).owed b hb
  obtain ⟨r, hr, hoffset, -⟩ := id hrow
  replace hoffset : r.offset = o := hoffset
  have hlt := hdrained.2 p hassigned q hq r hr
  have hmem := hrows o i hrow hle (by omega)
  rw [hdrained.1] at hmem
  simpa using hmem

end Draining

section Restarts

variable {config : KafkaSourceConfig} {partitions : Partitions} {decodePayload : D → List R} {s : Lineage D R}

theorem lineageOk_initial : LineageOk config partitions decodePayload [] (Lineage.initial config) := by
  refine ⟨⟨by simp [Lineage.initial], fun p _ ↦ ⟨?_, ?_, ?_, ?_⟩⟩, ?_⟩ <;> simp [Lineage.initial]

theorem LineageOk.restores {h : List (LineageEvent D R)}
    (hs : LineageOk config partitions decodePayload h s) {i : LineageInput D}
    (hi : TakenBetweenMessages config partitions decodePayload h s i) :
    Always (RestoresAll config partitions decodePayload) h
      ((lineage config partitions decodePayload).emit s i) := by
  cases i with
  | produce p gap payload => trivial
  | poll p => trivial
  | checkpoint => trivial
  | start answers =>
    simp only [lineage, Machine.emit, Lineage.step]
    cases s.opened config partitions answers ⟨∅⟩ with
    | none => trivial
    | some s' => trivial
  | restart k answers =>
    simp only [lineage, Machine.emit, Lineage.step]
    cases hsaved : s.saved[k]? with
    | none => trivial
    | some saved =>
      dsimp only
      cases hopened : s.opened config partitions answers saved.reader.snapshotState.1 with
      | none => trivial
      | some s' =>
        have hfrom := openedFrom_of_eq hopened
        exact ⟨⟨(restarted_of_taken hs hi hsaved hfrom).delivers hfrom.consumer,
          advances_of_taken hs hi hsaved hfrom⟩, trivial⟩

/-- Over any number of restarts from any checkpoint, when every restored
checkpoint was taken between two messages by a reader that had read all its
partitions: the restored reader delivers what was not returned before, and no
stored offset is lost or moves backwards. -/
theorem restored_reader_delivers (config : KafkaSourceConfig) (partitions : Partitions)
    (decodePayload : D → List R) {is : List (LineageInput D)}
    (hcond : (lineage config partitions decodePayload).Along
      (TakenBetweenMessages config partitions decodePayload) [] (.initial config) is) :
    Always (RestoresAll config partitions decodePayload) []
      ((lineage config partitions decodePayload).trace (.initial config) is) :=
  always_of_along (fun _ _ _ hs hi ↦ hs.step hi) (fun _ _ _ hs hi ↦ hs.restores hi) lineageOk_initial hcond

def onePartition : Partitions := ⟨[0], by decide⟩

def noAnswers : Answers := ⟨fun _ _ _ ↦ .ok [], fun _ _ ↦ .ok [], fun _ ↦ none⟩

def earliestConfig : KafkaSourceConfig := ⟨"orders", .earliest, 0, 1⟩

theorem restored_reader_delivers_between_messages :
    Always (RestoresAll earliestConfig onePartition fun data : ℕ ↦ [data]) []
      ((lineage earliestConfig onePartition fun data : ℕ ↦ [data]).trace (.initial earliestConfig)
        [.start noAnswers, .produce 0 0 (some 5), .poll 0, .checkpoint, .produce 0 2 (some 6),
          .restart 0 noAnswers, .poll 0, .checkpoint, .restart 1 noAnswers]) := by
  refine restored_reader_delivers earliestConfig onePartition (fun data : ℕ ↦ [data]) ?_
  refine ⟨trivial, trivial, trivial, trivial, trivial, ?_, trivial, trivial, ?_, trivial⟩
  all_goals
    rintro saved ⟨⟩
    refine ⟨rfl, fun p hp hlast ↦ ?_⟩
    obtain rfl : p = 0 := by simpa [mine, onePartition, earliestConfig, Nat.mod_one] using hp
    cases hlast

/-- A checkpoint between the two rows of a message loses the second row, and a
reader that reads nothing writes a state without the offset it was restored
from. -/
theorem restored_reader_loses :
    ¬ Always (RestoresAll earliestConfig onePartition fun data : ℕ ↦ [data, data]) []
      ((lineage earliestConfig onePartition fun data : ℕ ↦ [data, data]).trace (.initial earliestConfig)
        [.start noAnswers, .produce 0 0 (some 5), .poll 0, .checkpoint, .restart 0 noAnswers]) ∧
    ¬ Always (RestoresAll earliestConfig onePartition fun data : ℕ ↦ [data]) []
      ((lineage earliestConfig onePartition fun data : ℕ ↦ [data]).trace (.initial earliestConfig)
        [.start noAnswers, .produce 0 0 (some 5), .poll 0, .checkpoint, .restart 0 noAnswers, .checkpoint,
          .restart 1 noAnswers]) := by
  constructor
  · rintro ⟨⟨⟨-, hdelivers⟩, -⟩, -⟩
    have hmem := hdelivers [] (by simp) ⟨rfl, ?_⟩ (0, 0, 1) ⟨by decide, ⟨0, rfl, by decide⟩, ?_⟩
    · exact absurd hmem (by decide)
    · intro p hp q hq r hr
      obtain rfl : p = 0 := List.mem_singleton.mp hp
      cases hq
      rw [List.mem_singleton.mp hr]
      decide
    · exact ⟨⟨0, some 5⟩, List.mem_singleton.mpr rfl, rfl, 5, rfl, by decide⟩
  · rintro ⟨-, ⟨-, hadvances⟩, -⟩
    obtain ⟨o', ho', -⟩ := hadvances 0 (by decide) 0 (by decide)
    cases ho'

end Restarts

end SeaTunnel.Kafka.SourceLineage
