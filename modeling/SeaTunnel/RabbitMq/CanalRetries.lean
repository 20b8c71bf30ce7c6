import SeaTunnel.Formats.CanalPairing

namespace SeaTunnel.RabbitMq.Sink

open Formats.CanalClient Lib.Runs

variable {F V : Type}

structure RabbitMqConfig where
  batchSize : ℕ
  batchTimeoutMs : ℕ
  reconnectMaxRetries : ℕ

structure Flush (F : Type) where
  records : List (CdcRow F)
  attempt : ℕ := 0

structure RabbitMqSinkWriter (F V : Type) where
  config : RabbitMqConfig
  canalEncoder : CanalClientEncoder F V
  batch : List (CdcRow F) := []
  totalWritten : ℕ := 0
  channel : Bool := false
  lastFlush : ℕ := 0
  flushing : Option (Flush F) := none

/-- What an attempt meets: whether it can connect, the clock as it is read before
each row and after the last one, and how many messages get through before one
fails. -/
structure Attempt where
  connects : Bool := true
  clock : ℕ → ℕ := fun _ ↦ 0
  confirmed : Option ℕ := none

inductive Input (F : Type)
  | write (row : CdcRow F) (now : ℕ)
  | pollFlush (now : ℕ)
  | prepareCommit (now : ℕ)
  | attempt (a : Attempt)

inductive SinkEvent (F V : Type)
  | buffered (row : CdcRow F)
  | attempted (clock : ℕ → ℕ)
  | published (message : CanalMessage V)
  | flushed (succeeded : Bool)

/-- What an attempt published, with the message that failed, and the encoder it
left behind. -/
structure FlushResult (F V : Type) where
  published : List (CanalMessage V)
  canalEncoder : CanalClientEncoder F V
  succeeded : Bool

/-- The messages are published one by one; `none` is left when one fails. -/
def publishCanalPayloads (messages : List (CanalMessage V)) (confirmed : Option ℕ) :
    List (CanalMessage V) × Option (Option ℕ) :=
  match confirmed with
  | none => (messages, some none)
  | some n =>
    if messages.length ≤ n then (messages, some (some (n - messages.length))) else (messages.take (n + 1), none)

section Flush

variable (c : Conversions F V) [DecidableEq V]

def flushRows (clock : ℕ → ℕ) : ℕ → List (CdcRow F) → Option ℕ → CanalClientEncoder F V → FlushResult F V
  | n, [], confirmed, encoder =>
    let (messages, encoder) := encoder.expirePending c (clock n)
    let (published, confirmed) := publishCanalPayloads messages confirmed
    ⟨published, encoder, confirmed.isSome⟩
  | n, row :: rows, confirmed, encoder =>
    match encoder.encode c (clock n) row with
    | .error _ => ⟨[], encoder, false⟩
    | .ok (messages, encoder) =>
      match publishCanalPayloads messages confirmed with
      | (published, none) => ⟨published, encoder, false⟩
      | (published, some confirmed) =>
        let rest := flushRows clock (n + 1) rows confirmed encoder
        ⟨published ++ rest.published, rest.canalEncoder, rest.succeeded⟩

def flushRecords (clock : ℕ → ℕ) (records : List (CdcRow F)) (confirmed : Option ℕ)
    (encoder : CanalClientEncoder F V) : FlushResult F V :=
  if encoder.registeredTables = 0 ∧ records ≠ [] then ⟨[], encoder, false⟩
  else flushRows c clock 0 records confirmed encoder

end Flush

namespace RabbitMqSinkWriter

variable (w : RabbitMqSinkWriter F V)

def lingerDue (now : ℕ) : Bool := w.config.batchTimeoutMs ≤ now - w.lastFlush

def beginFlush (now : ℕ) : RabbitMqSinkWriter F V :=
  { w with lastFlush := now, flushing := some { records := w.batch }, batch := [] }

def write (row : CdcRow F) (now : ℕ) : RabbitMqSinkWriter F V :=
  let w := { w with batch := w.batch ++ [row] }
  if w.config.batchSize ≤ w.batch.length ∨ w.lingerDue now then w.beginFlush now else w

def pollFlush (now : ℕ) : RabbitMqSinkWriter F V :=
  if w.batch ≠ [] ∧ w.lingerDue now ∨ w.canalEncoder.hasExpiredPending now then w.beginFlush now else w

def prepareCommit (now : ℕ) : RabbitMqSinkWriter F V :=
  if w.batch ≠ [] ∨ w.canalEncoder.hasExpiredPending now then w.beginFlush now else w

def attemptFailed (flush : Flush F) : RabbitMqSinkWriter F V × List (SinkEvent F V) :=
  if w.config.reconnectMaxRetries + 1 ≤ flush.attempt + 1 then
    ({ w with channel := false, batch := flush.records, flushing := none }, [.flushed false])
  else ({ w with channel := false, flushing := some { flush with attempt := flush.attempt + 1 } }, [])

variable (c : Conversions F V) [DecidableEq V]

/-- One attempt of `flush_batch`. -/
def attemptFlush (a : Attempt) : RabbitMqSinkWriter F V × List (SinkEvent F V) :=
  match w.flushing with
  | none => (w, [])
  | some flush =>
    if w.channel ∨ a.connects then
      let result := flushRecords c a.clock flush.records a.confirmed w.canalEncoder
      let w := { w with canalEncoder := result.canalEncoder }
      let events := .attempted a.clock :: result.published.map .published
      if result.succeeded then
        ({ w with
          channel := true
          totalWritten := w.totalWritten + result.published.length
          flushing := none }, events ++ [.flushed true])
      else ((w.attemptFailed flush).1, events ++ (w.attemptFailed flush).2)
    else w.attemptFailed flush

end RabbitMqSinkWriter

section Machine

variable (c : Conversions F V) [DecidableEq V]

def sinkStep (w : RabbitMqSinkWriter F V) : Input F → RabbitMqSinkWriter F V × List (SinkEvent F V)
  | .write row now => if w.flushing.isSome then (w, []) else (w.write row now, [.buffered row])
  | .pollFlush now => if w.flushing.isSome then (w, []) else (w.pollFlush now, [])
  | .prepareCommit now => if w.flushing.isSome then (w, []) else (w.prepareCommit now, [])
  | .attempt a => w.attemptFlush c a

def sink : Machine (RabbitMqSinkWriter F V) (Input F) (SinkEvent F V) where
  step := sinkStep c

end Machine

end SeaTunnel.RabbitMq.Sink

namespace SeaTunnel.RabbitMq.CanalRetries

open Formats.CanalClient CanalClientEncoder Lib.Runs Sink

variable {F V : Type} (c : Conversions F V) [DecidableEq V]

section Spec

/-- A run without failures over the same rows: of the attempts that were made some
flush what is waiting, each at its own time, and the others do not take place. -/
inductive Undisturbed (encoder₀ : CanalClientEncoder F V) :
    List (SinkEvent F V) → CanalClientEncoder F V → List (CdcRow F) → List (CanalMessage V) → Prop
  | start : Undisturbed encoder₀ [] encoder₀ [] []
  | buffered {h : List (SinkEvent F V)} {encoder : CanalClientEncoder F V} {rows : List (CdcRow F)}
      {messages : List (CanalMessage V)} (row : CdcRow F) :
      Undisturbed encoder₀ h encoder rows messages →
      Undisturbed encoder₀ (h ++ [.buffered row]) encoder (rows ++ [row]) messages
  | skip {h : List (SinkEvent F V)} {encoder : CanalClientEncoder F V} {rows : List (CdcRow F)}
      {messages : List (CanalMessage V)} (e : SinkEvent F V) (he : ∀ row, e ≠ .buffered row) :
      Undisturbed encoder₀ h encoder rows messages → Undisturbed encoder₀ (h ++ [e]) encoder rows messages
  | flush {h : List (SinkEvent F V)} {encoder encoder' : CanalClientEncoder F V} {rows : List (CdcRow F)}
      {messages published : List (CanalMessage V)} (clock : ℕ → ℕ) :
      Undisturbed encoder₀ h encoder rows messages →
      flushRecords c clock rows none encoder = ⟨published, encoder', true⟩ →
      Undisturbed encoder₀ (h ++ [.attempted clock]) encoder' [] (messages ++ published)

def waiting (w : RabbitMqSinkWriter F V) : List (CdcRow F) := (w.flushing.map Flush.records).getD [] ++ w.batch

/-- How many rows an attempt encodes; one more where it comes to what has expired,
behind the last. -/
def reached (clock : ℕ → ℕ) : ℕ → List (CdcRow F) → Option ℕ → CanalClientEncoder F V → ℕ
  | _, [], _, _ => 1
  | n, row :: rows, confirmed, encoder =>
    match encoder.encode c (clock n) row with
    | .error _ => 0
    | .ok (messages, encoder) =>
      match (publishCanalPayloads messages confirmed).2 with
      | none => 1
      | some confirmed => reached clock (n + 1) rows confirmed encoder + 1

def IsImageOf (encoder : CanalClientEncoder F V) (table : String) (row : CdcRow F) : Prop :=
  (encoder.stateFor row).toOption = some table ∧ isImage row.kind = true

/-- Of the rows in front of the `stop`, row `i` is the last image of the table. -/
structure LastImage (encoder : CanalClientEncoder F V) (table : String) (rows : List (CdcRow F)) (stop i : ℕ)
    (row : CdcRow F) : Prop where
  lt : i < stop
  get : rows[i]? = some row
  image : IsImageOf encoder table row
  last : ∀ j other, i < j → j < stop → rows[j]? = some other → ¬ IsImageOf encoder table other

def Untouched (encoder : CanalClientEncoder F V) (table : String) (rows : List (CdcRow F)) (stop : ℕ) : Prop :=
  ∀ j other, j < stop → rows[j]? = some other → ¬ IsImageOf encoder table other

/-- A failure in front of the `stop` does no harm to a table: no image of it was
encoded, and the one that is held not given up; or the last of them is an
after-image or given up, and the batch begins with a before-image where one was
held; or the last is a before-image that was already held. -/
inductive Harmless (clock : ℕ → ℕ) (encoder : CanalClientEncoder F V) (table : String) (rows : List (CdcRow F))
    (stop : ℕ) : Prop
  | untouched (huntouched : Untouched encoder table rows stop)
      (hkept : stop ≤ rows.length ∨ ∀ held ∈ heldImage table encoder,
        clock rows.length - held.since < encoder.config.pairingWindowMs)
  | settled (i : ℕ) (row : CdcRow F) (hlast : LastImage encoder table rows stop i row)
      (hclosed : row.kind = .updateAfter ∨
        rows.length < stop ∧ encoder.config.pairingWindowMs ≤ clock rows.length - clock i)
      (hfront : heldImage table encoder = none ∨ firstImage encoder table rows = some .updateBefore)
  | reheld (i : ℕ) (row : CdcRow F) (hlast : LastImage encoder table rows stop i row)
      (hkept : stop ≤ rows.length ∨ clock rows.length - clock i < encoder.config.pairingWindowMs)
      (hheld : heldImage table encoder = imageHeld c encoder table (clock i) row)

/-- An attempt that fails does so where it harms no table. -/
def FailsHarmlessly (w : RabbitMqSinkWriter F V) : Input F → Prop
  | .attempt a => ∀ flush, w.flushing = some flush →
      (flushRecords c a.clock flush.records a.confirmed w.canalEncoder).succeeded = false → ∀ table,
      Harmless c a.clock w.canalEncoder table flush.records
        (reached c a.clock 0 flush.records a.confirmed w.canalEncoder)
  | _ => True

end Spec

section Reached

variable {encoder encoder' : CanalClientEncoder F V} {table : String} {row : CdcRow F} {rows : List (CdcRow F)} {now n : ℕ}

omit [DecidableEq V] in
theorem IsImageOf.of_skeleton (hskeleton : encoder'.skeleton = encoder.skeleton) :
    IsImageOf encoder' table row ↔ IsImageOf encoder table row := by
  rw [IsImageOf, IsImageOf, stateFor_of_skeleton hskeleton]

variable (table) in
theorem heldImage_encode {messages : List (CanalMessage V)} (h : encoder.encode c now row = .ok (messages, encoder')) :
    encoder'.skeleton = encoder.skeleton ∧
      (IsImageOf encoder table row → heldImage table encoder' = imageHeld c encoder table now row) ∧
      (¬ IsImageOf encoder table row → heldImage table encoder' = heldImage table encoder) := by
  obtain ⟨served, state, hserved, hlookup⟩ := serves_of_encode c h
  obtain ⟨_, hencode, hskeleton, hheld⟩ := encode_spec c now hserved hlookup
  cases h.symm.trans hencode
  refine ⟨hskeleton, fun himage ↦ ?_, fun hother ↦ ?_⟩
  · obtain rfl : served = table := Option.some.inj ((congrArg Except.toOption hserved).symm.trans himage.1)
    rw [hheld, if_pos rfl, imageHeld, hlookup, Option.bind_some]
  · rw [hheld]
    split
    · next heq =>
      have hkind : isImage row.kind = false := by
        rw [Bool.eq_false_iff]
        exact fun hkind ↦ hother ⟨heq ▸ congrArg Except.toOption hserved, hkind⟩
      rw [nextHeld_other c hkind, heq, heldImage, hlookup, Option.bind_some]
    · rfl

omit [DecidableEq V] in
theorem imageHeld_of_skeleton (hskeleton : encoder'.skeleton = encoder.skeleton) (himage : isImage row.kind = true) :
    imageHeld c encoder' table now row = imageHeld c encoder table now row := by
  have hheld (e : CanalClientEncoder F V) : imageHeld c e table now row =
      ((e.tables.lookup table).map (·.holding none)).bind (nextHeld c now row) := by
    rw [imageHeld]
    cases e.tables.lookup table with
    | none => rfl
    | some state => exact (nextHeld_image c himage none).symm
  rw [hheld, hheld, ← lookup_skeleton, ← lookup_skeleton, hskeleton]

/-- What has expired is given up behind the last row. -/
def giveUp (clock : ℕ → ℕ) (n : ℕ) (encoder : CanalClientEncoder F V) (rows : List (CdcRow F)) (stop : ℕ)
    (held : Option (PendingDelete F V)) : Option (PendingDelete F V) :=
  if rows.length < stop then held.filter fun held ↦ clock (n + rows.length) - held.since < encoder.config.pairingWindowMs
  else held

omit [DecidableEq V] in
theorem giveUp_cons {clock : ℕ → ℕ} {stop : ℕ} {held : Option (PendingDelete F V)}
    (hskeleton : encoder'.skeleton = encoder.skeleton) :
    giveUp clock n encoder (row :: rows) (stop + 1) held = giveUp clock (n + 1) encoder' rows stop held := by
  have hconfig : encoder'.config = encoder.config := congrArg (·.config) hskeleton
  rw [giveUp, giveUp, List.length_cons, hconfig, Nat.add_right_comm, Nat.add_assoc]
  simp only [Nat.add_lt_add_iff_right]

theorem heldImage_flushRows (clock : ℕ → ℕ) (n : ℕ) (confirmed : Option ℕ) :
    let stop := reached c clock n rows confirmed encoder
    let left := (flushRows c clock n rows confirmed encoder).canalEncoder
    (Untouched encoder table rows stop →
      heldImage table left = giveUp clock n encoder rows stop (heldImage table encoder)) ∧
    ∀ i row, LastImage encoder table rows stop i row →
      heldImage table left = giveUp clock n encoder rows stop (imageHeld c encoder table (clock (n + i)) row) := by
  induction rows generalizing n confirmed encoder with
  | nil =>
    refine ⟨fun _ ↦ ?_, fun i row hlast ↦ nomatch hlast.get⟩
    rw [flushRows, giveUp, if_pos (by rw [reached]; exact Nat.one_pos)]
    exact heldImage_expirePending c table
  | cons row rows ih =>
    dsimp only
    rw [flushRows, reached]
    cases hencode : encoder.encode c (clock n) row with
    | error e =>
      refine ⟨fun _ ↦ ?_, fun i other hlast ↦ absurd hlast.lt (Nat.not_lt_zero i)⟩
      rw [giveUp, if_neg (Nat.not_lt_zero _)]
    | ok out =>
      obtain ⟨messages, encoder'⟩ := out
      obtain ⟨hskeleton, himage, hother⟩ := heldImage_encode c table hencode
      dsimp only
      rcases hpublish : publishCanalPayloads messages confirmed with ⟨published, _ | confirmed'⟩
      · -- the attempt stops behind this row
        dsimp only
        have hkept (held : Option (PendingDelete F V)) : giveUp clock n encoder (row :: rows) 1 held = held :=
          if_neg (Nat.not_lt.mpr (Nat.succ_pos _))
        refine ⟨fun hnone ↦ ?_, fun i other hlast ↦ ?_⟩
        · rw [hkept, hother (hnone 0 row Nat.one_pos rfl)]
        · obtain rfl : i = 0 := Nat.lt_one_iff.mp hlast.lt
          obtain rfl : row = other := Option.some.inj hlast.get
          rw [hkept, himage hlast.image, Nat.add_zero]
      · dsimp only
        obtain ⟨huntouched, hlasts⟩ := @ih encoder' (n + 1) confirmed'
        have hrest (stop j : ℕ) (hj : ∀ i other, j < i → i < stop + 1 → (row :: rows)[i]? = some other →
            ¬ IsImageOf encoder table other) (i : ℕ) (other : CdcRow F) (hi : j ≤ i) (hlt : i < stop)
            (hget : rows[i]? = some other) : ¬ IsImageOf encoder' table other := by
          rw [IsImageOf.of_skeleton hskeleton]
          exact hj (i + 1) other (by omega) (by omega) (by rwa [List.getElem?_cons_succ])
        refine ⟨fun hnone ↦ ?_, fun i other hlast ↦ ?_⟩
        · rw [giveUp_cons hskeleton, ← hother (hnone 0 row (Nat.succ_pos _) rfl)]
          exact huntouched fun j other hlt hget ↦ hrest _ 0 (fun i other _ ↦ hnone i other) j other (Nat.zero_le j) hlt hget
        · rw [giveUp_cons hskeleton]
          cases i with
          | zero =>
            obtain rfl : row = other := Option.some.inj hlast.get
            have hplace : clock (n + 0) = clock n := rfl
            rw [hplace, ← himage hlast.image]
            exact huntouched fun j other hlt hget ↦ hrest _ 0 hlast.last j other (Nat.zero_le j) hlt hget
          | succ i =>
            have hget : rows[i]? = some other := by rw [← hlast.get, List.getElem?_cons_succ]
            have hplace : n + (i + 1) = n + 1 + i := by omega
            rw [← imageHeld_of_skeleton c hskeleton hlast.image.2, hplace]
            refine hlasts i other ⟨Nat.lt_of_succ_lt_succ hlast.lt, hget,
              (IsImageOf.of_skeleton hskeleton).mpr hlast.image, fun j later hij hlt hget ↦ ?_⟩
            exact hrest _ (i + 1) hlast.last j later hij hlt hget

omit [DecidableEq V] in
theorem giveUp_of_kept {clock : ℕ → ℕ} {stop : ℕ} {held : Option (PendingDelete F V)}
    (hkept : stop ≤ rows.length ∨ ∀ p ∈ held, clock (n + rows.length) - p.since < encoder.config.pairingWindowMs) :
    giveUp clock n encoder rows stop held = held := by
  unfold giveUp
  split
  · next hlt =>
    cases held with
    | none => rfl
    | some p => simp [Option.filter, hkept.resolve_left (Nat.not_le.mpr hlt) p rfl]
  · rfl

omit [DecidableEq V] in
theorem giveUp_of_expired {clock : ℕ → ℕ} {stop : ℕ} {held : Option (PendingDelete F V)} (hlt : rows.length < stop)
    (hexpired : ∀ p ∈ held, encoder.config.pairingWindowMs ≤ clock (n + rows.length) - p.since) :
    giveUp clock n encoder rows stop held = none := by
  rw [giveUp, if_pos hlt]
  cases held with
  | none => rfl
  | some p => simp [Option.filter, hexpired p rfl]

theorem Harmless.aligned {clock : ℕ → ℕ} {confirmed : Option ℕ}
    (h : Harmless c clock encoder table rows (reached c clock 0 rows confirmed encoder)) :
    heldImage table (flushRecords c clock rows confirmed encoder).canalEncoder = heldImage table encoder ∨
      heldImage table (flushRecords c clock rows confirmed encoder).canalEncoder = none ∧
        firstImage encoder table rows = some .updateBefore := by
  unfold flushRecords
  split
  · exact .inl rfl
  obtain ⟨huntouched, hlasts⟩ := @heldImage_flushRows _ _ c _ encoder table rows clock 0 confirmed
  have hclock (i : ℕ) : clock (0 + i) = clock i := congrArg clock (Nat.zero_add i)
  cases h with
  | untouched hnone hkept =>
    rw [← hclock] at hkept
    exact .inl ((huntouched hnone).trans (giveUp_of_kept hkept))
  | settled i row hlast hclosed hfront =>
    have hnone : heldImage table (flushRows c clock 0 rows confirmed encoder).canalEncoder = none := by
      rw [hlasts i row hlast, hclock]
      rcases hclosed with hafter | ⟨hlt, hexpired⟩
      · rw [imageHeld_updateAfter c hafter]
        exact giveUp_of_kept (.inr nofun)
      · refine giveUp_of_expired hlt fun p hp ↦ ?_
        rwa [since_imageHeld c hlast.image.2 hp, hclock]
    rcases hfront with hheld | hfirst
    · exact .inl (hnone.trans hheld.symm)
    · exact .inr ⟨hnone, hfirst⟩
  | reheld i row hlast hkept hheld =>
    rw [hlasts i row hlast, hclock, hheld]
    refine .inl (giveUp_of_kept (hkept.imp_right fun hlt p hp ↦ ?_))
    rwa [since_imageHeld c hlast.image.2 hp, hclock]

end Reached

section Flush

variable {encoder left : CanalClientEncoder F V} {rows : List (CdcRow F)}

omit [DecidableEq V] in
theorem publishCanalPayloads_subset (messages : List (CanalMessage V)) (confirmed : Option ℕ) :
    (publishCanalPayloads messages confirmed).1 ⊆ messages := by
  unfold publishCanalPayloads
  split
  · exact List.Subset.refl _
  · split
    · exact List.Subset.refl _
    · exact List.take_subset _ _

theorem flushRows_aligned (clock : ℕ → ℕ) (n : ℕ) (confirmed : Option ℕ) (h : Aligned rows left encoder)
    (hserves : ∀ row ∈ rows, left.Serves row) :
    ∃ published encoder', flushRows c clock n rows none encoder = ⟨published, encoder', true⟩ ∧
      (flushRows c clock n rows confirmed left).published ⊆ published ∧
      ((flushRows c clock n rows confirmed left).succeeded = true →
        Aligned [] (flushRows c clock n rows confirmed left).canalEncoder encoder') := by
  induction rows generalizing n confirmed left encoder with
  | nil =>
    obtain ⟨hsubset, haligned⟩ : (left.expirePending c (clock n)).1 ⊆ (encoder.expirePending c (clock n)).1 ∧
        Aligned [] (left.expirePending c (clock n)).2 (encoder.expirePending c (clock n)).2 := h.expirePending c
    exact ⟨_, _, rfl, List.Subset.trans (publishCanalPayloads_subset _ _) hsubset, fun _ ↦ haligned⟩
  | cons row rows ih =>
    obtain ⟨table, state, htable, hlookup⟩ := hserves row (by simp)
    obtain ⟨left', hleft, hskeleton, -⟩ := encode_spec c (clock n) htable hlookup
    obtain ⟨messages', encoder', hencoder, hmessages, haligned⟩ := h.encode c hleft
    have hserves' : ∀ row ∈ rows, left'.Serves row := fun row hrow ↦
      (hserves row (by simp [hrow])).of_skeleton hskeleton.symm
    have hfirst := publishCanalPayloads_subset (state.encode c (clock n) row).1 confirmed
    rw [flushRows, hencoder, flushRows, hleft]
    dsimp only
    rcases hpublish : publishCanalPayloads (state.encode c (clock n) row).1 confirmed with ⟨published, _ | confirmed'⟩
    · obtain ⟨published', encoder'', hrun, -, -⟩ := ih (n + 1) none haligned hserves'
      rw [hpublish] at hfirst
      refine ⟨messages' ++ published', encoder'', by simp [publishCanalPayloads, hrun], ?_, nofun⟩
      exact List.subset_append_of_subset_left _ (List.Subset.trans hfirst hmessages)
    · obtain ⟨published', encoder'', hrun, hsubset, hdone⟩ := ih (n + 1) confirmed' haligned hserves'
      rw [hpublish] at hfirst
      refine ⟨messages' ++ published', encoder'', by simp [publishCanalPayloads, hrun], ?_, hdone⟩
      exact List.append_subset.mpr ⟨List.subset_append_of_subset_left _ (List.Subset.trans hfirst hmessages),
        List.subset_append_of_subset_right _ hsubset⟩

theorem flushRows_serves (clock : ℕ → ℕ) (n : ℕ) (confirmed : Option ℕ)
    (hdone : (flushRows c clock n rows confirmed left).succeeded = true) : ∀ row ∈ rows, left.Serves row := by
  induction rows generalizing n confirmed left with
  | nil => nofun
  | cons row rows ih =>
    rw [flushRows] at hdone
    split at hdone
    · cases hdone
    next messages left' hencode =>
    have hrow := serves_of_encode c hencode
    obtain ⟨table, state, htable, hlookup⟩ := hrow
    obtain ⟨_, hleft, hskeleton, -⟩ := encode_spec c (clock n) htable hlookup
    cases hencode.symm.trans hleft
    split at hdone
    · cases hdone
    · intro row' hmem
      rcases List.mem_cons.mp hmem with rfl | hmem
      · exact ⟨table, state, htable, hlookup⟩
      · exact (ih (n + 1) _ hdone row' hmem).of_skeleton hskeleton

theorem flushRows_skeleton (clock : ℕ → ℕ) (n : ℕ) (confirmed : Option ℕ) :
    (flushRows c clock n rows confirmed left).canalEncoder.skeleton = left.skeleton := by
  induction rows generalizing n confirmed left with
  | nil => exact skeleton_expirePending c
  | cons row rows ih =>
    rw [flushRows]
    split
    · rfl
    next messages left' hencode =>
    obtain ⟨table, state, htable, hlookup⟩ := serves_of_encode c hencode
    obtain ⟨_, hleft, hskeleton, -⟩ := encode_spec c (clock n) htable hlookup
    cases hencode.symm.trans hleft
    split
    · exact hskeleton
    · exact (ih (n + 1) _).trans hskeleton

theorem flushRecords_of_serves {clock : ℕ → ℕ} {confirmed : Option ℕ} (hserves : ∀ row ∈ rows, left.Serves row) :
    flushRecords c clock rows confirmed left = flushRows c clock 0 rows confirmed left := by
  refine if_neg fun hnone ↦ ?_
  obtain ⟨row, hrow⟩ := List.exists_mem_of_ne_nil rows hnone.2
  exact (hserves row hrow).registered hnone.1

theorem flushRecords_serves {clock : ℕ → ℕ} {confirmed : Option ℕ}
    (hdone : (flushRecords c clock rows confirmed left).succeeded = true) : ∀ row ∈ rows, left.Serves row := by
  unfold flushRecords at hdone
  split at hdone
  · cases hdone
  · exact flushRows_serves c clock 0 confirmed hdone

theorem flushRecords_skeleton (clock : ℕ → ℕ) (rows : List (CdcRow F)) (confirmed : Option ℕ)
    (left : CanalClientEncoder F V) :
    (flushRecords c clock rows confirmed left).canalEncoder.skeleton = left.skeleton := by
  unfold flushRecords
  split
  · rfl
  · exact flushRows_skeleton c clock 0 confirmed

theorem flushRecords_aligned (clock : ℕ → ℕ) (confirmed : Option ℕ) (h : Aligned rows left encoder)
    (hserves : ∀ row ∈ rows, left.Serves row) :
    ∃ published encoder', flushRecords c clock rows none encoder = ⟨published, encoder', true⟩ ∧
      (flushRecords c clock rows confirmed left).published ⊆ published ∧
      ((flushRecords c clock rows confirmed left).succeeded = true →
        Aligned [] (flushRecords c clock rows confirmed left).canalEncoder encoder') := by
  rw [flushRecords_of_serves c hserves, flushRecords_of_serves c fun row hrow ↦ (hserves row hrow).of_skeleton h.skeleton]
  exact flushRows_aligned c clock 0 confirmed h hserves

end Flush

section Reference

variable {encoder₀ encoder : CanalClientEncoder F V} {h : List (SinkEvent F V)} {rows : List (CdcRow F)}
  {messages : List (CanalMessage V)}

theorem Undisturbed.skeleton (hrun : Undisturbed c encoder₀ h encoder rows messages) :
    encoder.skeleton = encoder₀.skeleton := by
  induction hrun with
  | start => rfl
  | buffered row hrun ih => exact ih
  | skip e he hrun ih => exact ih
  | @flush h encoder encoder' rows messages published clock hrun hflush ih =>
    have hskeleton := flushRecords_skeleton c clock rows none encoder
    rw [hflush] at hskeleton
    exact hskeleton.trans ih

theorem Undisturbed.skips (hrun : Undisturbed c encoder₀ h encoder rows messages) {es : List (SinkEvent F V)}
    (hes : ∀ e ∈ es, ∀ row, e ≠ .buffered row) : Undisturbed c encoder₀ (h ++ es) encoder rows messages := by
  induction es generalizing h with
  | nil => rwa [List.append_nil]
  | cons e es ih =>
    rw [List.append_cons]
    exact ih (hrun.skip e (hes e (by simp))) fun e' he' ↦ hes e' (by simp [he'])

theorem Undisturbed.flushes (hrun : Undisturbed c encoder₀ h encoder rows messages)
    (hserves : ∀ row ∈ rows, encoder₀.Serves row) (clock : ℕ → ℕ) :
    ∃ encoder' published, Undisturbed c encoder₀ (h ++ [.attempted clock]) encoder' [] (messages ++ published) := by
  have hserves' : ∀ row ∈ rows, encoder.Serves row := fun row hrow ↦
    (hserves row hrow).of_skeleton hrun.skeleton.symm
  obtain ⟨published, encoder', hflush, -⟩ := flushRecords_aligned c clock none (Aligned.refl rows encoder) hserves'
  exact ⟨encoder', published, hrun.flush clock hflush⟩

end Reference

section Run

variable {encoder₀ : CanalClientEncoder F V} {h : List (SinkEvent F V)} {w w' : RabbitMqSinkWriter F V}

structure Follows (encoder₀ : CanalClientEncoder F V) (h : List (SinkEvent F V)) (w : RabbitMqSinkWriter F V) :
    Prop where
  skeleton : w.canalEncoder.skeleton = encoder₀.skeleton
  taken : w.flushing.isSome → w.batch = []
  reference : ∃ encoder messages, Undisturbed c encoder₀ h encoder (waiting w) messages ∧
    Aligned (waiting w) w.canalEncoder encoder
  published : ∀ m, .published m ∈ h → (∀ row ∈ waiting w, encoder₀.Serves row) →
    ∃ encoder rows messages, Undisturbed c encoder₀ h encoder rows messages ∧ m ∈ messages ∧ rows <:+ waiting w

variable {c}

theorem Follows.of_waiting (hw : Follows c encoder₀ h w) (hencoder : w'.canalEncoder = w.canalEncoder)
    (hwaiting : waiting w' = waiting w) (htaken : w'.flushing.isSome → w'.batch = []) : Follows c encoder₀ h w' where
  skeleton := hencoder ▸ hw.skeleton
  taken := htaken
  reference := by rw [hencoder, hwaiting]; exact hw.reference
  published := by rw [hwaiting]; exact hw.published

theorem Follows.skips (hw : Follows c encoder₀ h w) {es : List (SinkEvent F V)}
    (hes : ∀ e ∈ es, (∀ row, e ≠ .buffered row) ∧ ∀ m, e ≠ .published m) : Follows c encoder₀ (h ++ es) w where
  skeleton := hw.skeleton
  taken := hw.taken
  reference := by
    obtain ⟨encoder, messages, hrun, haligned⟩ := hw.reference
    exact ⟨encoder, messages, hrun.skips c fun e he ↦ (hes e he).1, haligned⟩
  published m hm hserves := by
    have hold : .published m ∈ h := (List.mem_append.mp hm).resolve_right fun he ↦ (hes _ he).2 m rfl
    obtain ⟨encoder, rows, messages, hrun, hmem, hrows⟩ := hw.published m hold hserves
    exact ⟨encoder, rows, messages, hrun.skips c fun e he ↦ (hes e he).1, hmem, hrows⟩

omit [DecidableEq V] in
theorem waiting_beginFlush (hidle : w.flushing = none) (now : ℕ) : waiting (w.beginFlush now) = waiting w := by
  simp [waiting, RabbitMqSinkWriter.beginFlush, hidle]

theorem Follows.beginFlush (hw : Follows c encoder₀ h w) (hidle : w.flushing = none) (now : ℕ) :
    Follows c encoder₀ h (w.beginFlush now) :=
  hw.of_waiting rfl (waiting_beginFlush hidle now) fun _ ↦ rfl

theorem Follows.write (hw : Follows c encoder₀ h w) (hidle : w.flushing = none) (row : CdcRow F) (now : ℕ) :
    Follows c encoder₀ (h ++ [.buffered row]) (w.write row now) := by
  have hwaiting : waiting { w with batch := w.batch ++ [row] } = waiting w ++ [row] := by simp [waiting]
  have hpush : Follows c encoder₀ (h ++ [.buffered row]) { w with batch := w.batch ++ [row] } := by
    refine ⟨hw.skeleton, by simp [hidle], ?_, fun m hm hserves ↦ ?_⟩
    · obtain ⟨encoder, messages, hrun, haligned⟩ := hw.reference
      rw [hwaiting]
      exact ⟨encoder, messages, hrun.buffered row, haligned.append [row]⟩
    · rw [hwaiting] at hserves ⊢
      have hold : .published m ∈ h := by simpa using hm
      obtain ⟨encoder, rows, messages, hrun, hmem, hrows⟩ := hw.published m hold fun r hr ↦ hserves r (by simp [hr])
      exact ⟨encoder, rows ++ [row], messages, hrun.buffered row, hmem, List.suffix_append_self_iff.mpr hrows⟩
  unfold RabbitMqSinkWriter.write
  dsimp only
  split
  · exact hpush.beginFlush hidle now
  · exact hpush

theorem attemptFailed_follows (hw : Follows c encoder₀ h w) {flush : Flush F} (hflushing : w.flushing = some flush) :
    Follows c encoder₀ (h ++ (w.attemptFailed flush).2) (w.attemptFailed flush).1 := by
  have hbatch : w.batch = [] := hw.taken (by rw [hflushing]; rfl)
  have hfailed : Follows c encoder₀ h (w.attemptFailed flush).1 := by
    unfold RabbitMqSinkWriter.attemptFailed
    split
    · exact hw.of_waiting rfl (by simp [waiting, hflushing, hbatch]) nofun
    · exact hw.of_waiting rfl (by simp [waiting, hflushing]) fun _ ↦ hbatch
  refine hfailed.skips fun e he ↦ ?_
  unfold RabbitMqSinkWriter.attemptFailed at he
  split at he
  · rw [List.mem_singleton] at he
    subst he
    exact ⟨nofun, nofun⟩
  · cases he

omit [DecidableEq V] in
theorem mem_attempted {clock : ℕ → ℕ} {published : List (CanalMessage V)} {m : CanalMessage V}
    (hm : SinkEvent.published m ∈ h ++ SinkEvent.attempted (F := F) clock :: published.map .published) :
    .published m ∈ h ∨ m ∈ published := by
  simpa using hm

theorem Undisturbed.attempt {encoder : CanalClientEncoder F V} {rows : List (CdcRow F)}
    {messages : List (CanalMessage V)} {clock : ℕ → ℕ} {published : List (CanalMessage V)}
    (hrun : Undisturbed c encoder₀ (h ++ [.attempted clock]) encoder rows messages) :
    Undisturbed c encoder₀ (h ++ .attempted clock :: published.map .published) encoder rows messages := by
  rw [List.append_cons]
  refine hrun.skips c fun e he ↦ ?_
  obtain ⟨m, -, rfl⟩ := List.mem_map.mp he
  nofun

theorem Follows.attempted (hw : Follows c encoder₀ h w) {a : Attempt} {flush : Flush F}
    (hflushing : w.flushing = some flush) (hleaves : FailsHarmlessly c w (.attempt a)) :
    let result := flushRecords c a.clock flush.records a.confirmed w.canalEncoder
    let events : List (SinkEvent F V) := .attempted a.clock :: result.published.map .published
    let w' := { w with canalEncoder := result.canalEncoder }
    (result.succeeded = false → Follows c encoder₀ (h ++ events) w') ∧
      (result.succeeded = true → Follows c encoder₀ (h ++ events) { w' with flushing := none }) := by
  intro result events w'
  have hbatch : w.batch = [] := hw.taken (by rw [hflushing]; rfl)
  have hwaiting : waiting w = flush.records := by simp [waiting, hflushing, hbatch]
  have hwaiting' : waiting w' = flush.records := hwaiting
  have hskeleton : result.canalEncoder.skeleton = encoder₀.skeleton :=
    (flushRecords_skeleton c a.clock flush.records a.confirmed w.canalEncoder).trans hw.skeleton
  obtain ⟨encoder, messages, hrun, haligned⟩ := hw.reference
  rw [hwaiting] at hrun haligned
  have hnew (hserves : ∀ row ∈ flush.records, encoder₀.Serves row) :
      ∃ encoder' published, Undisturbed c encoder₀ (h ++ events) encoder' [] (messages ++ published) ∧
        result.published ⊆ published ∧ (result.succeeded = true → Aligned [] result.canalEncoder encoder') := by
    obtain ⟨published, encoder', hflush, hsubset, hdone⟩ := flushRecords_aligned c a.clock a.confirmed haligned
      fun row hrow ↦ (hserves row hrow).of_skeleton hw.skeleton.symm
    exact ⟨encoder', published, (hrun.flush a.clock hflush).attempt, hsubset, hdone⟩
  constructor
  · intro hfailed
    refine ⟨hskeleton, hw.taken, ⟨encoder, messages, ?_, ?_⟩, fun m hm hserves ↦ ?_⟩
    · rw [hwaiting']
      exact (hrun.skip (.attempted a.clock) nofun).attempt
    · rw [hwaiting']
      have hleft : Aligned flush.records result.canalEncoder w.canalEncoder :=
        ⟨hskeleton.trans hw.skeleton.symm, fun table ↦ (hleaves flush hflushing hfailed table).aligned c⟩
      exact hleft.trans haligned
    · rw [hwaiting'] at hserves ⊢
      rcases mem_attempted hm with hold | hpublished
      · obtain ⟨encoder', rows, messages', hrun', hmem, hrows⟩ := hw.published m hold (by rwa [hwaiting])
        exact ⟨encoder', rows, messages', (hrun'.skip (.attempted a.clock) nofun).attempt, hmem, hwaiting ▸ hrows⟩
      · obtain ⟨encoder', published, hrun', hsubset, -⟩ := hnew hserves
        exact ⟨encoder', [], _, hrun', List.mem_append_right _ (hsubset hpublished), List.nil_suffix⟩
  · intro hdone
    have hserves : ∀ row ∈ flush.records, encoder₀.Serves row := fun row hrow ↦
      (flushRecords_serves c hdone row hrow).of_skeleton hw.skeleton
    have hempty : waiting { w' with flushing := none } = [] := by simp [waiting, w', hbatch]
    obtain ⟨encoder', published, hrun', hsubset, haligned'⟩ := hnew hserves
    refine ⟨hskeleton, nofun, ⟨encoder', _, hempty ▸ hrun', hempty ▸ haligned' hdone⟩, fun m hm _ ↦ ?_⟩
    rw [hempty]
    rcases mem_attempted hm with hold | hpublished
    · obtain ⟨other, rows, messages', hother, hmem, hrows⟩ := hw.published m hold (by rwa [hwaiting])
      rw [hwaiting] at hrows
      obtain ⟨other', published', hother'⟩ := hother.flushes c (fun row hrow ↦ hserves row (hrows.subset hrow)) a.clock
      exact ⟨other', [], _, hother'.attempt, List.mem_append_left _ hmem, List.nil_suffix⟩
    · exact ⟨encoder', [], _, hrun', List.mem_append_right _ (hsubset hpublished), List.nil_suffix⟩

theorem Follows.attemptFlush (hw : Follows c encoder₀ h w) {a : Attempt} (hleaves : FailsHarmlessly c w (.attempt a)) :
    Follows c encoder₀ (h ++ (w.attemptFlush c a).2) (w.attemptFlush c a).1 := by
  unfold RabbitMqSinkWriter.attemptFlush
  split
  · rwa [List.append_nil]
  next flush hflushing =>
  split
  swap
  · exact attemptFailed_follows hw hflushing
  obtain ⟨hfailed, hdone⟩ := hw.attempted hflushing hleaves
  dsimp only
  split
  · next hsucceeded =>
    rw [← List.append_assoc]
    have hflushed : ∀ e ∈ [SinkEvent.flushed true], (∀ row : CdcRow F, e ≠ .buffered row) ∧
        ∀ m : CanalMessage V, e ≠ .published m := by
      intro e he
      rw [List.mem_singleton] at he
      subst he
      exact ⟨nofun, nofun⟩
    exact ((hdone hsucceeded).skips hflushed).of_waiting rfl rfl nofun
  · next hsucceeded =>
    rw [← List.append_assoc]
    exact attemptFailed_follows (hfailed (Bool.not_eq_true _ ▸ hsucceeded)) hflushing

theorem Follows.next (hw : Follows c encoder₀ h w) {i : Input F} (hi : FailsHarmlessly c w i) :
    Follows c encoder₀ (h ++ (sink c).emit w i) ((sink c).next w i) := by
  have hcall (now : ℕ) (hidle : ¬ w.flushing.isSome = true) : Follows c encoder₀ h (w.beginFlush now) :=
    hw.beginFlush (by simpa using hidle) now
  change Follows c encoder₀ (h ++ (sinkStep c w i).2) (sinkStep c w i).1
  cases i with
  | write row now =>
    rw [sinkStep]
    split
    · rwa [List.append_nil]
    · next hidle => exact hw.write (by simpa using hidle) row now
  | pollFlush now =>
    rw [sinkStep]
    split
    · rwa [List.append_nil]
    · next hidle =>
      rw [List.append_nil, RabbitMqSinkWriter.pollFlush]
      split
      · exact hcall now hidle
      · exact hw
  | prepareCommit now =>
    rw [sinkStep]
    split
    · rwa [List.append_nil]
    · next hidle =>
      rw [List.append_nil, RabbitMqSinkWriter.prepareCommit]
      split
      · exact hcall now hidle
      · exact hw
  | attempt a => exact hw.attemptFlush hi

/-- In a run whose attempts fail where they harm no table, once all rows are
flushed each message of each attempt is one that a run without failures over the
same rows publishes. -/
theorem retries_transparent (config : RabbitMqConfig) (encoder₀ : CanalClientEncoder F V) (run : List (Input F))
    (hleaves : (sink c).Along (fun _ w i ↦ FailsHarmlessly c w i) [] { config, canalEncoder := encoder₀ } run)
    (hflushed : waiting ((sink c).run { config, canalEncoder := encoder₀ } run) = []) (m : CanalMessage V)
    (hm : .published m ∈ (sink c).trace { config, canalEncoder := encoder₀ } run) :
    ∃ encoder messages, Undisturbed c encoder₀ ((sink c).trace { config, canalEncoder := encoder₀ } run) encoder []
      messages ∧ m ∈ messages := by
  have hstep : ∀ (h : List (SinkEvent F V)) w i, Follows c encoder₀ h w → FailsHarmlessly c w i →
      Follows c encoder₀ (h ++ (sink c).emit w i) ((sink c).next w i) := fun _ _ _ hw hi ↦ hw.next hi
  have hstart : Follows c encoder₀ [] ({ config, canalEncoder := encoder₀ } : RabbitMqSinkWriter F V) :=
    ⟨rfl, nofun, ⟨encoder₀, [], .start, Aligned.refl _ _⟩, nofun⟩
  have hend := Machine.invariant hstep hstart hleaves
  rw [List.nil_append] at hend
  obtain ⟨encoder, rows, messages, hrun, hmem, hrows⟩ := hend.published m hm (by rw [hflushed]; nofun)
  rw [hflushed, List.suffix_nil] at hrows
  exact ⟨encoder, messages, hrows ▸ hrun, hmem⟩

end Run

section Counterexample

def undisturbedRuns (encoder₀ : CanalClientEncoder F V) (h : List (SinkEvent F V)) :
    List (CanalClientEncoder F V × List (CdcRow F) × List (CanalMessage V)) :=
  h.foldl (fun runs e ↦ runs.flatMap fun (encoder, rows, messages) ↦
    match e with
    | .buffered row => [(encoder, rows ++ [row], messages)]
    | .attempted clock =>
      let result := flushRecords c clock rows none encoder
      (encoder, rows, messages) ::
        if result.succeeded then [(result.canalEncoder, [], messages ++ result.published)] else []
    | _ => [(encoder, rows, messages)]) [(encoder₀, [], [])]

theorem Undisturbed.mem_runs {encoder₀ encoder : CanalClientEncoder F V} {h : List (SinkEvent F V)}
    {rows : List (CdcRow F)} {messages : List (CanalMessage V)}
    (hrun : Undisturbed c encoder₀ h encoder rows messages) :
    (encoder, rows, messages) ∈ undisturbedRuns c encoder₀ h := by
  induction hrun with
  | start => exact List.mem_singleton_self _
  | buffered row hrun ih =>
    rw [undisturbedRuns, List.foldl_append]
    exact List.mem_flatMap.mpr ⟨_, ih, List.mem_singleton_self _⟩
  | skip e he hrun ih =>
    rw [undisturbedRuns, List.foldl_append]
    refine List.mem_flatMap.mpr ⟨_, ih, ?_⟩
    cases e with
    | buffered row => exact absurd rfl (he row)
    | attempted clock => exact List.mem_cons_self
    | published m => exact List.mem_singleton_self _
    | flushed succeeded => exact List.mem_singleton_self _
  | flush clock hrun hflush ih =>
    rw [undisturbedRuns, List.foldl_append]
    refine List.mem_flatMap.mpr ⟨_, ih, ?_⟩
    dsimp only
    rw [hflush]
    exact List.mem_cons_of_mem _ (List.mem_singleton_self _)

def plainConversions : Conversions ℕ ℕ where
  convertField := id
  fieldToKey := toString
  toUppercase := fun ch ↦ [ch]
  toLowercase := id

def oneTable : CanalClientEncoder ℕ ℕ where
  config := { databaseName := "db", tableName := "t", columns := ["id"], tables := ∅, pairingWindowMs := 100 }
  tables := AList.insert "db.t"
    { dbName := "db"
      tableName := "t"
      fields := { key := "id", must := AList.insert "id" "id" ∅ }
      columnPositions := columnPositions ["id"] } ∅
  defaultTable := "db.t"
  isExplicit := true

def writer : RabbitMqSinkWriter ℕ ℕ where
  config := { batchSize := 3, batchTimeoutMs := 1000, reconnectMaxRetries := 3 }
  canalEncoder := oneTable

def failingAfterPair : List (Input ℕ) :=
  [.write ⟨⟨.updateBefore, [1]⟩, none⟩ 0, .write ⟨⟨.updateAfter, [3]⟩, none⟩ 0, .write ⟨⟨.insert, [2]⟩, none⟩ 0,
    .attempt { confirmed := some 1 }, .attempt {}]

def failingInPair : List (Input ℕ) :=
  [.write ⟨⟨.updateBefore, [1]⟩, none⟩ 0, .write ⟨⟨.insert, [2]⟩, none⟩ 0, .write ⟨⟨.updateAfter, [3]⟩, none⟩ 0,
    .attempt { confirmed := some 0 }, .attempt {}]

/-- The pair is complete when the message of the row after it fails. -/
theorem later_failure_transparent :
    ∃ encoder messages, Undisturbed plainConversions oneTable ((sink plainConversions).trace writer failingAfterPair)
      encoder [] messages ∧ ⟨"db.t", "2", "db", "t", .insert, AList.insert "id" 2 ∅, none⟩ ∈ messages := by
  have hdone : (flushRecords plainConversions (fun _ ↦ 0)
      [⟨⟨.updateBefore, [1]⟩, none⟩, ⟨⟨.updateAfter, [3]⟩, none⟩, ⟨⟨.insert, [2]⟩, none⟩] none oneTable).succeeded =
        true := rfl
  have hleaves : (sink plainConversions).Along (fun _ w i ↦ FailsHarmlessly plainConversions w i) [] writer failingAfterPair := by
    refine ⟨trivial, trivial, trivial, ?_, ?_, trivial⟩
    · intro flush hflush _ table
      cases hflush
      by_cases htable : table = "db.t"
      · subst htable
        refine .settled 1 ⟨⟨.updateAfter, [3]⟩, none⟩ ⟨by decide, rfl, ⟨rfl, rfl⟩, fun j other hij hlt hget himage ↦ ?_⟩
          (.inl rfl) (.inl rfl)
        obtain rfl : j = 2 := Nat.le_antisymm (Nat.le_of_lt_succ hlt) hij
        cases hget
        cases himage.2
      · refine .untouched (fun j other _ hget himage ↦ ?_) (.inl le_rfl)
        have himage : IsImageOf oneTable table other := himage
        have horigin : ∀ r ∈ [⟨⟨.updateBefore, [1]⟩, none⟩, ⟨⟨.updateAfter, [3]⟩, none⟩, (⟨⟨.insert, [2]⟩, none⟩ : CdcRow ℕ)],
            r.originTable = none := by decide
        have hserved : oneTable.stateFor other = .ok "db.t" := by
          rw [stateFor, horigin other (List.mem_of_getElem? hget)]
          rfl
        rw [IsImageOf, hserved] at himage
        exact htable (Option.some.inj himage.1).symm
    · intro flush hflush hsucceeded
      cases hflush
      cases hdone.symm.trans hsucceeded
  exact retries_transparent writer.config oneTable failingAfterPair hleaves rfl _ (List.mem_of_getElem? (i := 5) rfl)

/-- The before-image is held when the row after it fails: the next attempt gives it
up as a delete, and no run without failures has a delete. -/
theorem held_image_becomes_delete :
    ∃ m, .published m ∈ (sink plainConversions).trace writer failingInPair ∧
      waiting ((sink plainConversions).run writer failingInPair) = [] ∧
      ∀ encoder messages, Undisturbed plainConversions oneTable ((sink plainConversions).trace writer failingInPair)
        encoder [] messages → ∀ m' ∈ messages, m'.eventType ≠ m.eventType := by
  refine ⟨⟨"db.t", "1", "db", "t", .delete, AList.insert "id" 1 ∅, none⟩, List.mem_of_getElem? (i := 6) rfl, rfl, ?_⟩
  intro encoder messages hrun
  have hruns : ∀ o ∈ undisturbedRuns plainConversions oneTable ((sink plainConversions).trace writer failingInPair),
      ∀ m' ∈ o.2.2, m'.eventType ≠ .delete := by decide +kernel
  exact hruns _ (hrun.mem_runs plainConversions)

end Counterexample

end SeaTunnel.RabbitMq.CanalRetries
