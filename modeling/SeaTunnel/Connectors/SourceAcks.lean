import Mathlib.Data.List.Induction
import Mathlib.Data.List.Nodup
import SeaTunnel.RabbitMq.SourceReader
import SeaTunnel.Kafka.SourceReader

namespace SeaTunnel.Connectors.SourceAcks

open Lib Lib.Runs

variable {D R : Type}

section RabbitMq

open RabbitMq.SourceReader RabbitMqSourceReader

def CapturedBy (h : List Event) (n t : ℕ) : Prop := ∃ tags, .captured n tags ∈ h ∧ t ∈ tags

def Acked (h : List Event) (t : ℕ) : Prop := ∃ cause, .acked cause t ∈ h

/-- A completion acknowledges what a barrier up to it captured, and nothing
captured by such a barrier is left unacknowledged behind it. -/
def AcksMatched (h : List Event) : Event → Prop
  | .acked (.completion n) t => ∃ m ≤ n, CapturedBy h m t
  | .completed n => ∀ m ≤ n, ∀ t, CapturedBy h m t → Acked h t
  | _ => True

structure Capture where
  checkpointId : ℕ
  tags : List ℕ
  deriving DecidableEq

/-- The capture that waits for its completion, and those that a later barrier
replaced while they waited. -/
structure Slot where
  held : Option Capture := none
  replaced : List Capture := []

def Slot.after (s : Slot) : Event → Slot
  | .captured n tags => { held := some ⟨n, tags⟩, replaced := s.replaced ++ s.held.toList }
  | .completed _ => { s with held := none }
  | .acked _ _ => s

def slot (h : List Event) : Slot := h.foldl Slot.after {}

/-- The completed checkpoint is not older than the held capture and older
than every replaced one. -/
def CompletesCaptured (h : List Event) (_ : Session R) : Input D → Prop
  | .completed n =>
    (∀ c ∈ (slot h).held, c.tags ≠ [] → c.checkpointId ≤ n) ∧
    ∀ c ∈ (slot h).replaced, c.tags ≠ [] → n < c.checkpointId
  | _ => True

section Slots

variable (h : List Event)

@[simp] theorem slot_nil : slot [] = {} := rfl

@[simp] theorem slot_concat (e : Event) : slot (h ++ [e]) = (slot h).after e := by
  simp [slot]

@[simp] theorem slot_acks (cause : AckCause) (tags : List ℕ) :
    slot (h ++ tags.map (.acked cause)) = slot h := by
  induction tags using List.reverseRecOn with
  | nil => simp
  | append_singleton tags t ih => simp [← List.append_assoc, ih, Slot.after]

end Slots

section Rows

def tagsOf (rows : List (PendingRow R)) : List ℕ := rows.filterMap Prod.snd

@[simp] theorem tagsOf_nil : tagsOf ([] : List (PendingRow R)) = [] := rfl

@[simp] theorem tagsOf_cons (row : R) (tag : Option ℕ) (rows : List (PendingRow R)) :
    tagsOf ((row, tag) :: rows) = tag.toList ++ tagsOf rows := by
  cases tag <;> simp [tagsOf]

theorem tagsOf_tagRows (tag : ℕ) {rows : List R} (hrows : rows ≠ []) : tagsOf (tagRows tag rows) = [tag] := by
  have hinit : ∀ rows' : List R, ∀ n > rows'.length,
      (rows'.mapIdx fun i row ↦ (row, if i + 1 = n then some tag else none)).filterMap Prod.snd = [] := by
    intro rows' n hn
    rw [List.filterMap_eq_nil_iff]
    intro r hr
    obtain ⟨i, hi, rfl⟩ := List.mem_mapIdx.mp hr
    exact if_neg (by omega)
  obtain ⟨init, last, rfl⟩ := (List.eq_nil_or_concat' rows).resolve_left hrows
  rw [tagsOf, tagRows, List.mapIdx_concat, List.filterMap_append, hinit init _ (by simp)]
  simp

variable {decodePayload : D → List R} {s : Session R} {arrival : Arrival D}

theorem popFront_eq {rd rd' : RabbitMqSourceReader R} {row : R} (h : rd.popFront = some (row, rd')) :
    rd'.checkpointAcks = rd.checkpointAcks ∧ rd'.channel = rd.channel ∧ rd'.consumer = rd.consumer ∧
      rd'.pendingAcks ++ tagsOf rd'.pending = rd.pendingAcks ++ tagsOf rd.pending := by
  rw [popFront] at h
  split at h
  · cases h
  next row tag pending hpending =>
    obtain ⟨rfl, rfl⟩ : _ ∧ _ := by simpa using h
    simp [hpending]


theorem pollNext_tags {result : Core.TaskLoop.PollResult R Unit} {rd : RabbitMqSourceReader R} {acks : List ℕ}
    (hchannel : s.reader.channel = true)
    (hpoll : pollNext decodePayload s.reader (arrival.tagged s.nextTag) = (result, rd, acks)) :
    rd.checkpointAcks = s.reader.checkpointAcks ∧ rd.channel = true ∧
    ∃ joined, rd.pendingAcks ++ tagsOf rd.pending = s.reader.pendingAcks ++ tagsOf s.reader.pending ++ joined ∧
      joined ++ acks = if s.consumes arrival then [s.nextTag] else [] := by
  unfold pollNext at hpoll
  cases hpop : s.reader.popFront with
  | some popped =>
    obtain ⟨hslot, hch, -, htags⟩ := popFront_eq hpop
    have hconsumes : s.consumes arrival = false := by
      cases arrival with
      | delivery data =>
        have hpending : s.reader.pending ≠ [] := fun hnil ↦ by simp [popFront, hnil] at hpop
        simp [Session.consumes, hpending]
      | error | ended | timeout => rfl
    obtain ⟨-, rfl, rfl⟩ : _ ∧ _ ∧ _ := by simpa [hpop] using hpoll
    exact ⟨hslot, hch.trans hchannel, [], by simpa using htags, by simp [hconsumes]⟩
  | none =>
    have hpending : s.reader.pending = [] := by
      rw [popFront] at hpop
      split at hpop
      · assumption
      · cases hpop
    by_cases hconsumer : s.reader.consumer = true
    · cases arrival with
      | delivery data =>
        have hconsumes : s.consumes (.delivery data) = true := by
          simp [Session.consumes, hpending, hconsumer]
        simp only [hpop, hconsumer, if_true, Arrival.tagged] at hpoll
        cases hrows : decodePayload data with
        | nil =>
          obtain ⟨-, rfl, rfl⟩ : _ ∧ _ ∧ _ := by simpa [hrows] using hpoll
          exact ⟨rfl, hchannel, [], by simp, by simp [ackTag, hchannel, hconsumes]⟩
        | cons row rows =>
          have hjoin : tagsOf (s.reader.buffer s.nextTag (row :: rows)).pending = [s.nextTag] := by
            rw [buffer, hpending, List.nil_append, tagsOf_tagRows s.nextTag (List.cons_ne_nil row rows)]
          simp only [hrows] at hpoll
          cases hpop' : (s.reader.buffer s.nextTag (row :: rows)).popFront with
          | none =>
            obtain ⟨-, rfl, rfl⟩ : _ ∧ _ ∧ _ := by simpa [hpop'] using hpoll
            refine ⟨rfl, hchannel, [s.nextTag], ?_, by simp [hconsumes]⟩
            rw [hjoin, hpending, tagsOf_nil, List.append_nil]
            rfl
          | some popped =>
            obtain ⟨hslot, hch, -, htags⟩ := popFront_eq hpop'
            obtain ⟨-, rfl, rfl⟩ : _ ∧ _ ∧ _ := by simpa [hpop'] using hpoll
            refine ⟨hslot, hch.trans hchannel, [s.nextTag], ?_, by simp [hconsumes]⟩
            rw [htags, hjoin, hpending, tagsOf_nil, List.append_nil]
            rfl
      | error | ended | timeout =>
        obtain ⟨-, rfl, rfl⟩ : _ ∧ _ ∧ _ := by simpa [hpop, hconsumer, Arrival.tagged] using hpoll
        exact ⟨rfl, hchannel, [], by simp, by simp [Session.consumes]⟩
    · have hconsumes : s.consumes arrival = false := by
        cases arrival <;> simp [Session.consumes, hconsumer]
      obtain ⟨-, rfl, rfl⟩ : _ ∧ _ ∧ _ := by simpa [hpop, hconsumer] using hpoll
      exact ⟨rfl, hchannel, [], by simp, by simp [hconsumes]⟩

end Rows

section Custody

def ackedTags (h : List Event) : List ℕ :=
  h.filterMap fun e ↦
    match e with
    | .acked _ tag => some tag
    | _ => none

def custody (h : List Event) (s : Session R) : List ℕ :=
  ackedTags h ++ ((slot h).replaced.flatMap Capture.tags ++
    (s.reader.checkpointAcks ++ (s.reader.pendingAcks ++ tagsOf s.reader.pending)))

structure Custody (h : List Event) (s : Session R) : Prop where
  channel : s.reader.channel = true
  held : s.reader.checkpointAcks = (slot h).held.toList.flatMap Capture.tags
  recorded : ∀ c ∈ (slot h).replaced ++ (slot h).held.toList, .captured c.checkpointId c.tags ∈ h
  settled : ∀ n tags, .captured n tags ∈ h →
    ⟨n, tags⟩ ∈ (slot h).replaced ++ (slot h).held.toList ∨ ∀ t ∈ tags, Acked h t
  nodup : (custody h s).Nodup
  below : ∀ t ∈ custody h s, t < s.nextTag

@[simp] theorem ackedTags_append (h t : List Event) : ackedTags (h ++ t) = ackedTags h ++ ackedTags t :=
  List.filterMap_append

@[simp] theorem ackedTags_acks (cause : AckCause) (tags : List ℕ) :
    ackedTags (tags.map (.acked cause)) = tags := by
  induction tags with
  | nil => rfl
  | cons t tags ih => simp [ackedTags]

theorem mem_ackedTags {h : List Event} {t : ℕ} : t ∈ ackedTags h ↔ Acked h t := by
  constructor
  · intro ht
    obtain ⟨e, he, heq⟩ := List.mem_filterMap.mp ht
    cases e with
    | acked cause tag => exact ⟨cause, Option.some.inj heq ▸ he⟩
    | captured | completed => cases heq
  · rintro ⟨cause, hc⟩
    exact List.mem_filterMap.mpr ⟨_, hc, rfl⟩

theorem Acked.append {h : List Event} {t : ℕ} (ht : Acked h t) (es : List Event) : Acked (h ++ es) t :=
  ht.imp fun _ hc ↦ List.mem_append_left es hc

theorem custody_opened : Custody [] (Session.opened : Session R) where
  channel := rfl
  held := rfl
  recorded := by simp
  settled := by simp
  nodup := by simp [custody, ackedTags, Session.opened, openReader]
  below := by simp [custody, ackedTags, Session.opened, openReader]

variable {decodePayload : D → List R} {h : List Event} {s : Session R}

theorem acked_map (h : List Event) (cause : AckCause) {tags : List ℕ} {t : ℕ} (ht : t ∈ tags) :
    Acked (h ++ tags.map (.acked cause)) t :=
  ⟨cause, List.mem_append_right h (List.mem_map_of_mem ht)⟩

theorem captured_mem_append {es : List Event} {n : ℕ} {tags : List ℕ}
    (hes : ∀ n tags, .captured n tags ∉ es) : .captured n tags ∈ h ++ es ↔ .captured n tags ∈ h := by
  simp [hes]

theorem Custody.poll (hc : Custody h s) (arrival : Arrival D) :
    Custody (h ++ (session decodePayload).emit s (.poll arrival))
      ((session decodePayload).next s (.poll arrival)) := by
  obtain ⟨⟨result, rd, acks⟩, hpoll⟩ :
      ∃ polled, pollNext decodePayload s.reader (arrival.tagged s.nextTag) = polled := ⟨_, rfl⟩
  obtain ⟨hslot, hchannel, joined, htags, htaken⟩ := pollNext_tags hc.channel hpoll
  have hemit : (session decodePayload).emit s (.poll arrival) = acks.map (.acked .poison) := by
    simp [session, Machine.emit, sessionStep, hpoll]
  have hnext : (session decodePayload).next s (.poll arrival) =
      ⟨rd, if s.consumes arrival then s.nextTag + 1 else s.nextTag⟩ := by
    simp [session, Machine.next, sessionStep, hpoll]
  rw [hemit, hnext]
  have hcaptured : ∀ n tags, Event.captured n tags ∉ acks.map (.acked .poison) := by simp
  have hperm : (custody (h ++ acks.map (.acked .poison))
      ⟨rd, if s.consumes arrival then s.nextTag + 1 else s.nextTag⟩).Perm
      (custody h s ++ (joined ++ acks)) := by
    simp only [custody, ackedTags_append, ackedTags_acks, slot_acks, hslot, htags, List.append_assoc]
    refine List.Perm.append_left (ackedTags h) ?_
    have hswap : (acks ++ ((slot h).replaced.flatMap Capture.tags ++ s.reader.checkpointAcks ++
        s.reader.pendingAcks ++ tagsOf s.reader.pending ++ joined)).Perm _ := List.perm_append_comm
    simpa only [List.append_assoc] using hswap
  refine ⟨hchannel, ?_, ?_, ?_, ?_, ?_⟩
  · simpa [hslot] using hc.held
  · intro c hmem
    rw [slot_acks] at hmem
    exact (captured_mem_append hcaptured).mpr (hc.recorded c hmem)
  · intro n tags hmem
    rw [slot_acks]
    exact (hc.settled n tags ((captured_mem_append hcaptured).mp hmem)).imp_right
      fun hall t ht ↦ (hall t ht).append _
  · rw [hperm.nodup_iff, htaken]
    split
    · exact hc.nodup.append (List.nodup_singleton _) (by
        simpa using fun hmem ↦ Nat.lt_irrefl _ (hc.below _ hmem))
    · simpa using hc.nodup
  · intro t ht
    have hmem := hperm.mem_iff.mp ht
    rw [htaken, List.mem_append] at hmem
    rcases hmem with hmem | hmem
    · have := hc.below t hmem
      dsimp only
      split <;> omega
    · split at hmem
      · next hconsumes =>
        have : t = s.nextTag := by simpa using hmem
        simp [hconsumes, this]
      · cases hmem

theorem Custody.barrier (hc : Custody h s) (n : ℕ) :
    Custody (h ++ (session decodePayload).emit s (.barrier n))
      ((session decodePayload).next s (.barrier n)) := by
  have hemit : (session decodePayload).emit s (.barrier n) = [.captured n s.reader.pendingAcks] := rfl
  have hnext : (session decodePayload).next s (.barrier n) =
      { s with reader := s.reader.snapshotState.2 } := rfl
  -- The replaced capture and the new one take their tags over as they stand.
  have hsame : custody (h ++ [.captured n s.reader.pendingAcks])
      { s with reader := s.reader.snapshotState.2 } = custody h s := by
    simp [custody, ackedTags, Slot.after, snapshotState, hc.held]
  rw [hemit, hnext]
  refine ⟨hc.channel, ?_, ?_, ?_, by rw [hsame]; exact hc.nodup, ?_⟩
  · simp [Slot.after, snapshotState]
  · intro c hmem
    rw [slot_concat, Slot.after, List.mem_append] at hmem
    rcases hmem with hmem | hmem
    · exact List.mem_append_left _ (hc.recorded c hmem)
    · have : c = ⟨n, s.reader.pendingAcks⟩ := by simpa using hmem
      simp [this]
  · intro m tags hmem
    rw [slot_concat, Slot.after]
    rcases List.mem_append.mp hmem with hmem | hmem
    · exact (hc.settled m tags hmem).imp (List.mem_append_left _) fun hall t ht ↦ (hall t ht).append _
    · obtain ⟨rfl, rfl⟩ : m = n ∧ tags = s.reader.pendingAcks := by simpa using hmem
      exact .inl (by simp)
  · intro t ht
    exact hc.below t (hsame ▸ ht)

theorem emit_completed (hchannel : s.reader.channel = true) (n : ℕ) :
    (session decodePayload).emit s (.completed n) =
      s.reader.checkpointAcks.map (.acked (.completion n)) ++ [.completed n] := by
  have hsent : s.reader.checkpointAcks.flatMap s.reader.ackTag = s.reader.checkpointAcks := by
    have htag : s.reader.ackTag = fun tag ↦ [tag] := funext fun tag ↦ by simp [ackTag, hchannel]
    rw [htag, List.flatMap_singleton']
  simp [session, Machine.emit, sessionStep, notifyCheckpointComplete, hsent]

theorem Custody.completed (hc : Custody h s) (n : ℕ) :
    Custody (h ++ (session decodePayload).emit s (.completed n))
      ((session decodePayload).next s (.completed n)) := by
  have hnext : (session decodePayload).next s (.completed n) =
      { s with reader := { s.reader with checkpointAcks := [] } } := rfl
  rw [emit_completed hc.channel, hnext]
  have hcaptured : ∀ m tags, Event.captured m tags ∉
      s.reader.checkpointAcks.map (.acked (.completion n)) ++ [.completed n] := by simp
  have hslot : slot (h ++ (s.reader.checkpointAcks.map (.acked (.completion n)) ++ [.completed n])) =
      { slot h with held := none } := by
    rw [← List.append_assoc, slot_concat, slot_acks]
    rfl
  have hacked : ackedTags (h ++ (s.reader.checkpointAcks.map (.acked (.completion n)) ++ [.completed n])) =
      ackedTags h ++ s.reader.checkpointAcks := by
    rw [ackedTags_append, ackedTags_append, ackedTags_acks]
    simp [ackedTags]
  have hperm : (custody (h ++ (s.reader.checkpointAcks.map (.acked (.completion n)) ++ [.completed n]))
      { s with reader := { s.reader with checkpointAcks := [] } }).Perm (custody h s) := by
    simp only [custody, hacked, hslot, List.nil_append, List.append_assoc]
    refine List.Perm.append_left (ackedTags h) ?_
    exact List.perm_append_comm_assoc _ _ _
  refine ⟨hc.channel, by simp [hslot], ?_, ?_, hperm.nodup_iff.mpr hc.nodup, ?_⟩
  · intro c hmem
    rw [hslot] at hmem
    exact (captured_mem_append hcaptured).mpr (hc.recorded c (List.mem_append_left _ (by simpa using hmem)))
  · intro m tags hmem
    rw [hslot]
    rcases hc.settled m tags ((captured_mem_append hcaptured).mp hmem) with hin | hall
    · rcases List.mem_append.mp hin with hin | hin
      · exact .inl (List.mem_append_left _ hin)
      · refine .inr fun t ht ↦ ?_
        rw [← List.append_assoc]
        refine (acked_map h _ ?_).append _
        rw [hc.held]
        exact List.mem_flatMap.mpr ⟨_, hin, ht⟩
    · exact .inr fun t ht ↦ (hall t ht).append _
  · intro t ht
    exact hc.below t (hperm.mem_iff.mp ht)

theorem Custody.step (hc : Custody h s) (i : Input D) :
    Custody (h ++ (session decodePayload).emit s i) ((session decodePayload).next s i) := by
  cases i with
  | poll arrival => exact hc.poll arrival
  | barrier n => exact hc.barrier n
  | completed n => exact hc.completed n
  | aborted n =>
    have hemit : (session decodePayload).emit s (.aborted n) = [] := rfl
    rw [hemit, List.append_nil]
    exact hc

end Custody

section Matching

variable {decodePayload : D → List R} {h : List Event} {s : Session R}

theorem CapturedBy.append_acks {n t : ℕ} {cause : AckCause} {tags : List ℕ} :
    CapturedBy (h ++ tags.map (.acked cause)) n t ↔ CapturedBy h n t := by
  simp [CapturedBy]

theorem always_completion {n : ℕ} {tags : List ℕ} :
    Always AcksMatched h (tags.map (.acked (.completion n))) ↔ ∀ t ∈ tags, ∃ m ≤ n, CapturedBy h m t := by
  induction tags using List.reverseRecOn with
  | nil => simp
  | append_singleton tags t ih =>
    rw [List.map_append, always_append, ih]
    simp only [List.map_cons, List.map_nil, always_cons, always_nil, and_true, AcksMatched,
      CapturedBy.append_acks]
    constructor
    · rintro ⟨htags, ht⟩ t' hmem
      rcases List.mem_append.mp hmem with hmem | hmem
      · exact htags t' hmem
      · rwa [List.mem_singleton.mp hmem]
    · intro hall
      exact ⟨fun t' hmem ↦ hall t' (by simp [hmem]), hall t (by simp)⟩

theorem Custody.replaced_notMem (hc : Custody h s) {c : Capture} (hmem : c ∈ (slot h).replaced) {t : ℕ}
    (ht : t ∈ c.tags) : ¬ Acked h t ∧ t ∉ s.reader.checkpointAcks := by
  have hin : t ∈ (slot h).replaced.flatMap Capture.tags := List.mem_flatMap.mpr ⟨c, hmem, ht⟩
  obtain ⟨-, hnodup, hdisjoint⟩ := List.nodup_append'.mp hc.nodup
  constructor
  · intro hacked
    exact hdisjoint (mem_ackedTags.mpr hacked) (List.mem_append_left _ hin)
  · intro hheld
    exact (List.nodup_append'.mp hnodup).2.2 hin (List.mem_append_left _ hheld)

theorem Custody.held_barrier (hc : Custody h s) {c : Capture} (hheld : (slot h).held = some c) {t m : ℕ}
    (ht : t ∈ c.tags) (hm : CapturedBy h m t) : m = c.checkpointId := by
  obtain ⟨tags, hcaptured, htags⟩ := hm
  have hslot : t ∈ s.reader.checkpointAcks := by rw [hc.held]; simpa [hheld] using ht
  obtain ⟨-, -, hdisjoint⟩ := List.nodup_append'.mp hc.nodup
  rcases hc.settled m tags hcaptured with hin | hall
  · rcases List.mem_append.mp hin with hin | hin
    · exact absurd hslot (hc.replaced_notMem hin htags).2
    · have hsame : ⟨m, tags⟩ = c := by simpa [hheld] using hin
      rw [← hsame]
  · exact absurd (List.mem_append_right _ (List.mem_append_left _ hslot))
      (hdisjoint (mem_ackedTags.mpr (hall t htags)))

theorem Custody.matched_completed (hc : Custody h s) (n : ℕ) :
    Always AcksMatched h (s.reader.checkpointAcks.map (.acked (.completion n)) ++ [.completed n]) ↔
      CompletesCaptured h s (.completed n : Input D) := by
  rw [always_append, always_completion]
  simp only [always_cons, always_nil, and_true, AcksMatched, CapturedBy.append_acks]
  constructor
  · rintro ⟨hsafe, hkept⟩
    constructor
    · intro c hheld hne
      obtain ⟨t, ht⟩ := List.exists_mem_of_ne_nil c.tags hne
      have hslot : t ∈ s.reader.checkpointAcks := by rw [hc.held]; simpa [Option.mem_def.mp hheld] using ht
      obtain ⟨m, hle, hm⟩ := hsafe t hslot
      rwa [hc.held_barrier hheld ht hm] at hle
    · intro c hmem hne
      obtain ⟨t, ht⟩ := List.exists_mem_of_ne_nil c.tags hne
      obtain ⟨hnot, hslot⟩ := hc.replaced_notMem hmem ht
      by_contra hle
      have hrecorded := hc.recorded c (List.mem_append_left _ hmem)
      have hacked := hkept c.checkpointId (by omega) t ⟨c.tags, hrecorded, ht⟩
      rw [← mem_ackedTags, ackedTags_append, ackedTags_acks, List.mem_append, mem_ackedTags] at hacked
      exact hacked.elim hnot hslot
  · rintro ⟨hheld, hreplaced⟩
    constructor
    · intro t ht
      rw [hc.held] at ht
      obtain ⟨c, hmem, htags⟩ := List.mem_flatMap.mp ht
      refine ⟨c.checkpointId, hheld c (by simpa using hmem) (List.ne_nil_of_mem htags), c.tags, ?_, htags⟩
      exact hc.recorded c (List.mem_append_right _ hmem)
    · rintro m hle t ⟨tags, hcaptured, ht⟩
      rcases hc.settled m tags hcaptured with hin | hall
      · rcases List.mem_append.mp hin with hin | hin
        · have hlt : n < m := hreplaced _ hin (List.ne_nil_of_mem ht)
          omega
        · refine acked_map h _ ?_
          rw [hc.held]
          exact List.mem_flatMap.mpr ⟨_, hin, ht⟩
      · exact (hall t ht).append _

theorem Custody.matched_iff (hc : Custody h s) (i : Input D) :
    Always AcksMatched h ((session decodePayload).emit s i) ↔ CompletesCaptured h s i := by
  cases i with
  | poll arrival =>
    refine iff_of_true (always_of_forall fun h' e he ↦ ?_) trivial
    obtain ⟨t, -, rfl⟩ := List.mem_map.mp he
    trivial
  | barrier n => exact iff_of_true ⟨trivial, trivial⟩ trivial
  | completed n => rw [emit_completed hc.channel]; exact hc.matched_completed n
  | aborted n => exact iff_of_true trivial trivial

theorem acks_matched_iff (decodePayload : D → List R) (is : List (Input D)) :
    Always AcksMatched [] ((session decodePayload).trace .opened is) ↔
      (session decodePayload).Along CompletesCaptured [] .opened is :=
  always_iff_along (fun _ _ i hc ↦ hc.step i) (fun _ _ i hc ↦ hc.matched_iff i) custody_opened is

end Matching

end RabbitMq

section Kafka

open Kafka.SourceReader KafkaSourceReader

inductive OffsetInput (D : Type)
  | poll (recv : Received D)
  | barrier (checkpointId : ℕ)
  | completed (checkpointId : ℕ)
  | aborted (checkpointId : ℕ)

inductive OffsetEvent
  | captured (checkpointId : ℕ) (offsets : Dict String ℤ)
  | committed (checkpointId : ℕ) (offsets : List (String × ℕ × ℤ))

def readerStep (decodePayload : D → List R) (rd : KafkaSourceReader R) :
    OffsetInput D → KafkaSourceReader R × List OffsetEvent
  | .poll recv => ((rd.pollNext decodePayload recv).2, [])
  | .barrier n => (rd.snapshotState.2, [.captured n rd.snapshotState.1.offsets])
  | .completed n =>
    ((rd.notifyCheckpointComplete n).1, [.committed n (rd.notifyCheckpointComplete n).2])
  | .aborted _ => (rd, [])

def reader (decodePayload : D → List R) : Machine (KafkaSourceReader R) (OffsetInput D) OffsetEvent :=
  ⟨readerStep decodePayload⟩

/-- A group offset that a completion commits is one past an offset that a
barrier up to it captured. -/
def CommitsMatched (h : List OffsetEvent) : OffsetEvent → Prop
  | .committed n offsets => ∀ topic p o, (topic, p, o) ∈ offsets →
      ∃ m ≤ n, ∃ captured last, .captured m captured ∈ h ∧
        captured.lookup (offsetKey topic p) = some last ∧ o = last + 1
  | .captured _ _ => True

def lastBarrier (h : List OffsetEvent) : Option ℕ :=
  (h.filterMap fun e ↦
    match e with
    | .captured n _ => some n
    | .committed _ _ => none).getLast?

/-- No barrier newer than the completed checkpoint holds the slot. -/
def CompletesLast (h : List OffsetEvent) (rd : KafkaSourceReader R) : OffsetInput D → Prop
  | .completed n => rd.checkpointOffsets ≠ ∅ → ∀ m ∈ lastBarrier h, m ≤ n
  | _ => True

def IsOffsetKey (key : String) (_ : ℤ) : Prop := ∃ topic p, p < 2 ^ 31 ∧ key = offsetKey topic p

structure SlotOfLast (h : List OffsetEvent) (rd : KafkaSourceReader R) : Prop where
  keys : rd.lastOffsets.All IsOffsetKey
  slotKeys : rd.checkpointOffsets.All IsOffsetKey
  slot : rd.checkpointOffsets ≠ ∅ → ∃ m, lastBarrier h = some m ∧ .captured m rd.checkpointOffsets ∈ h

variable {decodePayload : D → List R} {h : List OffsetEvent} {rd : KafkaSourceReader R}

theorem pollNext_offsets (recv : Received D) :
    (rd.pollNext decodePayload recv).2.checkpointOffsets = rd.checkpointOffsets ∧
    ((rd.pollNext decodePayload recv).2.lastOffsets = rd.lastOffsets ∨
      ∃ msg, recv = .message msg ∧ (rd.pollNext decodePayload recv).2.lastOffsets =
        rd.lastOffsets.insert (offsetKey msg.topic msg.partition) msg.offset) := by
  unfold pollNext
  split
  · exact ⟨rfl, .inl rfl⟩
  · split
    · split
      · next msg =>
        split
        · exact ⟨rfl, .inr ⟨msg, rfl, rfl⟩⟩
        · exact ⟨rfl, .inr ⟨msg, rfl, rfl⟩⟩
      · exact ⟨rfl, .inl rfl⟩
      · exact ⟨rfl, .inl rfl⟩
    · exact ⟨rfl, .inl rfl⟩

theorem mem_commitSpecificOffsets {offsets : Dict String ℤ} (hkeys : offsets.All IsOffsetKey) {topic : String}
    {p : ℕ} {o : ℤ} (hmem : (topic, p, o) ∈ rd.commitSpecificOffsets offsets) :
    ∃ last, offsets.lookup (offsetKey topic p) = some last ∧ o = last + 1 := by
  rw [commitSpecificOffsets] at hmem
  split at hmem
  · obtain ⟨⟨key, last⟩, hentry, hparse⟩ := List.mem_filterMap.mp hmem
    have hlookup : offsets.lookup key = some last := AList.mem_lookup_iff.mpr hentry
    obtain ⟨topic', p', hlt, rfl⟩ := hkeys key last hlookup
    rw [parseKey_offsetKey topic' hlt] at hparse
    obtain ⟨rfl, rfl, rfl⟩ : topic' = topic ∧ p' = p ∧ last + 1 = o := by simpa using hparse
    exact ⟨last, hlookup, rfl⟩
  · cases hmem

theorem SlotOfLast.step (hs : SlotOfLast h rd) (i : OffsetInput D) :
    SlotOfLast (h ++ (reader decodePayload).emit rd i) ((reader decodePayload).next rd i) := by
  cases i with
  | poll recv =>
    have hemit : (reader decodePayload).emit rd (.poll recv) = [] := rfl
    have hnext : (reader decodePayload).next rd (.poll recv) = (rd.pollNext decodePayload recv).2 := rfl
    obtain ⟨hslot, hlast⟩ := @pollNext_offsets _ _ decodePayload rd recv
    rw [hemit, hnext, List.append_nil]
    refine ⟨?_, hslot ▸ hs.slotKeys, hslot ▸ hs.slot⟩
    rcases hlast with hlast | ⟨msg, -, hlast⟩
    · exact hlast ▸ hs.keys
    · rw [hlast]
      exact hs.keys.insert ⟨msg.topic, msg.partition, msg.partition_lt, rfl⟩
  | barrier n =>
    refine ⟨hs.keys, hs.keys, fun _ ↦ ⟨n, ?_, ?_⟩⟩
    · simp [lastBarrier, reader, readerStep, Machine.emit]
    · exact List.mem_append_right h (List.mem_singleton.mpr rfl)
  | completed n => exact ⟨hs.keys, Dict.All.empty, fun hne ↦ absurd rfl hne⟩
  | aborted n =>
    have hemit : (reader decodePayload).emit rd (.aborted n) = [] := rfl
    rw [hemit, List.append_nil]
    exact hs

theorem SlotOfLast.matched (hs : SlotOfLast h rd) {i : OffsetInput D} (hi : CompletesLast h rd i) :
    Always CommitsMatched h ((reader decodePayload).emit rd i) := by
  cases i with
  | poll recv => trivial
  | barrier n => exact ⟨trivial, trivial⟩
  | completed n =>
    refine ⟨fun topic p o hmem ↦ ?_, trivial⟩
    obtain ⟨last, hlookup, ho⟩ := mem_commitSpecificOffsets hs.slotKeys hmem
    have hne : rd.checkpointOffsets ≠ ∅ := by
      intro hempty
      rw [hempty] at hlookup
      cases hlookup
    obtain ⟨m, hlast, hcaptured⟩ := hs.slot hne
    exact ⟨m, hi hne m hlast, rd.checkpointOffsets, last, hcaptured, hlookup, ho⟩
  | aborted n => trivial

theorem slotOfLast_opened (cluster : Cluster) (config : KafkaSourceConfig) (state : KafkaSourceState) :
    SlotOfLast [] (openReader cluster (restoreFromState { config } state : KafkaSourceReader R)).2 := by
  have hopened : ∀ rd : KafkaSourceReader R, (openReader cluster rd).2.lastOffsets = rd.lastOffsets ∧
      (openReader cluster rd).2.checkpointOffsets = rd.checkpointOffsets := by
    intro rd
    unfold openReader
    repeat' split
    all_goals exact ⟨rfl, rfl⟩
  obtain ⟨hlast, hslot⟩ := hopened (restoreFromState { config } state)
  refine ⟨?_, ?_, fun hne ↦ absurd hslot hne⟩
  · rw [hlast]
    exact Dict.All.empty
  · rw [hslot]
    exact Dict.All.empty

theorem commits_matched (cluster : Cluster) (config : KafkaSourceConfig) (state : KafkaSourceState)
    {is : List (OffsetInput D)}
    (hcond : (reader decodePayload).Along CompletesLast []
      (openReader cluster (restoreFromState { config } state)).2 is) :
    Always CommitsMatched [] ((reader decodePayload).trace
      (openReader cluster (restoreFromState { config } state)).2 is) :=
  always_of_along (fun _ _ i hs _ ↦ hs.step i) (fun _ _ _ hs hi ↦ hs.matched hi)
    (slotOfLast_opened cluster config state) hcond

end Kafka

section Acknowledgements

open RabbitMq.SourceReader Kafka.SourceReader KafkaSourceReader

/-- The RabbitMQ reader acknowledges in step with the checkpoints exactly
along the runs whose completions find a capture that is not newer and no
replaced capture that is not newer; the Kafka reader does so along the runs
whose completions find no newer capture. -/
theorem source_acks_matched (decodePayload : D → List R) :
    (∀ is : List (Input D), Always AcksMatched [] ((session decodePayload).trace .opened is) ↔
      (session decodePayload).Along CompletesCaptured [] .opened is) ∧
    (∀ (cluster : Cluster) (config : KafkaSourceConfig) (state : KafkaSourceState)
      (is : List (OffsetInput D)),
      (reader decodePayload).Along CompletesLast []
        (openReader cluster (restoreFromState { config } state)).2 is →
      Always CommitsMatched [] ((reader decodePayload).trace
        (openReader cluster (restoreFromState { config } state)).2 is)) :=
  ⟨acks_matched_iff decodePayload, fun cluster config state _ hcond ↦ commits_matched cluster config state hcond⟩

def oneTopic : Cluster where
  create := .ok ()
  fetchMetadata := .ok [("orders", [0])]
  offsetsForTimes _ _ _ := .ok []
  committedOffsets _ _ := .ok []
  addPartitionOffset _ _ _ := .ok ()
  assign _ := .ok ()

def ordersConfig : KafkaSourceConfig := ⟨"orders", .earliest, 0, 1⟩

def ordersMessage (offset : ℤ) : Message ℕ := ⟨"orders", 0, offset, some 7, by decide⟩

def ordersReader : KafkaSourceReader ℕ := (openReader oneTopic (restoreFromState { config := ordersConfig } ⟨∅⟩)).2

theorem source_acks_matched_in_order :
    Always AcksMatched [] ((session fun data : ℕ ↦ [data]).trace .opened
      [.poll (.delivery 7), .barrier 1, .completed 1, .poll (.delivery 8), .barrier 2, .aborted 2]) ∧
    Always CommitsMatched [] ((reader fun data : ℕ ↦ [data]).trace ordersReader
      [.poll (.message (ordersMessage 0)), .barrier 1, .completed 1]) := by
  constructor
  · refine ((source_acks_matched fun data : ℕ ↦ [data]).1 _).mpr ?_
    refine ⟨trivial, trivial, ⟨?_, ?_⟩, trivial, trivial, trivial, trivial⟩
    · rintro c ⟨⟩ -
      decide
    · intro c hc
      cases hc
  · refine (source_acks_matched fun data : ℕ ↦ [data]).2 oneTopic ordersConfig ⟨∅⟩ _ ?_
    refine ⟨trivial, trivial, fun _ ↦ ?_, trivial⟩
    rintro m ⟨⟩
    decide

/-- Checkpoint 1 completes behind the barrier of checkpoint 2: the delivery
and the offset captured by 2 are acknowledged for 1, and the delivery captured
by 1 is never acknowledged. -/
theorem source_acks_overtaken :
    ¬ Always AcksMatched [] ((session fun data : ℕ ↦ [data]).trace .opened
      [.poll (.delivery 7), .barrier 1, .poll (.delivery 8), .barrier 2, .completed 1]) ∧
    ¬ Always AcksMatched [] ((session fun data : ℕ ↦ [data]).trace .opened
      [.poll (.delivery 7), .barrier 1, .aborted 1, .barrier 2, .completed 2]) ∧
    ¬ Always CommitsMatched [] ((reader fun data : ℕ ↦ [data]).trace ordersReader
      [.poll (.message (ordersMessage 0)), .barrier 1, .poll (.message (ordersMessage 1)), .barrier 2,
        .completed 1]) := by
  refine ⟨?_, ?_, ?_⟩
  · intro hall
    have htrace : (session fun data : ℕ ↦ [data]).trace Session.opened
        [.poll (.delivery 7), .barrier 1, .poll (.delivery 8), .barrier 2, .completed 1] =
        [.captured 1 [1], .captured 2 [2], .acked (.completion 1) 2, .completed 1] := by decide
    rw [htrace] at hall
    obtain ⟨m, hle, tags, hmem, ht⟩ := hall.2.2.1
    have hcases : m = 1 ∧ tags = [1] ∨ m = 2 ∧ tags = [2] := by simpa using hmem
    rcases hcases with ⟨rfl, rfl⟩ | ⟨rfl, rfl⟩
    · simp at ht
    · omega
  · intro hall
    have htrace : (session fun data : ℕ ↦ [data]).trace Session.opened
        [.poll (.delivery 7), .barrier 1, .aborted 1, .barrier 2, .completed 2] =
        [.captured 1 [1], .captured 2 [], .completed 2] := by decide
    rw [htrace] at hall
    obtain ⟨cause, hmem⟩ := hall.2.2.1 1 (by decide) 1 ⟨[1], by simp, by simp⟩
    simp at hmem
  · intro hall
    obtain ⟨m, hle, captured, last, hmem, hlookup, ho⟩ := hall.2.2.1 "orders" 0 2 (by decide)
    have hcases : m = 1 ∧ captured = ordersReader.lastOffsets.insert "orders-0" 0 ∨ m = 2 := by
      rcases List.mem_append.mp hmem with hmem | hmem
      · cases hmem with
        | head => exact .inl ⟨rfl, rfl⟩
        | tail _ hmem => cases hmem
      · cases hmem with
        | head => exact .inr rfl
        | tail _ hmem => cases hmem
    rcases hcases with ⟨rfl, rfl⟩ | rfl
    · have hlast : last = 0 := by
        have hkey : offsetKey "orders" 0 = "orders-0" := by decide
        rw [hkey, AList.lookup_insert] at hlookup
        exact (Option.some.inj hlookup).symm
      omega
    · omega

end Acknowledgements

end SeaTunnel.Connectors.SourceAcks
