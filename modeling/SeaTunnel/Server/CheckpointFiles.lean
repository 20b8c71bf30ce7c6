import SeaTunnel.Core.RestartIds
import SeaTunnel.Server.StoreFiles

namespace SeaTunnel.Server.CheckpointFiles

open Core.LocalCheckpoint (CheckpointEnvelope LocalCheckpointStore)
open Core.RestartIds (Keyed sortedIds sortedIds_pairwise mem_sortedIds ids_loadAll lookup_eraseAll)
open Lib
open StoreFiles (idOf)
open StoreFiles.LocalCheckpointStore (fileName tmpName)

variable {B : Type}

section Model

structure EnvelopeText (B : Type) where
  empty : B
  toVecPretty : CheckpointEnvelope → B
  fromSlice : B → Option CheckpointEnvelope
  fromSlice_toVecPretty : ∀ envelope, fromSlice (toVecPretty envelope) = some envelope

/-- The texts of `serde_json`; a text that is no JSON is `none`. -/
def envelopeText : EnvelopeText (Option Json) where
  empty := none
  toVecPretty := fun envelope ↦ some (StoreFiles.checkpointEnvelope.encode envelope)
  fromSlice := fun text ↦ text.bind StoreFiles.checkpointEnvelope.decode
  fromSlice_toVecPretty := StoreFiles.checkpointEnvelope.decode_encode

/-- The files in the directory of a job. -/
abbrev Directory (B : Type) : Type := Dict String B

inductive FileStep (B : Type)
  | write (name : String) (bytes : B)
  | rename (source target : String)
  | removeFile (name : String)
  | syncAll

def FileStep.run (directory : Directory B) : FileStep B → Directory B
  | .write name bytes => directory.insert name bytes
  | .rename source target =>
    match directory.lookup source with
    | some bytes => AList.insert target bytes (directory.erase source)
    | none => directory
  | .removeFile name => directory.erase name
  | .syncAll => directory

variable (text : EnvelopeText B)

/-- `write_all` may take several writes, `torn` before the last of them. -/
def saveSteps (pid : ℕ) (envelope : CheckpointEnvelope) (torn : List B) : List (FileStep B) :=
  let tmp := tmpName pid envelope.checkpointId
  .write tmp text.empty :: torn.map (.write tmp) ++
    [.write tmp (text.toVecPretty envelope), .syncAll, .rename tmp (fileName envelope.checkpointId), .syncAll]

def loadAll (directory : Directory B) : List CheckpointEnvelope :=
  let ids := directory.keys.filterMap (idOf "checkpoint-" ".json")
  (ids.insertionSort (· ≤ ·)).filterMap fun id ↦ (directory.lookup (fileName id)).bind text.fromSlice

def loadLatest (directory : Directory B) : Option CheckpointEnvelope :=
  (loadAll text directory).foldl (fun latest envelope ↦
    if latest.all fun l : CheckpointEnvelope ↦ l.checkpointId < envelope.checkpointId then
      some envelope
    else latest) none

def pruneSteps (keep : ℕ) (directory : Directory B) : List (FileStep B) :=
  let envelopes := loadAll text directory
  (envelopes.take (envelopes.length - keep)).map fun e ↦ .removeFile (fileName e.checkpointId)

inductive Op (B : Type)
  | save (pid : ℕ) (envelope : CheckpointEnvelope) (torn : List B) (id_lt : envelope.checkpointId < 2 ^ 64)
  | prune (keep : ℕ) (one_le_keep : 1 ≤ keep)

def Op.steps (directory : Directory B) : Op B → List (FileStep B)
  | .save pid envelope torn _ => saveSteps text pid envelope torn
  | .prune keep _ => pruneSteps text keep directory

def exec (directory : Directory B) (call : Op B × ℕ) : Directory B :=
  ((call.1.steps text directory).take call.2).foldl FileStep.run directory

end Model

section Purpose

def retain (s : LocalCheckpointStore) (call : Op B × ℕ) : LocalCheckpointStore :=
  match call.1 with
  | .save _ envelope torn _ => if torn.length + 4 ≤ call.2 then s.save envelope else s
  | .prune keep _ =>
    ((s.loadAll.take (s.loadAll.length - keep)).take call.2).foldl (fun s envelope ↦ s.erase envelope.checkpointId) s

variable (text : EnvelopeText B)

/-- The last `keep` envelopes that are loaded. -/
def newest (keep : ℕ) (directory : Directory B) : List CheckpointEnvelope :=
  (loadAll text directory).drop ((loadAll text directory).length - keep)

structure OrderedMap (directory : Directory B) (s : LocalCheckpointStore) : Prop where
  loads : ∀ envelope, envelope ∈ loadAll text directory ↔ s.lookup envelope.checkpointId = some envelope
  increasing : (loadAll text directory).Pairwise fun e e' ↦ e.checkpointId < e'.checkpointId
  latest : ∀ envelope, loadLatest text directory = some envelope ↔
    s.lookup envelope.checkpointId = some envelope ∧ ∀ id ∈ s, id ≤ envelope.checkpointId
  prunes : ∀ keep (hkeep : 1 ≤ keep) n, (pruneSteps text keep directory).length ≤ n →
    loadAll text (exec text directory (.prune keep hkeep, n)) = newest text keep directory
  spares : ∀ keep (hkeep : 1 ≤ keep) n,
    (newest text keep directory).Sublist (loadAll text (exec text directory (.prune keep hkeep, n)))

end Purpose

section Names

theorem toList_fileName (id : ℕ) :
    (fileName id).toList = "checkpoint-".toList ++ (Nat.toDigits 10 id ++ ".json".toList) := by
  simp [fileName, String.toList_append, Nat.repr]

theorem idOf_fileName {id : ℕ} (hid : id < 2 ^ 64) : idOf "checkpoint-" ".json" (fileName id) = some id := by
  have hprefix : (fileName id).toList.dropPrefix? "checkpoint-".toList = some (Nat.toDigits 10 id ++ ".json".toList) := by
    rw [toList_fileName]
    exact List.dropPrefix?_append_of_beq _ (BEq.refl _)
  have hsuffix : (Nat.toDigits 10 id ++ ".json".toList).dropSuffix? ".json".toList = some (Nat.toDigits 10 id) :=
    List.dropSuffix?_eq_some_iff.mpr ⟨_, rfl, BEq.refl _⟩
  rw [idOf, hprefix, Option.bind_some, hsuffix, Option.bind_some, Text.parseUnsigned_toDigits hid]

theorem idOf_tmpName (pid id : ℕ) : idOf "checkpoint-" ".json" (tmpName pid id) = none := by
  have hprefix : (tmpName pid id).toList.dropPrefix? "checkpoint-".toList = none := by
    simp [tmpName, String.toList_append, List.dropPrefix?]
  rw [idOf, hprefix, Option.bind_none, Option.bind_none]

end Names

section Contents

structure Rep (text : EnvelopeText B) (directory : Directory B) (s : LocalCheckpointStore) : Prop where
  keyed : Keyed s
  id_lt : ∀ id ∈ s, id < 2 ^ 64
  lookup : ∀ id < 2 ^ 64, directory.lookup (fileName id) = (s.lookup id).map text.toVecPretty
  named : ∀ name ∈ directory, (∃ pid id, name = tmpName pid id) ∨ ∃ id < 2 ^ 64, name = fileName id

variable {text : EnvelopeText B} {directory : Directory B} {s : LocalCheckpointStore}

theorem rep_empty (text : EnvelopeText B) : Rep text ∅ ∅ where
  keyed := Dict.All.empty
  id_lt := fun id hid ↦ absurd hid (AList.notMem_empty id)
  lookup := fun _ _ ↦ rfl
  named := fun name hname ↦ absurd hname (AList.notMem_empty name)

theorem Rep.id_of_name (hrep : Rep text directory s) {name : String} (hname : name ∈ directory) {id : ℕ}
    (hid : idOf "checkpoint-" ".json" name = some id) : name = fileName id ∧ id < 2 ^ 64 := by
  rcases hrep.named name hname with ⟨pid, id', rfl⟩ | ⟨id', hlt, rfl⟩
  · rw [idOf_tmpName] at hid
    cases hid
  · rw [idOf_fileName hlt] at hid
    cases hid
    exact ⟨rfl, hlt⟩

theorem Rep.mem_ids (hrep : Rep text directory s) {id : ℕ} :
    id ∈ directory.keys.filterMap (idOf "checkpoint-" ".json") ↔ (s.lookup id).isSome := by
  rw [List.mem_filterMap]
  constructor
  · rintro ⟨name, hname, hid⟩
    obtain ⟨rfl, hlt⟩ := hrep.id_of_name hname hid
    have hfile := AList.lookup_isSome.mpr hname
    rw [hrep.lookup id hlt, Option.isSome_map] at hfile
    exact hfile
  · intro hid
    have hlt := hrep.id_lt id (AList.lookup_isSome.mp hid)
    refine ⟨fileName id, AList.lookup_isSome.mp ?_, idOf_fileName hlt⟩
    rw [hrep.lookup id hlt, Option.isSome_map]
    exact hid

theorem Rep.nodup_ids (hrep : Rep text directory s) :
    (directory.keys.filterMap (idOf "checkpoint-" ".json")).Nodup := by
  refine List.pairwise_filterMap.mpr (directory.keys_nodup.imp_of_mem ?_)
  intro name name' hname hname' hne id hid id' hid' heq
  have hfile := (hrep.id_of_name hname hid).1
  have hfile' := (hrep.id_of_name hname' hid').1
  exact hne (by rw [hfile, hfile', heq])

theorem Rep.loadAll_eq (hrep : Rep text directory s) : loadAll text directory = s.loadAll := by
  have hids : (directory.keys.filterMap (idOf "checkpoint-" ".json")).insertionSort (· ≤ ·) = sortedIds s := by
    refine List.Perm.eq_of_pairwise' (List.pairwise_insertionSort _ _) (List.pairwise_insertionSort _ _) ?_
    refine (List.perm_insertionSort _ _).trans (List.Perm.trans ?_ (List.perm_insertionSort _ _).symm)
    refine (List.perm_ext_iff_of_nodup hrep.nodup_ids s.keys_nodup).mpr fun id ↦ ?_
    rw [hrep.mem_ids, AList.lookup_isSome, AList.mem_keys]
  rw [loadAll, hids]
  refine List.filterMap_congr fun id hid ↦ ?_
  have hmem := AList.lookup_isSome.mp (mem_sortedIds.mp hid)
  rw [hrep.lookup id (hrep.id_lt id hmem)]
  cases s.lookup id with
  | none => rfl
  | some envelope => exact text.fromSlice_toVecPretty envelope

end Contents

section Steps

variable {text : EnvelopeText B} {directory : Directory B} {s : LocalCheckpointStore} {envelope : CheckpointEnvelope}

theorem fileName_ne_tmpName (pid id id' : ℕ) (hid : id < 2 ^ 64) : fileName id ≠ tmpName pid id' := by
  intro heq
  have hnone := idOf_tmpName pid id'
  rw [← heq, idOf_fileName hid] at hnone
  cases hnone

theorem fileName_inj {id id' : ℕ} (hid : id < 2 ^ 64) (hid' : id' < 2 ^ 64) (heq : fileName id = fileName id') :
    id = id' := by
  have hsome := idOf_fileName hid
  rw [heq, idOf_fileName hid'] at hsome
  exact (Option.some.inj hsome).symm

theorem Rep.write (hrep : Rep text directory s) (pid id : ℕ) (bytes : B) :
    Rep text (directory.insert (tmpName pid id) bytes) s where
  keyed := hrep.keyed
  id_lt := hrep.id_lt
  lookup := by
    intro id' hid'
    rw [AList.lookup_insert_ne (fileName_ne_tmpName pid id' id hid')]
    exact hrep.lookup id' hid'
  named := by
    intro name hname
    rcases (AList.mem_insert _).mp hname with rfl | hold
    · exact .inl ⟨pid, id, rfl⟩
    · exact hrep.named name hold

theorem Rep.rename (hrep : Rep text directory s) {pid : ℕ} (hlt : envelope.checkpointId < 2 ^ 64)
    (htmp : directory.lookup (tmpName pid envelope.checkpointId) = some (text.toVecPretty envelope)) :
    Rep text (FileStep.run directory (.rename (tmpName pid envelope.checkpointId) (fileName envelope.checkpointId)))
      (s.save envelope) := by
  simp only [FileStep.run, htmp]
  refine ⟨Core.RestartIds.keyed_save hrep.keyed envelope, ?_, ?_, ?_⟩
  · intro id hid
    rcases (AList.mem_insert _).mp hid with rfl | hold
    · exact hlt
    · exact hrep.id_lt id hold
  · intro id hid
    rcases eq_or_ne id envelope.checkpointId with rfl | hne
    · rw [LocalCheckpointStore.save, AList.lookup_insert, AList.lookup_insert, Option.map_some]
    · have hfile : fileName id ≠ fileName envelope.checkpointId := fun heq ↦ hne (fileName_inj hid hlt heq)
      rw [LocalCheckpointStore.save, AList.lookup_insert_ne hne, AList.lookup_insert_ne hfile,
        AList.lookup_erase_ne (fileName_ne_tmpName pid id _ hid)]
      exact hrep.lookup id hid
  · intro name hname
    rcases (AList.mem_insert _).mp hname with rfl | hold
    · exact .inr ⟨_, hlt, rfl⟩
    · exact hrep.named name (AList.mem_erase.mp hold).2

theorem Rep.removeFile (hrep : Rep text directory s) {id : ℕ} (hlt : id < 2 ^ 64) :
    Rep text (directory.erase (fileName id)) (s.erase id) where
  keyed := Dict.All.erase hrep.keyed id
  id_lt := fun id' hid' ↦ hrep.id_lt id' (AList.mem_erase.mp hid').2
  lookup := by
    intro id' hid'
    rcases eq_or_ne id' id with rfl | hne
    · rw [AList.lookup_erase, AList.lookup_erase, Option.map_none]
    · have hfile : fileName id' ≠ fileName id := fun heq ↦ hne (fileName_inj hid' hlt heq)
      rw [AList.lookup_erase_ne hne, AList.lookup_erase_ne hfile]
      exact hrep.lookup id' hid'
  named := fun name hname ↦ hrep.named name (AList.mem_erase.mp hname).2

end Steps

section Calls

variable {text : EnvelopeText B} {directory : Directory B} {s : LocalCheckpointStore}

def Temporary (pid id : ℕ) : FileStep B → Prop
  | .write name _ => name = tmpName pid id
  | .syncAll => True
  | _ => False

theorem Rep.temporary (hrep : Rep text directory s) {pid id : ℕ} {steps : List (FileStep B)}
    (hsteps : ∀ step ∈ steps, Temporary pid id step) : Rep text (steps.foldl FileStep.run directory) s := by
  induction steps generalizing directory with
  | nil => exact hrep
  | cons step steps ih =>
    obtain ⟨hstep, hsteps⟩ := List.forall_mem_cons.mp hsteps
    refine ih ?_ hsteps
    cases step with
    | write name bytes =>
      obtain rfl : name = tmpName pid id := hstep
      exact hrep.write pid id bytes
    | rename source target => exact hstep.elim
    | removeFile name => exact hstep.elim
    | syncAll => exact hrep

def writing (text : EnvelopeText B) (pid : ℕ) (envelope : CheckpointEnvelope) (torn : List B) : List (FileStep B) :=
  let tmp := tmpName pid envelope.checkpointId
  .write tmp text.empty :: torn.map (.write tmp) ++ [.write tmp (text.toVecPretty envelope), .syncAll]

theorem saveSteps_eq (text : EnvelopeText B) (pid : ℕ) (envelope : CheckpointEnvelope) (torn : List B) :
    saveSteps text pid envelope torn = writing text pid envelope torn ++
      [.rename (tmpName pid envelope.checkpointId) (fileName envelope.checkpointId), .syncAll] := by
  simp [saveSteps, writing]

theorem length_writing (text : EnvelopeText B) (pid : ℕ) (envelope : CheckpointEnvelope) (torn : List B) :
    (writing text pid envelope torn).length = torn.length + 3 := by
  simp [writing]

theorem temporary_writing {pid : ℕ} {envelope : CheckpointEnvelope} {torn : List B} :
    ∀ step ∈ writing text pid envelope torn, Temporary pid envelope.checkpointId step := by
  intro step hstep
  simp only [writing, List.cons_append, List.mem_cons, List.mem_append, List.mem_map, List.not_mem_nil,
    or_false] at hstep
  rcases hstep with rfl | ⟨bytes, hbytes, rfl⟩ | rfl | rfl
  · rfl
  · rfl
  · rfl
  · trivial

theorem lookup_writing (text : EnvelopeText B) (directory : Directory B) (pid : ℕ) (envelope : CheckpointEnvelope)
    (torn : List B) :
    AList.lookup (tmpName pid envelope.checkpointId)
      ((writing text pid envelope torn).foldl FileStep.run directory) = some (text.toVecPretty envelope) := by
  rw [writing, List.foldl_append]
  exact AList.lookup_insert _

theorem Rep.save (hrep : Rep text directory s) {pid : ℕ} {envelope : CheckpointEnvelope} {torn : List B}
    (hlt : envelope.checkpointId < 2 ^ 64) (n : ℕ) :
    Rep text (exec text directory (.save pid envelope torn hlt, n)) (retain s (.save pid envelope torn hlt, n)) := by
  have hlength := length_writing text pid envelope torn
  simp only [exec, Op.steps, retain, saveSteps_eq]
  split
  · next hdone =>
    obtain ⟨k, rfl⟩ : ∃ k, n = (writing text pid envelope torn).length + (k + 1) := ⟨n - (torn.length + 4), by omega⟩
    rw [List.take_length_add_append, List.foldl_append, List.take_succ_cons, List.foldl_cons]
    have hrenamed := (hrep.temporary temporary_writing).rename hlt (lookup_writing text directory pid envelope torn)
    cases k with
    | zero => exact hrenamed
    | succ k => simpa [FileStep.run] using hrenamed
  · next hcut =>
    rw [List.take_append_of_le_length (by omega)]
    exact hrep.temporary fun step hstep ↦ temporary_writing step (List.mem_of_mem_take hstep)

theorem Rep.removeAll {envelopes : List CheckpointEnvelope} (hrep : Rep text directory s)
    (hlt : ∀ envelope ∈ envelopes, envelope.checkpointId < 2 ^ 64) :
    Rep text ((envelopes.map fun e ↦ FileStep.removeFile (fileName e.checkpointId)).foldl FileStep.run directory)
      (envelopes.foldl (fun s envelope ↦ s.erase envelope.checkpointId) s) := by
  induction envelopes generalizing directory s with
  | nil => exact hrep
  | cons envelope envelopes ih =>
    obtain ⟨hhead, htail⟩ := List.forall_mem_cons.mp hlt
    exact ih (hrep.removeFile hhead) htail

theorem mem_loadAll (hs : Keyed s) {envelope : CheckpointEnvelope} :
    envelope ∈ s.loadAll ↔ s.lookup envelope.checkpointId = some envelope := by
  rw [LocalCheckpointStore.loadAll, List.mem_filterMap]
  constructor
  · rintro ⟨id, -, hlookup⟩
    rw [hs id envelope hlookup]
    exact hlookup
  · intro hlookup
    exact ⟨envelope.checkpointId, mem_sortedIds.mpr (by rw [hlookup]; rfl), hlookup⟩

theorem Rep.id_lt_of_mem (hrep : Rep text directory s) {envelope : CheckpointEnvelope}
    (henvelope : envelope ∈ s.loadAll) : envelope.checkpointId < 2 ^ 64 := by
  have hlookup := (mem_loadAll hrep.keyed).mp henvelope
  exact hrep.id_lt _ (AList.lookup_isSome.mp (by rw [hlookup]; rfl))

theorem Rep.prune (hrep : Rep text directory s) {keep : ℕ} (hkeep : 1 ≤ keep) (n : ℕ) :
    Rep text (exec text directory (.prune keep hkeep, n)) (retain s ((.prune keep hkeep : Op B), n)) := by
  simp only [exec, Op.steps, retain, pruneSteps, hrep.loadAll_eq]
  rw [← List.map_take]
  refine hrep.removeAll fun envelope henvelope ↦ hrep.id_lt_of_mem ?_
  exact List.mem_of_mem_take (List.mem_of_mem_take henvelope)

theorem Rep.call (hrep : Rep text directory s) (call : Op B × ℕ) :
    Rep text (exec text directory call) (retain s call) := by
  obtain ⟨op, n⟩ := call
  cases op with
  | save pid envelope torn hlt => exact hrep.save hlt n
  | prune keep hkeep => exact hrep.prune hkeep n

theorem Rep.calls (hrep : Rep text directory s) (calls : List (Op B × ℕ)) :
    Rep text (calls.foldl (exec text) directory) (calls.foldl retain s) := by
  induction calls generalizing directory s with
  | nil => exact hrep
  | cons call calls ih => exact ih (hrep.call call)

end Calls

section Order

variable {text : EnvelopeText B} {directory : Directory B} {s : LocalCheckpointStore}

theorem increasing_loadAll (hs : Keyed s) : s.loadAll.Pairwise fun e e' ↦ e.checkpointId < e'.checkpointId := by
  have hsorted := sortedIds_pairwise s
  rw [← ids_loadAll hs] at hsorted
  exact List.pairwise_map.mp hsorted

theorem loadAll_eraseFront (hs : Keyed s) (m : ℕ) :
    LocalCheckpointStore.loadAll ((s.loadAll.take m).foldl (fun s envelope ↦ s.erase envelope.checkpointId) s) =
      s.loadAll.drop m := by
  have hincreasing := increasing_loadAll hs
  have hlookup := lookup_eraseAll (s.loadAll.take m) s
  generalize (s.loadAll.take m).foldl (fun s envelope ↦ AList.erase envelope.checkpointId s) s = t at hlookup ⊢
  have ht : Keyed t := by
    intro id envelope henvelope
    rw [hlookup] at henvelope
    split at henvelope
    · cases henvelope
    · exact hs id envelope henvelope
  have : Std.Antisymm fun e e' : CheckpointEnvelope ↦ e.checkpointId < e'.checkpointId :=
    ⟨fun e e' hlt hgt ↦ absurd hgt (Nat.lt_asymm hlt)⟩
  have : Std.Irrefl fun e e' : CheckpointEnvelope ↦ e.checkpointId < e'.checkpointId :=
    ⟨fun e ↦ Nat.lt_irrefl _⟩
  refine List.Pairwise.eq_of_mem_iff (increasing_loadAll ht) (hincreasing.sublist (List.drop_sublist m _)) ?_
  intro envelope
  rw [mem_loadAll ht, hlookup]
  have hsplit := List.take_append_drop m s.loadAll
  have hbelow := (List.pairwise_append.mp (hsplit.symm ▸ hincreasing)).2.2
  constructor
  · intro hkept
    split at hkept
    · cases hkept
    · next hnot =>
      have hmem := (mem_loadAll hs).mpr hkept
      rw [← hsplit] at hmem
      exact (List.mem_append.mp hmem).resolve_left fun hfront ↦ hnot (List.mem_map_of_mem hfront)
  · intro hback
    rw [if_neg]
    · exact (mem_loadAll hs).mp (List.mem_of_mem_drop hback)
    · intro hid
      obtain ⟨older, holder, heq⟩ := List.mem_map.mp hid
      exact Nat.lt_irrefl _ (heq ▸ hbelow older holder envelope hback)

theorem foldl_latest {envelopes : List CheckpointEnvelope} {latest : Option CheckpointEnvelope}
    (hincreasing : envelopes.Pairwise fun e e' ↦ e.checkpointId < e'.checkpointId)
    (hlatest : ∀ l ∈ latest, ∀ e ∈ envelopes, l.checkpointId < e.checkpointId) :
    envelopes.foldl (fun latest envelope ↦
      if latest.all fun l : CheckpointEnvelope ↦ l.checkpointId < envelope.checkpointId then
        some envelope
      else latest) latest = envelopes.getLast?.or latest := by
  induction envelopes generalizing latest with
  | nil => rfl
  | cons e es ih =>
    obtain ⟨hhead, htail⟩ := List.pairwise_cons.mp hincreasing
    have hnew : (latest.all fun l ↦ l.checkpointId < e.checkpointId) = true := by
      rw [Option.all_eq_true]
      exact fun l hl ↦ decide_eq_true (hlatest l hl e List.mem_cons_self)
    rw [List.foldl_cons, if_pos hnew, ih htail]
    · cases es with
      | nil => rfl
      | cons e' es => simp [List.getLast?_cons]
    · rintro l ⟨⟩ e' he'
      exact hhead e' he'

theorem loadLatest_eq_some (hs : Keyed s) {envelope : CheckpointEnvelope} :
    s.loadLatest = some envelope ↔
      s.lookup envelope.checkpointId = some envelope ∧ ∀ id ∈ s, id ≤ envelope.checkpointId := by
  have hincreasing := increasing_loadAll hs
  have hlast : s.loadLatest = s.loadAll.getLast? := by
    have hnone : ∀ l ∈ (none : Option CheckpointEnvelope), ∀ e ∈ s.loadAll, l.checkpointId < e.checkpointId := by
      intro l hl
      cases hl
    rw [LocalCheckpointStore.loadLatest, foldl_latest hincreasing hnone, Option.or_none]
  have hids : ∀ id, id ∈ s ↔ ∃ e ∈ s.loadAll, e.checkpointId = id := by
    intro id
    rw [← AList.lookup_isSome, ← mem_sortedIds, ← ids_loadAll hs, List.mem_map]
  rw [hlast, ← mem_loadAll hs]
  constructor
  · intro hsome
    obtain ⟨older, hall⟩ := List.getLast?_eq_some_iff.mp hsome
    refine ⟨by simp [hall], fun id hid ↦ ?_⟩
    obtain ⟨e, he, rfl⟩ := (hids id).mp hid
    rw [hall] at he hincreasing
    rcases List.mem_append.mp he with hold | hnew
    · exact Nat.le_of_lt ((List.pairwise_append.mp hincreasing).2.2 e hold envelope (by simp))
    · rw [List.mem_singleton.mp hnew]
  · rintro ⟨hmem, hbound⟩
    rcases List.eq_nil_or_concat s.loadAll with hnil | ⟨older, newest, hall⟩
    · rw [hnil] at hmem
      cases hmem
    · rw [List.concat_eq_append] at hall
      rw [hall, List.getLast?_concat]
      have hle := hbound newest.checkpointId ((hids _).mpr ⟨newest, by simp [hall], rfl⟩)
      rw [hall] at hmem hincreasing
      rcases List.mem_append.mp hmem with hold | hnew
      · have hlt := (List.pairwise_append.mp hincreasing).2.2 envelope hold newest (by simp)
        omega
      · rw [List.mem_singleton.mp hnew]

theorem Rep.loadAll_prune (hrep : Rep text directory s) {keep : ℕ} (hkeep : 1 ≤ keep) (n : ℕ) :
    loadAll text (exec text directory (.prune keep hkeep, n)) =
      s.loadAll.drop (min n (s.loadAll.length - keep)) := by
  have hloads := (hrep.prune hkeep n).loadAll_eq
  simp only [retain, List.take_take] at hloads
  rw [hloads]
  exact loadAll_eraseFront hrep.keyed _

theorem Rep.orderedMap (hrep : Rep text directory s) : OrderedMap text directory s where
  loads := by
    intro envelope
    rw [hrep.loadAll_eq]
    exact mem_loadAll hrep.keyed
  increasing := by
    rw [hrep.loadAll_eq]
    exact increasing_loadAll hrep.keyed
  latest := by
    intro envelope
    rw [loadLatest, hrep.loadAll_eq]
    exact loadLatest_eq_some hrep.keyed
  prunes := by
    intro keep hkeep n hn
    rw [pruneSteps, hrep.loadAll_eq, List.length_map, List.length_take] at hn
    rw [hrep.loadAll_prune hkeep, newest, hrep.loadAll_eq, Nat.min_eq_right (by omega)]
  spares := by
    intro keep hkeep n
    rw [hrep.loadAll_prune hkeep, newest, hrep.loadAll_eq]
    exact List.drop_sublist_drop_left _ (Nat.min_le_right _ _)

/-- However the calls go and wherever they stop, the directory shows the saves that were completed and not removed. -/
theorem directory_is_ordered_map (text : EnvelopeText B) (calls : List (Op B × ℕ)) :
    OrderedMap text (calls.foldl (exec text) ∅) (calls.foldl retain ∅) :=
  ((rep_empty text).calls calls).orderedMap

end Order

section Crash

def envelopeAt (checkpointId : ℕ) : CheckpointEnvelope where
  jobId := "j"
  checkpointId := checkpointId
  timestamp := 0
  isFinal := false
  tasks := []

/-- The second save dies before its rename, and a prune follows after the restart. -/
def crashedSave : List (Op (Option Json) × ℕ) :=
  [(.save 7 (envelopeAt 1) [] (by decide), 5), (.save 7 (envelopeAt 2) [none] (by decide), 4), (.prune 1 (by decide), 9)]

theorem crashedSave_keeps_first :
    loadLatest envelopeText (crashedSave.foldl (exec envelopeText) ∅) = some (envelopeAt 1) := by
  have hretained : crashedSave.foldl retain ∅ = LocalCheckpointStore.save (envelopeAt 1) ∅ := rfl
  refine ((directory_is_ordered_map envelopeText crashedSave).latest (envelopeAt 1)).mpr ?_
  rw [hretained]
  refine ⟨rfl, fun id hid ↦ ?_⟩
  have hone : id ∈ (LocalCheckpointStore.save (envelopeAt 1) ∅).keys := hid
  obtain rfl : id = 1 := by simpa [LocalCheckpointStore.save, envelopeAt] using hone
  exact le_refl 1

end Crash

end SeaTunnel.Server.CheckpointFiles
