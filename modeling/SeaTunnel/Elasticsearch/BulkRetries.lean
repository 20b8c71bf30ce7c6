import SeaTunnel.Elasticsearch.SinkBatches
import SeaTunnel.Formats.JsonValue
import SeaTunnel.Lib.Replay

namespace SeaTunnel.Elasticsearch.BulkRetries

open Lib Fallible Connectors.SinkClient Elasticsearch.Sink Elasticsearch.SinkBatches Replay
open Formats.JsonValue (Value)
open Jdbc.XaSink (Row)

variable {F D : Type}

section Model

structure Response where
  status : ℕ
  text : String

/-- What a bulk action does to the document of its index and id. -/
abbrev Keyed (F : Type) : Type := (String × String) × Change String F

abbrev Contents (F : Type) : Type := String × String → Option (String → Option F)

def keyed : BulkAction F → Option (Keyed F)
  | .update index id doc => some ((index, id), .upsert doc)
  | .delete index id => some ((index, id), .remove)
  | .index _ _ => none

def changes (body : List (BulkAction F)) : List (Keyed F) := body.filterMap keyed

def applyChange (record : Option (String → Option F)) (change : Keyed F) : Option (String → Option F) :=
  apply record change.2

def applyAll (changes : List (Keyed F)) (contents : Contents F) : Contents F :=
  changes.foldl (changeAt Prod.fst applyChange) contents

def hasItemErrors (parsed : Option Value) : Bool :=
  match (parsed.bind Value.asObject).bind (·.lookup "errors") with
  | some (.bool b) => b
  | _ => false

/-- A cluster and its JSON. A bulk request that is accepted applied all its actions, and any other some of them
in their order. -/
structure Cluster (F D : Type) where
  content : D → Contents F
  post : List (BulkAction F) → D → Except String Response × D
  parse : String → Option Value
  firstItem : Option Value → String
  accepted : ∀ body db response, (∀ a ∈ body, (keyed a).isSome) → (post body db).1 = .ok response →
    200 ≤ response.status ∧ response.status < 300 → hasItemErrors (parse response.text) = false →
      content (post body db).2 = applyAll (changes body) (content db)
  refused : ∀ body db, (∀ a ∈ body, (keyed a).isSome) →
    ∃ applied, applied.Sublist (changes body) ∧ content (post body db).2 = applyAll applied (content db)

/-- `EsClient::bulk`. -/
def Cluster.bulk (cluster : Cluster F D) (body : List (BulkAction F)) (db : D) : Except String Unit × D :=
  if body.isEmpty then (.ok (), db)
  else
    match cluster.post body db with
    | (.error e, db) => (.error e, db)
    | (.ok response, db) =>
      if ¬(200 ≤ response.status ∧ response.status < 300) then
        (.error ("_bulk failed (" ++ toString response.status ++ "): " ++ response.text), db)
      else if hasItemErrors (cluster.parse response.text) then
        (.error ("_bulk reported item-level errors: " ++ cluster.firstItem (cluster.parse response.text)), db)
      else (.ok (), db)

def backedBy (server : EsServer F D) (cluster : Cluster F D) : EsServer F D := { server with bulk := cluster.bulk }

end Model

section Property

variable (server : EsServer F D) (cluster : Cluster F D)

def base (s : State F D) : Contents F :=
  if s.self.buffer.isEmpty then cluster.content s.db
  else cluster.content (makeReady (backedBy server cluster) s).2.db

def changeOf (text : F → Option String) (w : EsSinkWriter F) (row : Row F) : Option (Keyed F) :=
  (w.bulkAction text row).bind keyed

def applyBatch (text : F → Option String) (w : EsSinkWriter F) (contents : Contents F) : Contents F :=
  applyAll (w.buffer.filterMap (changeOf text w)) contents

def HasId (text : F → Option String) (w : EsSinkWriter F) (row : Row F) : Prop :=
  (documentId text row w.config.primaryKeys w.config.keyDelimiter).isSome

instance (text : F → Option String) (w : EsSinkWriter F) (row : Row F) : Decidable (HasId text w row) :=
  inferInstanceAs (Decidable (Option.isSome _ = true))

end Property

section Changes

variable {text : F → Option String} {w : EsSinkWriter F} {rows : List (Row F)} {row : Row F}

theorem overwrites_applyChange : Overwrites (applyChange : Option (String → Option F) → Keyed F → _) where
  idem record change := overwrites_apply.idem record change.2
  congr record record' change change' h := overwrites_apply.congr record record' change.2 change'.2 h

theorem applyAll_apply (changes : List (Keyed F)) (contents : Contents F) (k : String × String) :
    applyAll changes contents k = (changes.filter fun c ↦ c.1 = k).foldl applyChange (contents k) :=
  foldl_changeAt Prod.fst applyChange changes contents k

theorem keyed_of_hasId (hid : HasId text w row) {a : BulkAction F} (ha : w.bulkAction text row = some a) :
    ∃ id change, keyed a = some ((w.resolveIndex text (some row), id), change) := by
  obtain ⟨id, hid⟩ := Option.isSome_iff_exists.mp hid
  unfold EsSinkWriter.bulkAction at ha
  rw [hid] at ha
  cases hkind : row.kind <;> simp only [hkind, Option.map_some] at ha
  · cases ha
    exact ⟨id, _, rfl⟩
  · split_ifs at ha
    cases ha
    exact ⟨id, _, rfl⟩
  · cases ha
    exact ⟨id, _, rfl⟩
  · split_ifs at ha
    cases ha
    exact ⟨id, _, rfl⟩

theorem index_of_changeOf (hid : HasId text w row) {change : Keyed F} (h : changeOf text w row = some change) :
    change.1.1 = w.resolveIndex text (some row) := by
  obtain ⟨a, ha, hkeyed⟩ := Option.bind_eq_some_iff.mp h
  obtain ⟨id, c, hc⟩ := keyed_of_hasId hid ha
  rw [hc] at hkeyed
  cases hkeyed
  rfl

variable (text w) in
def group (index : String) (rows : List (Row F)) : List (Row F) :=
  rows.filter fun row ↦ w.resolveIndex text (some row) = index

theorem changes_group_sublist (index : String) :
    ((group text w index rows).filterMap (changeOf text w)).Sublist (rows.filterMap (changeOf text w)) :=
  List.Sublist.filterMap _ List.filter_sublist

theorem filter_group (hids : ∀ row ∈ rows, HasId text w row) (index : String) (k : String × String) :
    ((group text w index rows).filterMap (changeOf text w)).filter (fun c ↦ c.1 = k) =
      if k.1 = index then (rows.filterMap (changeOf text w)).filter (fun c ↦ c.1 = k) else [] := by
  induction rows with
  | nil => split_ifs <;> rfl
  | cons row rows ih =>
    obtain ⟨hid, hids⟩ := List.forall_mem_cons.mp hids
    have ih := ih hids
    rw [group] at ih ⊢
    cases hchange : changeOf text w row with
    | none =>
      rw [List.filterMap_cons_none hchange, ← ih, List.filter_cons]
      split_ifs
      · rw [List.filterMap_cons_none hchange]
      · rfl
    | some change =>
      have hindex := index_of_changeOf hid hchange
      rw [List.filterMap_cons_some hchange]
      by_cases hrow : w.resolveIndex text (some row) = index
      · rw [List.filter_cons_of_pos (by simpa using hrow), List.filterMap_cons_some hchange, List.filter_cons, ih]
        by_cases hk : change.1 = k
        · subst hk
          simp [hindex, hrow]
        · simp [hk]
      · rw [List.filter_cons_of_neg (by simpa using hrow), ih]
        by_cases hk : change.1 = k
        · subst hk
          simp [hindex, hrow]
        · simp [hk]

theorem applyAll_group (hids : ∀ row ∈ rows, HasId text w row) (index : String) (contents : Contents F)
    (k : String × String) : applyAll ((group text w index rows).filterMap (changeOf text w)) contents k =
      if k.1 = index then applyAll (rows.filterMap (changeOf text w)) contents k else contents k := by
  rw [applyAll_apply, filter_group hids]
  split_ifs
  · rw [applyAll_apply]
  · rfl

theorem applyAll_replay {index : String} {applied : List (Keyed F)}
    (happlied : applied.Sublist ((group text w index rows).filterMap (changeOf text w))) (contents : Contents F) :
    applyAll (rows.filterMap (changeOf text w)) (applyAll applied contents) =
      applyAll (rows.filterMap (changeOf text w)) contents := by
  funext k
  rw [applyAll_apply, applyAll_apply, applyAll_apply]
  exact overwrites_applyChange.foldl_replay ((happlied.trans (changes_group_sublist index)).filter _) _

end Changes

section Attempts

variable {server : EsServer F D} {cluster : Cluster F D} {text : F → Option String} {w : EsSinkWriter F}
  {rows : List (Row F)} {body : List (BulkAction F)}

theorem bulk_ok {db : D} (hids : ∀ a ∈ body, (keyed a).isSome) (h : (cluster.bulk body db).1 = .ok ()) :
    cluster.content (cluster.bulk body db).2 = applyAll (changes body) (cluster.content db) := by
  unfold Cluster.bulk at h ⊢
  split_ifs at h ⊢ with hempty
  · rw [List.isEmpty_iff.mp hempty]
    rfl
  · cases hpost : cluster.post body db with
    | mk result db' =>
      rw [hpost] at h
      cases result with
      | error e => cases h
      | ok response =>
        dsimp only at h ⊢
        split_ifs at h ⊢ with hstatus herrors
        have haccepted := cluster.accepted body db response hids (by rw [hpost]) hstatus
          (Bool.eq_false_iff.mpr herrors)
        rwa [hpost] at haccepted

theorem bulk_applied (hids : ∀ a ∈ body, (keyed a).isSome) (db : D) : ∃ applied, applied.Sublist (changes body) ∧
    cluster.content (cluster.bulk body db).2 = applyAll applied (cluster.content db) := by
  unfold Cluster.bulk
  split_ifs with hempty
  · exact ⟨[], List.nil_sublist _, rfl⟩
  · obtain ⟨applied, hsub, hcontent⟩ := cluster.refused body db hids
    refine ⟨applied, hsub, ?_⟩
    rw [← hcontent]
    cases cluster.post body db with
    | mk result db' =>
      cases result with
      | error e => rfl
      | ok response =>
        dsimp only
        split_ifs <;> rfl

def Replayable (cluster : Cluster F D) (text : F → Option String) (w : EsSinkWriter F) (rows : List (Row F))
    (target : Contents F) (s : State F D) : Prop :=
  applyAll (rows.filterMap (changeOf text w)) (cluster.content s.db) = target

def Reached (cluster : Cluster F D) (text : F → Option String) (w : EsSinkWriter F) (rows : List (Row F))
    (target : Contents F) (indices : List String) (s : State F D) : Prop :=
  Replayable cluster text w rows target s ∧ ∀ k : String × String, k.1 ∉ indices → cluster.content s.db k = target k

theorem Reached.next {target : Contents F} {index : String} {indices : List String} {s s' : State F D}
    (h : Reached cluster text w rows target (index :: indices) s) (hids : ∀ row ∈ rows, HasId text w row)
    (hcontent : cluster.content s'.db =
      applyAll ((group text w index rows).filterMap (changeOf text w)) (cluster.content s.db)) :
    Reached cluster text w rows target indices s' := by
  refine ⟨?_, fun k hk ↦ ?_⟩
  · rw [Replayable, hcontent, applyAll_replay (List.Sublist.refl _)]
    exact h.1
  · rw [hcontent, applyAll_group hids]
    split_ifs with hindex
    · exact congrFun h.1 k
    · exact h.2 k fun hmem ↦ (List.mem_cons.mp hmem).elim hindex hk

theorem bulkIndex_reaches (hids : ∀ row ∈ rows, HasId server.text w row) (target : Contents F) (index : String)
    (indices : List String) :
    Triple (Reached cluster server.text w rows target (index :: indices))
      (bulkIndex (backedBy server cluster) w (group server.text w index rows))
      (fun _ ↦ Reached cluster server.text w rows target indices)
      (Replayable cluster server.text w rows target) := by
  let body := (group server.text w index rows).filterMap (w.bulkAction server.text)
  have hkeyed : ∀ a ∈ body, (keyed a).isSome := by
    intro a ha
    obtain ⟨row, hrow, ha⟩ := List.mem_filterMap.mp ha
    obtain ⟨id, change, hchange⟩ := keyed_of_hasId (hids row (List.mem_of_mem_filter hrow)) ha
    rw [hchange, Option.isSome_some]
  have hchanges : changes body = (group server.text w index rows).filterMap (changeOf server.text w) :=
    List.filterMap_filterMap
  refine .ite (fun hempty ↦ ?_) fun _ ↦ ?_
  · -- nothing is sent for an index without actions
    refine .modify fun s hs ↦ hs.next hids ?_
    rw [← hchanges, show body = [] from List.isEmpty_iff.mp hempty]
    rfl
  · refine triple_send_result (fun s hs hresult ↦ ?_) fun s e hs _ ↦ ?_
    · exact hs.next hids ((bulk_ok hkeyed hresult).trans (by rw [hchanges]))
    · obtain ⟨applied, hsub, hcontent⟩ := bulk_applied hkeyed s.db
      rw [hchanges] at hsub
      change applyAll _ (cluster.content (cluster.bulk body s.db).2) = target
      rw [hcontent, applyAll_replay hsub]
      exact hs.1

theorem bulkRows_applies (hids : ∀ row ∈ rows, HasId server.text w row) (target : Contents F) :
    Triple (fun s ↦ s.self = w ∧ Replayable cluster server.text w rows target s) (bulkRows (backedBy server cluster) rows)
      (fun _ s ↦ cluster.content s.db = target) fun _ ↦ True := by
  refine .get ?_
  rintro s₀ ⟨rfl, hreplayable⟩
  refine .ite (fun _ ↦ .fail fun _ _ ↦ trivial) fun _ ↦ ?_
  let indices := server.iteration s₀.db (rows.map fun row ↦ s₀.self.resolveIndex server.text (some row)).dedup
  have hattempt : Triple (Replayable cluster server.text s₀.self rows target)
      (each (fun index ↦ bulkIndex (backedBy server cluster) s₀.self (group server.text s₀.self index rows)) indices)
      (fun _ ↦ Reached cluster server.text s₀.self rows target [])
      (Replayable cluster server.text s₀.self rows target) := by
    refine (Triple.each (fun index indices ↦ bulkIndex_reaches hids target index indices) indices).pre fun s hs ↦ ⟨hs, ?_⟩
    intro k hk
    have hnone : (rows.filterMap (changeOf server.text s₀.self)).filter (fun c ↦ c.1 = k) = [] := by
      refine List.filter_eq_nil_iff.mpr fun change hchange hkey ↦ hk ?_
      obtain ⟨row, hrow, hchange⟩ := List.mem_filterMap.mp hchange
      rw [← of_decide_eq_true hkey, index_of_changeOf (hids row hrow) hchange]
      exact (server.iteration_perm _ _).mem_iff.mpr (List.mem_dedup.mpr (List.mem_map_of_mem hrow))
    have hs := congrFun hs k
    rwa [applyAll_apply, hnone] at hs
  refine .bind ((triple_retrying hattempt _).weaken ?_ (fun _ _ hs ↦ hs) fun _ _ ↦ trivial) fun _ ↦ ?_
  · rintro s rfl
    exact hreplayable
  · refine .modify fun s hs ↦ ?_
    exact funext fun k ↦ hs.2 k List.not_mem_nil

theorem changeOf_congr {w' : EsSinkWriter F} (hconfig : w'.config = w.config) (hnames : w'.fieldNames = w.fieldNames)
    (hparts : w'.tableParts = w.tableParts) : changeOf text w' = changeOf text w := by
  funext row
  simp only [changeOf, EsSinkWriter.bulkAction, EsSinkWriter.resolveIndex, hconfig, hnames, hparts]

def SameBatch (w : EsSinkWriter F) (s : State F D) : Prop :=
  s.self.buffer = w.buffer ∧ s.self.config = w.config ∧ s.self.fieldNames = w.fieldNames ∧
    s.self.tableParts = w.tableParts

theorem sameBatch_readyClosed (w : EsSinkWriter F) : ReadyClosed (SameBatch w : State F D → Prop) where
  asked _ _ hs := hs
  client _ hs := hs
  request _ _ _ _ hs _ := hs
  applied _ hs := hs

end Attempts

section Flush

variable (server : EsServer F D) (cluster : Cluster F D)

/-- When a flush succeeds, its batch has been applied once in the order of its rows. -/
theorem flush_applies_once {s s' : State F D} (hids : ∀ row ∈ s.self.buffer, HasId server.text s.self row)
    (hflush : flush (backedBy server cluster) s = (.ok (), s')) :
    cluster.content s'.db = applyBatch server.text s.self (base server cluster s) := by
  rw [flush, get_bind] at hflush
  rw [base]
  split_ifs at hflush ⊢ with hempty
  · cases hflush
    rw [applyBatch, List.isEmpty_iff.mp hempty]
    rfl
  · have hmake : makeReady (backedBy server cluster) s = ensureReady (backedBy server cluster)
        (s.self.buffer.head?.map fun row ↦ { row with kind := .insert }) s := rfl
    rcases hready : makeReady (backedBy server cluster) s with ⟨e | u, s₁⟩
    · rw [bind_error (hmake ▸ hready)] at hflush
      cases hflush
    · obtain ⟨hbuffer, hconfig, hnames, hparts⟩ : SameBatch s.self s₁ :=
        (ensureReady_keeps (sameBatch_readyClosed s.self) _).ok ⟨rfl, rfl, rfl, rfl⟩ (hmake ▸ hready)
      rw [bind_ok (hmake ▸ hready)] at hflush
      have hbulk : bulkRows (backedBy server cluster) s₁.self.buffer { s₁ with self.buffer := [] } = (.ok (), s') := hflush
      have hchange : changeOf server.text { s₁.self with buffer := [] } = changeOf server.text s.self :=
        changeOf_congr hconfig hnames hparts
      rw [hbuffer] at hbulk
      have happlied := (bulkRows_applies (w := { s₁.self with buffer := [] }) (fun row hrow ↦ ?_) _).ok ⟨rfl, rfl⟩ hbulk
      · rw [happlied, hchange]
        rfl
      · have hid := hids row hrow
        rwa [HasId, ← hconfig] at hid

def flaky : Cluster ℕ (ℕ × Contents ℕ) where
  content := Prod.snd
  post body db :=
    match db.1 with
    | 0 => (.ok ⟨200, ""⟩, (0, applyAll (changes body) db.2))
    | n + 1 => (.error "timeout", (n, applyAll ((changes body).take 1) db.2))
  parse _ := none
  firstItem _ := ""
  accepted body db response _ hok _ _ := by
    obtain ⟨n, contents⟩ := db
    cases n with
    | zero => rfl
    | succ n => cases hok
  refused body db _ := by
    obtain ⟨n, contents⟩ := db
    cases n with
    | zero => exact ⟨_, List.Sublist.refl _, rfl⟩
    | succ n => exact ⟨_, List.take_sublist 1 _, rfl⟩

def plainServer : EsServer ℕ (ℕ × Contents ℕ) where
  text n := some (toString n)
  newClient db := (.ok (), db)
  parseDsl _ := .ok ()
  indexExists _ db := (.ok true, db)
  count _ db := (.ok 0, db)
  exec _ db := (.ok (), db)
  bulk _ db := (.ok (), db)
  iteration _ indices := indices
  iteration_perm _ _ := .refl _

def twoRows : State ℕ (ℕ × Contents ℕ) where
  self := {
    config := {
      index := "i"
      primaryKeys := ["f0"]
      keyDelimiter := "_"
      batchSize := 2
      maxRetryCount := 1
      schemaSaveMode := .ignore
      dataSaveMode := .appendData
      customProcessingQuery := none
      enableDocDelete := true
      batchSize_pos := Nat.two_pos }
    client := true
    buffer := [⟨.delete, [1]⟩, ⟨.insert, [1, 5]⟩]
    saveModeApplied := true }
  db := (1, fun _ ↦ none)

/-- The delete is repeated behind a time-out, and then the insert applied. -/
theorem flush_applies_once_flaky : flaky.content (flush (backedBy plainServer flaky) twoRows).2.db =
    applyBatch plainServer.text twoRows.self (base plainServer flaky twoRows) :=
  flush_applies_once plainServer flaky (by decide +kernel) (Prod.ext rfl rfl)

end Flush

end SeaTunnel.Elasticsearch.BulkRetries
