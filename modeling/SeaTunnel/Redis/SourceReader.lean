import SeaTunnel.Jdbc.XaSink
import SeaTunnel.Lib.Dict

namespace SeaTunnel.Redis.SourceReader

open Core.TaskLoop Lib
open Jdbc.XaSink (RowKind Row)

variable {S : Type}

section Model

inductive Field (S : Type)
  | string (s : String)
  | float64 (score : S)
  deriving DecidableEq, Repr

/-- What a key holds. `list` and `zset` stand in the order in which the server lists them, with scores of type `S`. -/
inductive Value (S : Type)
  | string (value : String)
  | hash (fields : Dict String String)
  | list (members : List String)
  | set (members : List String)
  | zset (pairs : List (String × S))
  | other

/-- The replies of one scan: batches with cursors that go on, and the batch with cursor 0. -/
structure Replies where
  more : List ({ cursor : UInt64 // cursor ≠ 0 } × List String)
  last : List String

def goOn (more : List ({ cursor : UInt64 // cursor ≠ 0 } × List String)) : List (UInt64 × List String) :=
  more.map fun r ↦ (r.1.1, r.2)

def Replies.all (replies : Replies) : List (UInt64 × List String) := goOn replies.more ++ [(0, replies.last)]

structure RedisConn (S : Type) where
  keyspace : String → Option (Value S)
  replies : Replies
  ahead : List (UInt64 × List String) := []
  answered : List (UInt64 × List String) := []

structure RedisSourceReader (S : Type) where
  conn : Option (RedisConn S) := none
  scanCursor : Option UInt64 := none
  scannedKeys : List String := []
  keyIndex : ℕ := 0
  pending : List (Row (Field S)) := []
  done : Bool := false

def RedisConn.from (conn : RedisConn S) (cursor : UInt64) : List (UInt64 × List String) :=
  if cursor = 0 then conn.replies.all else conn.ahead

def RedisConn.scan (conn : RedisConn S) (cursor : UInt64) : (UInt64 × List String) × RedisConn S :=
  match conn.from cursor with
  | reply :: ahead => (reply, { conn with ahead, answered := conn.answered ++ [reply] })
  | [] => ((0, []), { conn with answered := conn.answered ++ [(0, [])] })

def rowOf (fields : List (Field S)) : Row (Field S) := ⟨.insert, fields⟩

def sort (members : List String) : List String := members.mergeSort fun a b ↦ decide (a ≤ b)

def sortEntries (entries : List (String × String)) : List (String × String) :=
  entries.mergeSort fun a b ↦ decide (a.1 < b.1 ∨ a.1 = b.1 ∧ a.2 ≤ b.2)

def materialize (keyspace : String → Option (Value S)) (key : String) : List (Row (Field S)) :=
  match keyspace key with
  | some (.string v) => [rowOf [.string key, .string v]]
  | some (.hash fields) =>
    (sortEntries (fields.entries.map fun e ↦ (e.1, e.2))).map fun (f, v) ↦ rowOf [.string key, .string f, .string v]
  | some (.list members) => members.map fun m ↦ rowOf [.string key, .string m]
  | some (.set members) => (sort members).map fun m ↦ rowOf [.string key, .string m]
  | some (.zset pairs) => pairs.map fun (m, score) ↦ rowOf [.string key, .string m, .float64 score]
  | some .other | none => []

namespace RedisSourceReader

variable (rd : RedisSourceReader S)

def openReader (conn : RedisConn S) : RedisSourceReader S :=
  match rd.conn with
  | some _ => rd
  | none => { rd with conn := some conn }

def scanBatch : Bool × RedisSourceReader S :=
  match rd.conn with
  | none => (false, rd)
  | some conn =>
    let ((cursor, keys), conn) := conn.scan (rd.scanCursor.getD 0)
    let rd := { rd with conn := some conn, scannedKeys := keys, keyIndex := 0 }
    if cursor = 0 then (false, { rd with scanCursor := none }) else (true, { rd with scanCursor := some cursor })

def materializeKey : RedisSourceReader S :=
  match rd.scannedKeys[rd.keyIndex]? with
  | none => rd
  | some key =>
    let rd := { rd with keyIndex := rd.keyIndex + 1 }
    match rd.conn with
    | none => rd
    | some conn => { rd with pending := rd.pending ++ materialize conn.keyspace key }

def pollRound : Option (PollResult (Row (Field S)) Unit) × RedisSourceReader S :=
  match rd.pending with
  | row :: pending => (some (.record row), { rd with pending })
  | [] =>
    if rd.done then (some .eof, rd)
    else if rd.keyIndex < rd.scannedKeys.length then (none, rd.materializeKey)
    else
      let (hasMore, rd) := rd.scanBatch
      if !hasMore && rd.scannedKeys.isEmpty then (some .eof, { rd with done := true })
      else (none, rd)

def pollNext : ℕ → RedisSourceReader S → Option (PollResult (Row (Field S)) Unit × RedisSourceReader S)
  | 0, _ => none
  | rounds + 1, rd =>
    match rd.pollRound with
    | (some result, rd) => some (result, rd)
    | (none, rd) => pollNext rounds rd

end RedisSourceReader

end Model

section Property

inductive Reads : RedisSourceReader S → List (Row (Field S)) → RedisSourceReader S → Prop
  | eof {rounds : ℕ} {rd rd' : RedisSourceReader S} (hpoll : rd.pollNext rounds = some (.eof, rd')) : Reads rd [] rd'
  | record {rounds : ℕ} {rd rd₁ rd' : RedisSourceReader S} {row : Row (Field S)} {rows : List (Row (Field S))}
      (hpoll : rd.pollNext rounds = some (.record row, rd₁)) (hrest : Reads rd₁ rows rd') : Reads rd (row :: rows) rd'

def batchRows (keyspace : String → Option (Value S)) (batches : List (UInt64 × List String)) : List (Row (Field S)) :=
  batches.flatMap fun b ↦ b.2.flatMap (materialize keyspace)

variable (keyspace : String → Option (Value S)) (replies : Replies)

def opened : RedisSourceReader S := RedisSourceReader.openReader {} { keyspace, replies }

/-- The reader asks once for each reply, and returns the rows of every key of every batch and then the end. -/
def ReadsOnce : Prop :=
  ∃ rd conn, Reads (opened keyspace replies) (batchRows keyspace replies.all) rd ∧ rd.conn = some conn ∧
    conn.answered = replies.all

end Property

namespace RedisSourceReader

variable {rd rd₁ rd' : RedisSourceReader S} {rows : List (Row (Field S))}

theorem reads_of_round (hround : rd.pollRound = (none, rd₁)) (hrest : Reads rd₁ rows rd') : Reads rd rows rd' := by
  have hpoll (rounds : ℕ) : rd.pollNext (rounds + 1) = rd₁.pollNext rounds := by rw [pollNext, hround]
  cases hrest with
  | eof hend => exact .eof ((hpoll _).trans hend)
  | record hrow hrest => exact .record ((hpoll _).trans hrow) hrest

theorem not_reads {Inv : RedisSourceReader S → Prop}
    (hstep : ∀ rd, Inv rd → rd.pollRound.1 ≠ some .eof ∧ Inv rd.pollRound.2) (hrd : Inv rd) : ¬Reads rd rows rd' := by
  have hpoll (rounds : ℕ) (rd : RedisSourceReader S) (hrd : Inv rd) {result : PollResult (Row (Field S)) Unit}
      {rd₁ : RedisSourceReader S} (h : rd.pollNext rounds = some (result, rd₁)) : result ≠ .eof ∧ Inv rd₁ := by
    induction rounds generalizing rd with
    | zero => cases h
    | succ rounds ih =>
      obtain ⟨hgoes, hkept⟩ := hstep rd hrd
      rw [pollNext] at h
      match hround : rd.pollRound with
      | (some result', rd₂) =>
        rw [hround] at h hgoes hkept
        obtain ⟨rfl, rfl⟩ := Prod.mk.inj (Option.some.inj h)
        exact ⟨fun heof ↦ hgoes (congrArg some heof), hkept⟩
      | (none, rd₂) =>
        rw [hround] at h hkept
        exact ih rd₂ hkept h
  intro hreads
  induction hreads with
  | eof hend => exact (hpoll _ _ hrd hend).1 rfl
  | record hrow _ ih => exact ih (hpoll _ _ hrd hrow).2

theorem reads_pending (pending : List (Row (Field S))) (hrest : Reads { rd with pending := [] } rows rd') :
    Reads { rd with pending } (pending ++ rows) rd' := by
  induction pending with
  | nil => exact hrest
  | cons row pending ih => exact @Reads.record _ 1 _ _ _ _ _ rfl ih

theorem reads_keys {conn : RedisConn S} (hconn : rd.conn = some conn) (hdone : rd.done = false)
    (hpending : rd.pending = []) (hindex : rd.keyIndex ≤ rd.scannedKeys.length)
    (hrest : Reads { rd with keyIndex := rd.scannedKeys.length } rows rd') :
    Reads rd ((rd.scannedKeys.drop rd.keyIndex).flatMap (materialize conn.keyspace) ++ rows) rd' := by
  induction hn : rd.scannedKeys.length - rd.keyIndex generalizing rd with
  | zero =>
    obtain hend : rd.keyIndex = rd.scannedKeys.length := by omega
    rw [hend, List.drop_length, List.flatMap_nil, List.nil_append]
    rwa [← hend] at hrest
  | succ n ih =>
    have hlt : rd.keyIndex < rd.scannedKeys.length := by omega
    let next : RedisSourceReader S := { rd with keyIndex := rd.keyIndex + 1 }
    have hround : rd.pollRound =
        (none, { next with pending := materialize conn.keyspace rd.scannedKeys[rd.keyIndex] }) := by
      rw [pollRound, hpending]
      simp only [hdone, Bool.false_eq_true, if_false, hlt, if_true, materializeKey, List.getElem?_eq_getElem hlt, hconn,
        hpending, List.nil_append, next]
    have hnext : Reads { next with pending := [] }
        ((rd.scannedKeys.drop (rd.keyIndex + 1)).flatMap (materialize conn.keyspace) ++ rows) rd' := by
      refine ih hconn hdone rfl hlt ?_ (by simp only [next]; omega)
      rwa [hpending] at hrest
    rw [List.drop_eq_getElem_cons hlt, List.flatMap_cons, List.append_assoc]
    exact reads_of_round hround (reads_pending _ hnext)

def scanned (rd : RedisSourceReader S) (conn : RedisConn S) (cursor : UInt64) (keys : List String)
    (ahead : List (UInt64 × List String)) : RedisSourceReader S :=
  { rd with
    conn := some { conn with ahead, answered := conn.answered ++ [(cursor, keys)] }
    scanCursor := if cursor = 0 then none else some cursor
    scannedKeys := keys
    keyIndex := 0 }

theorem pollRound_scan {conn : RedisConn S} {cursor : UInt64} {keys : List String} {ahead : List (UInt64 × List String)}
    (hconn : rd.conn = some conn) (hdone : rd.done = false) (hpending : rd.pending = [])
    (hindex : ¬rd.keyIndex < rd.scannedKeys.length)
    (hfrom : conn.from (rd.scanCursor.getD 0) = (cursor, keys) :: ahead) :
    rd.pollRound =
      if cursor = 0 ∧ keys = [] then (some .eof, { rd.scanned conn cursor keys ahead with done := true })
      else (none, rd.scanned conn cursor keys ahead) := by
  have hscan : conn.scan (rd.scanCursor.getD 0) =
      ((cursor, keys), { conn with ahead, answered := conn.answered ++ [(cursor, keys)] }) := by
    rw [RedisConn.scan, hfrom]
  have hbatch : rd.scanBatch = (decide (cursor ≠ 0), rd.scanned conn cursor keys ahead) := by
    simp only [scanBatch, hconn, hscan, scanned]
    split_ifs with hcursor <;> simp [hcursor]
  rw [pollRound, hpending]
  simp only [hdone, hindex, Bool.false_eq_true, if_false, hbatch]
  simp [scanned]

theorem reads_ahead {conn : RedisConn S} (more : List ({ cursor : UInt64 // cursor ≠ 0 } × List String))
    (hconn : rd.conn = some conn) (hdone : rd.done = false) (hpending : rd.pending = [])
    (hindex : rd.keyIndex = rd.scannedKeys.length)
    (hfrom : conn.from (rd.scanCursor.getD 0) = goOn more ++ [(0, [])]) :
    ∃ rd' conn', Reads rd (batchRows conn.keyspace (conn.from (rd.scanCursor.getD 0))) rd' ∧ rd'.conn = some conn' ∧
      conn'.answered = conn.answered ++ conn.from (rd.scanCursor.getD 0) := by
  have hstops : ¬rd.keyIndex < rd.scannedKeys.length := by omega
  rw [hfrom]
  induction more generalizing rd conn with
  | nil =>
    have hround := pollRound_scan hconn hdone hpending hstops hfrom
    rw [if_pos ⟨rfl, rfl⟩] at hround
    refine ⟨{ rd.scanned conn 0 [] [] with done := true }, _, @Reads.eof _ 1 _ _ ?_, rfl, rfl⟩
    rw [pollNext, hround]
  | cons reply more ih =>
    have hround := pollRound_scan hconn hdone hpending hstops hfrom
    rw [if_neg fun h ↦ reply.1.2 h.1] at hround
    let ahead := goOn more ++ [(0, [])]
    let conn₁ : RedisConn S := { conn with ahead, answered := conn.answered ++ [(reply.1.1, reply.2)] }
    let next := { rd.scanned conn reply.1.1 reply.2 ahead with keyIndex := reply.2.length }
    have hahead : conn₁.from (next.scanCursor.getD 0) = ahead := by
      simp [conn₁, next, scanned, RedisConn.from, reply.1.2]
    obtain ⟨rd', conn', hreads, hconn', hanswered⟩ :=
      @ih next conn₁ rfl hdone hpending rfl hahead (Nat.lt_irrefl _)
    refine ⟨rd', conn', reads_of_round hround ?_, hconn', by rw [hanswered, List.append_assoc]; rfl⟩
    exact @reads_keys _ (rd.scanned conn reply.1.1 reply.2 ahead) _ _ conn₁ rfl hdone hpending (Nat.zero_le _) hreads

theorem materializeKey_kept (rd : RedisSourceReader S) :
    rd.materializeKey.conn = rd.conn ∧ rd.materializeKey.scanCursor = rd.scanCursor ∧
      rd.materializeKey.done = rd.done := by
  unfold materializeKey
  cases rd.scannedKeys[rd.keyIndex]? with
  | none => exact ⟨rfl, rfl, rfl⟩
  | some key => cases rd.conn <;> exact ⟨rfl, rfl, rfl⟩

end RedisSourceReader

open RedisSourceReader

section Scans

variable (keyspace : String → Option (Value S)) (replies : Replies)

def Scanning (rd : RedisSourceReader S) : Prop :=
  rd.done = false ∧ ∃ conn more, rd.conn = some conn ∧ conn.replies = replies ∧
    conn.from (rd.scanCursor.getD 0) = goOn more ++ [(0, replies.last)]

theorem Scanning.pollRound {replies : Replies} {rd : RedisSourceReader S} (hlast : replies.last ≠ [])
    (h : Scanning replies rd) : rd.pollRound.1 ≠ some .eof ∧ Scanning replies rd.pollRound.2 := by
  obtain ⟨hdone, conn, more, hconn, hreplies, hfrom⟩ := h
  cases hpending : rd.pending with
  | cons row pending =>
    rw [RedisSourceReader.pollRound, hpending]
    exact ⟨nofun, hdone, conn, more, hconn, hreplies, hfrom⟩
  | nil =>
    by_cases hindex : rd.keyIndex < rd.scannedKeys.length
    · have hround : rd.pollRound = (none, rd.materializeKey) := by
        rw [RedisSourceReader.pollRound, hpending]
        simp only [hdone, hindex, Bool.false_eq_true, if_false, if_true]
      obtain ⟨hconn', hcursor', hdone'⟩ := materializeKey_kept rd
      rw [hround]
      refine ⟨nofun, hdone'.trans hdone, conn, more, hconn'.trans hconn, hreplies, ?_⟩
      rw [hcursor', hfrom]
    · cases more with
      | nil =>
        -- behind the last batch the cursor is that of the start
        rw [pollRound_scan hconn hdone hpending hindex hfrom, if_neg fun h ↦ hlast h.2]
        refine ⟨nofun, hdone, _, conn.replies.more, rfl, hreplies, ?_⟩
        rw [← hreplies]
        rfl
      | cons reply more =>
        rw [pollRound_scan hconn hdone hpending hindex hfrom, if_neg fun h ↦ reply.1.2 h.1]
        refine ⟨nofun, hdone, _, more, rfl, hreplies, ?_⟩
        simp [scanned, RedisConn.from, reply.1.2, goOn]

theorem not_reads_of_last (hlast : replies.last ≠ []) (rows : List (Row (Field S))) (rd : RedisSourceReader S) :
    ¬Reads (opened keyspace replies) rows rd :=
  not_reads (fun _ ↦ Scanning.pollRound hlast) ⟨rfl, _, replies.more, rfl, rfl, rfl⟩

/-- The keyspace is read once exactly where the batch with cursor 0 is empty. -/
theorem readsOnce_iff : ReadsOnce keyspace replies ↔ replies.last = [] := by
  constructor
  · rintro ⟨rd, -, hreads, -⟩
    by_contra hlast
    exact not_reads_of_last keyspace replies hlast _ _ hreads
  · intro hlast
    have hfrom : RedisConn.from ({ keyspace, replies } : RedisConn S) 0 = goOn replies.more ++ [(0, [])] := by
      rw [RedisConn.from, if_pos rfl, Replies.all, hlast]
    obtain ⟨rd, conn, hreads, hconn, hanswered⟩ :=
      @reads_ahead _ (opened keyspace replies) _ replies.more rfl rfl rfl rfl hfrom
    exact ⟨rd, conn, hreads, hconn, hanswered⟩

/-- One key in one batch. -/
theorem key_never_ends :
    ¬ReadsOnce (fun _ ↦ some (.string "1") : String → Option (Value ℕ)) { more := [], last := ["a"] } :=
  fun ⟨_, _, hreads, _⟩ ↦ not_reads_of_last _ _ (List.cons_ne_nil _ _) _ _ hreads

end Scans

end SeaTunnel.Redis.SourceReader
