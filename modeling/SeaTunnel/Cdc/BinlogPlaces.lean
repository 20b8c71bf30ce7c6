import SeaTunnel.Cdc.MySqlBinlog

namespace SeaTunnel.Cdc.MySql

open Lib

variable {R : Type}

section Places

/-- A place in the binlog: a file and a position in it. -/
abbrev Place : Type := String × ℕ

def placeAfter (place : Place) (e : Event R) : Place :=
  match e.data with
  | some (.rotate name position) => if name ≠ "" ∧ name ≠ place.1 then (name, position) else (place.1, e.logPos)
  | _ => (place.1, e.logPos)

theorem placeAfter_rotate {place : Place} {e : Event R} {name : String} {position : ℕ}
    (hdata : e.data = some (.rotate name position)) :
    placeAfter place e = if name ≠ "" ∧ name ≠ place.1 then (name, position) else (place.1, e.logPos) := by
  rw [placeAfter, hdata]

theorem placeAfter_of_ne {place : Place} {e : Event R}
    (hdata : ∀ name position, e.data ≠ some (.rotate name position)) : placeAfter place e = (place.1, e.logPos) := by
  rw [placeAfter]
  split
  · next name position hrotate => exact absurd hrotate (hdata name position)
  · rfl

theorem placeAfter_congr {place place' : Place} {e : Event R} (h : place.1 = place'.1) :
    placeAfter place e = placeAfter place' e := by
  rw [placeAfter, placeAfter, h]

def openAfter (isOpen : Bool) (e : Event R) : Bool :=
  match e.data with
  | some (.tableMap ..) | some (.rows ..) => true
  | some .xid => false
  | some (.query _ query) => query = "BEGIN" || isOpen && query ≠ "COMMIT" && query ≠ "ROLLBACK"
  | _ => isOpen

/-- The binlog of a server from the first file that it has. No two of its places are the
same, and none is at position zero. -/
structure Log (R : Type) where
  origin : Place
  events : List (Event R)
  named : origin.1 ≠ ""
  written : ∀ e ∈ events, e.heartbeat = false
  positive : ∀ i, 0 < ((events.take i).foldl placeAfter origin).2
  distinct : ∀ i ≤ events.length, ∀ j ≤ events.length,
    (events.take i).foldl placeAfter origin = (events.take j).foldl placeAfter origin → i = j

namespace Log

variable (log : Log R)

def place (i : ℕ) : Place := (log.events.take i).foldl placeAfter log.origin

def inside (i : ℕ) : Bool := (log.events.take i).foldl openAfter false

/-- Where a dump from the offset begins. One without a position begins with the log. -/
def At (o : BinlogOffset) (i : ℕ) : Prop :=
  i ≤ log.events.length ∧ (o.position = 0 ∧ i = 0 ∨ 0 < o.position ∧ (o.file, o.position) = log.place i)

variable {log} {i j : ℕ} {e : Event R} {o : BinlogOffset}

theorem place_succ (he : log.events[i]? = some e) : log.place (i + 1) = placeAfter (log.place i) e := by
  rw [place, List.take_add_one, he, Option.toList_some, List.foldl_append]
  rfl

theorem inside_succ (he : log.events[i]? = some e) : log.inside (i + 1) = openAfter (log.inside i) e := by
  rw [inside, List.take_add_one, he, Option.toList_some, List.foldl_append]
  rfl

theorem lt_length (he : log.events[i]? = some e) : i < log.events.length := (List.getElem?_eq_some_iff.mp he).1

theorem place_file (i : ℕ) : (log.place i).1 ≠ "" := by
  have hall (events : List (Event R)) (place : Place) (hplace : place.1 ≠ "") :
      (events.foldl placeAfter place).1 ≠ "" := by
    induction events generalizing place with
    | nil => exact hplace
    | cons e events ih =>
      apply ih
      rw [placeAfter]
      split
      · split_ifs with hname
        · exact hname.1
        · exact hplace
      · exact hplace
  exact hall _ _ log.named

theorem At.unique (h : log.At o i) (h' : log.At o j) : i = j := by
  obtain ⟨hi, ⟨hzero, rfl⟩ | ⟨hpos, hplace⟩⟩ := h
  · obtain ⟨-, ⟨-, rfl⟩ | ⟨hpos, -⟩⟩ := h'
    · rfl
    · omega
  · obtain ⟨hj, ⟨hzero, -⟩ | ⟨-, hplace'⟩⟩ := h'
    · omega
    · exact log.distinct i hi j hj (hplace.symm.trans hplace')

end Log

end Places

section Decoding

/-- What a reader has decoded since the place where its dump began, until `skip` only of
events from that time on. The tables are those of the open transaction. -/
structure Decoded (R : Type) where
  skip : Option ℤ
  tableMaps : Dict ℕ (String × String) := ∅
  rows : List (SeatunnelRow R) := []

variable (config : MySqlCdcConfig)

namespace Decoded

def early (skip : Option ℤ) (e : Event R) : Bool := skip.any (e.timestampMs < ·)

def decode (d : Decoded R) : EventData R → Decoded R
  | .tableMap tableId table => { d with tableMaps := d.tableMaps.insert tableId table }
  | .rows tableId data =>
    match d.tableMaps.lookup tableId with
    | some table => { d with rows := d.rows ++ Binlog.rowsOf config table data }
    | none => d
  | .xid => { d with tableMaps := ∅ }
  | .query _ query => if query = "COMMIT" ∨ query = "ROLLBACK" then { d with tableMaps := ∅ } else d
  | .rotate .. | .other => d

def step (d : Decoded R) (e : Event R) : Decoded R :=
  if early d.skip e then d
  else
    match e.data with
    | some data => decode config { d with skip := none } data
    | none => { d with skip := none }

end Decoded

/-- What is decoded from place `s` to place `i`. -/
def decoded (log : Log R) (skip : Option ℤ) (s i : ℕ) : Decoded R :=
  ((log.events.take i).drop s).foldl (Decoded.step config) { skip }

variable {config} {log : Log R} {skip : Option ℤ} {s i j : ℕ} {e : Event R}

theorem decoded_of_le (h : i ≤ s) : decoded config log skip s i = { skip } := by
  have hnone : (log.events.take i).drop s = [] := by
    apply List.drop_eq_nil_of_le
    rw [List.length_take]
    omega
  rw [decoded, hnone, List.foldl_nil]

theorem decoded_succ (h : s ≤ i) (he : log.events[i]? = some e) :
    decoded config log skip s (i + 1) = (decoded config log skip s i).step config e := by
  have hlt := Log.lt_length he
  have hdrop : (log.events.take (i + 1)).drop s = (log.events.take i).drop s ++ [e] := by
    rw [List.take_add_one, he, Option.toList_some, List.drop_append_of_le_length (by rw [List.length_take]; omega)]
  rw [decoded, hdrop, List.foldl_append]
  rfl

theorem decoded_past (h : log.events.length ≤ i) : decoded config log skip s (i + 1) = decoded config log skip s i := by
  rw [decoded, decoded, List.take_of_length_le h, List.take_of_length_le (Nat.le_succ_of_le h)]

theorem decoded_cases (config : MySqlCdcConfig) (log : Log R) (skip : Option ℤ) (s i : ℕ) :
    decoded config log skip s i = { skip } ∧ decoded config log skip s (i + 1) = { skip } ∨
      decoded config log skip s (i + 1) = decoded config log skip s i ∧ log.inside (i + 1) = log.inside i ∨
      ∃ e, log.events[i]? = some e ∧
        decoded config log skip s (i + 1) = (decoded config log skip s i).step config e := by
  cases he : log.events[i]? with
  | none =>
    have hall : log.events.length ≤ i := List.getElem?_eq_none_iff.mp he
    refine .inr (.inl ⟨decoded_past hall, ?_⟩)
    rw [Log.inside, Log.inside, List.take_of_length_le hall, List.take_of_length_le (Nat.le_succ_of_le hall)]
  | some e =>
    rcases Nat.lt_or_ge i s with hlt | hge
    · exact .inl ⟨decoded_of_le (Nat.le_of_lt hlt), decoded_of_le hlt⟩
    · exact .inr (.inr ⟨e, rfl, decoded_succ hge he⟩)

@[simp] theorem Decoded.decode_skip (d : Decoded R) (data : EventData R) : (d.decode config data).skip = d.skip := by
  rw [Decoded.decode.eq_def]
  split
  · rfl
  · split
    · rfl
    · rfl
  · rfl
  · split_ifs
    · rfl
    · rfl
  · rfl
  · rfl

theorem Decoded.step_early {d : Decoded R} (h : early d.skip e = true) : d.step config e = d := if_pos h

theorem Decoded.step_live {d : Decoded R} (h : early d.skip e = false) :
    d.step config e =
      match e.data with
      | some data => decode config { d with skip := none } data
      | none => { d with skip := none } := by
  rw [Decoded.step, if_neg (by rw [h]; exact Bool.false_ne_true)]

theorem Decoded.step_skip {d : Decoded R} (h : early d.skip e = false) : (d.step config e).skip = none := by
  rw [Decoded.step_live h]
  split
  · exact Decoded.decode_skip _ _
  · rfl

theorem Decoded.step_rows (d : Decoded R) (e : Event R) : d.rows <+: (d.step config e).rows := by
  rw [Decoded.step]
  split_ifs
  · exact List.prefix_rfl
  · split
    · rw [Decoded.decode.eq_def]
      split
      · exact List.prefix_rfl
      · split
        · exact List.prefix_append _ _
        · exact List.prefix_rfl
      · exact List.prefix_rfl
      · split_ifs
        · exact List.prefix_rfl
        · exact List.prefix_rfl
      · exact List.prefix_rfl
      · exact List.prefix_rfl
    · exact List.prefix_rfl

theorem decoded_rows_mono (h : i ≤ j) :
    (decoded config log skip s i).rows <+: (decoded config log skip s j).rows := by
  induction j, h using Nat.le_induction with
  | base => exact List.prefix_rfl
  | succ j hij ih =>
    rcases decoded_cases config log skip s j with ⟨hsame, hnext⟩ | ⟨hnext, -⟩ | ⟨e, -, hnext⟩
    · rw [hnext, ← hsame]
      exact ih
    · rw [hnext]
      exact ih
    · rw [hnext]
      exact ih.trans (Decoded.step_rows _ _)

theorem decoded_skipping (i : ℕ) (h : (decoded config log skip s i).skip ≠ none) :
    decoded config log skip s i = { skip } := by
  induction i with
  | zero => exact decoded_of_le (Nat.zero_le s)
  | succ i ih =>
    rcases decoded_cases config log skip s i with ⟨-, hnext⟩ | ⟨hnext, -⟩ | ⟨e, -, hnext⟩
    · exact hnext
    · rw [hnext] at h ⊢
      exact ih h
    · cases hearly : Decoded.early (decoded config log skip s i).skip e with
      | true =>
        rw [hnext, Decoded.step_early hearly] at h ⊢
        exact ih h
      | false =>
        rw [hnext, Decoded.step_skip hearly] at h
        exact absurd rfl h

theorem decoded_skip_of_le (h : i ≤ j) (hskip : (decoded config log skip s j).skip ≠ none) :
    (decoded config log skip s i).skip = (decoded config log skip s j).skip := by
  induction j, h using Nat.le_induction with
  | base => rfl
  | succ j hij ih =>
    rcases decoded_cases config log skip s j with ⟨hsame, hnext⟩ | ⟨hnext, -⟩ | ⟨e, -, hnext⟩
    · rw [hnext, ← hsame] at hskip ⊢
      exact ih hskip
    · rw [hnext] at hskip ⊢
      exact ih hskip
    · cases hearly : Decoded.early (decoded config log skip s j).skip e with
      | true =>
        rw [hnext, Decoded.step_early hearly] at hskip ⊢
        exact ih hskip
      | false =>
        rw [hnext, Decoded.step_skip hearly] at hskip
        exact absurd rfl hskip

theorem decoded_tableMaps (i : ℕ) (h : log.inside i = false) : (decoded config log skip s i).tableMaps = ∅ := by
  induction i with
  | zero => rw [decoded_of_le (Nat.zero_le s)]
  | succ i ih =>
    rcases decoded_cases config log skip s i with ⟨-, hnext⟩ | ⟨hnext, hsame⟩ | ⟨e, he, hnext⟩
    · rw [hnext]
    · rw [hnext, ih (hsame ▸ h)]
    · cases hearly : Decoded.early (decoded config log skip s i).skip e with
      | true =>
        have hskip : (decoded config log skip s i).skip ≠ none := by
          intro hnone
          rw [hnone] at hearly
          cases hearly
        rw [hnext, Decoded.step_early hearly, decoded_skipping i hskip]
      | false =>
        rw [hnext, Decoded.step_live hearly]
        rw [Log.inside_succ he, openAfter] at h
        cases hdata : e.data with
        | none =>
          rw [hdata] at h
          exact ih h
        | some data =>
          rw [hdata] at h
          cases data with
          | tableMap tableId table => cases h
          | rows tableId data => cases h
          | xid => rfl
          | rotate name position => exact ih h
          | other => exact ih h
          | query schema query =>
            simp only [Decoded.decode]
            split_ifs with hclosed
            · rfl
            · refine ih ?_
              simp only [Bool.or_eq_false_iff, Bool.and_eq_false_iff, decide_eq_false_iff_not, not_not] at h
              exact h.2.elim (fun h ↦ h.elim id fun h ↦ absurd (.inl h) hclosed) fun h ↦ absurd (.inr h) hclosed

end Decoding

end SeaTunnel.Cdc.MySql
