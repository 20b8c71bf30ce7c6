import SeaTunnel.Jdbc.XaSink

namespace SeaTunnel.Connectors.SinkClient

open Lib

variable {W D E R σ α : Type}

/-- A sink writer and the external system it writes to. The history is read by
no call. -/
structure Client (W D E : Type) where
  self : W
  db : D
  history : List E := []

inductive SinkCall (R : Type)
  | openWriter
  | write (row : R)
  | pollFlush
  | prepareCommit (checkpointId : ℕ)
  | closeWriter

def ask (f : D → Except String α × D) : Fallible (Client W D E) α := fun s ↦
  ((f s.db).1, { s with db := (f s.db).2 })

def send (f : D → Except String Unit × D) (event : Except String Unit → E) : Fallible (Client W D E) Unit := fun s ↦
  ((f s.db).1, { s with db := (f s.db).2, history := s.history ++ [event (f s.db).1] })

def record (event : E) : Fallible (Client W D E) Unit :=
  Fallible.modify fun s ↦ { s with history := s.history ++ [event] }

def setSelf (f : W → W) : Fallible (Client W D E) Unit := Fallible.modify fun s ↦ { s with self := f s.self }

/-- Try once, and up to `retries` times more while it fails. -/
def retrying (x : Fallible σ Unit) : ℕ → Fallible σ Unit
  | 0 => x
  | retries + 1 => fun s ↦
    match x s with
    | (.ok _, s') => (.ok (), s')
    | (.error _, s') => retrying x retries s'

def swallow (x : Fallible σ Unit) : Fallible σ Unit := fun s ↦ (.ok (), (x s).2)

def machine (call : SinkCall R → Fallible σ Unit) :
    Runs.Machine σ (SinkCall R) (SinkCall R × Except String Unit) where
  step s c := ((call c s).2, [(c, (call c s).1)])

section Rules

variable {P : Client W D E → Prop}

theorem keeps_ask {f : D → Except String α × D} (h : ∀ s db, P s → P { s with db }) :
    Keeps P (ask f : Fallible (Client W D E) α) :=
  .of_snd fun s hs ↦ h s _ hs

theorem triple_ask {f : D → Except String α × D} {Q : α → Client W D E → Prop} {G : Client W D E → Prop}
    (hok : ∀ s a, P s → (f s.db).1 = .ok a → Q a { s with db := (f s.db).2 })
    (herror : ∀ s, P s → G { s with db := (f s.db).2 }) :
    Triple P (ask f : Fallible (Client W D E) α) Q G := by
  intro s hs
  unfold ask
  cases hf : (f s.db).1 with
  | ok a => exact hok s a hs hf
  | error e => exact herror s hs

theorem triple_send_result {f : D → Except String Unit × D} {event : Except String Unit → E}
    {Q : Unit → Client W D E → Prop} {G : Client W D E → Prop}
    (hok : ∀ s, P s → (f s.db).1 = .ok () →
      Q () { s with db := (f s.db).2, history := s.history ++ [event (.ok ())] })
    (herror : ∀ s e, P s → (f s.db).1 = .error e →
      G { s with db := (f s.db).2, history := s.history ++ [event (.error e)] }) :
    Triple P (send f event : Fallible (Client W D E) Unit) Q G := by
  intro s hs
  unfold send
  cases hf : (f s.db).1 with
  | ok u => exact hok s hs hf
  | error e => exact herror s e hs hf

theorem triple_send {f : D → Except String Unit × D} {event : Except String Unit → E}
    {Q : Unit → Client W D E → Prop} {G : Client W D E → Prop}
    (hok : ∀ s db, P s → Q () { s with db, history := s.history ++ [event (.ok ())] })
    (herror : ∀ s db e, P s → G { s with db, history := s.history ++ [event (.error e)] }) :
    Triple P (send f event : Fallible (Client W D E) Unit) Q G :=
  triple_send_result (fun s hs _ ↦ hok s _ hs) fun s e hs _ ↦ herror s _ e hs

theorem keeps_send {f : D → Except String Unit × D} {event : Except String Unit → E}
    (h : ∀ s db r, P s → P { s with db, history := s.history ++ [event r] }) :
    Keeps P (send f event : Fallible (Client W D E) Unit) :=
  .of_snd fun s hs ↦ h s _ _ hs

theorem triple_retrying {P : σ → Prop} {Q : Unit → σ → Prop} {x : Fallible σ Unit} (h : Triple P x Q P)
    (retries : ℕ) : Triple P (retrying x retries) Q P := by
  induction retries with
  | zero => exact h
  | succ n ih =>
    intro s hs
    rcases hx : x s with ⟨e | _, s'⟩
    · have hs' := ih s' (h.error hs hx)
      simpa only [retrying, hx] using hs'
    · have hs' := h.ok hs hx
      simpa only [retrying, hx] using hs'

theorem triple_retrying_once {P : σ → Prop} {Q : Unit → σ → Prop} {x : Fallible σ Unit}
    (h : Triple P x Q fun _ ↦ False) (retries : ℕ) : Triple P (retrying x retries) Q fun _ ↦ False := by
  cases retries with
  | zero => exact h
  | succ n =>
    intro s hs
    rcases hx : x s with ⟨e | _, s'⟩
    · exact absurd (h.error hs hx) id
    · have hs' := h.ok hs hx
      simpa only [retrying, hx] using hs'

theorem keeps_swallow {P : σ → Prop} {x : Fallible σ Unit} (h : Keeps P x) : Keeps P (swallow x) :=
  fun _ hs ↦ h.snd hs

end Rules

end SeaTunnel.Connectors.SinkClient

namespace SeaTunnel.Connectors.RowText

open Lib
open Jdbc.XaSink (Row)

variable {F : Type}

def replace (text pattern replacement : String) : String :=
  String.ofList (Text.replaceFrom pattern.toList replacement.toList 0 text.toList)

/-- `${fN}`, where a template takes field `N` of a row. -/
def placeholder (n : ℕ) : String := "$\x7bf" ++ toString n ++ "\x7d"

/-- The template with the fields of a row filled in one after the other. `text`
is the text of a field, and null has none. -/
def resolveTemplate (text : F → Option String) (template : String) (row : Row F) : String :=
  (List.range row.fields.length).foldl
    (fun out n ↦ replace out (placeholder n) ((row.fields[n]?.bind text).getD "")) template

/-- The fields under their names, `fN` where a name is missing. -/
def namedFields (row : Row F) (fieldNames : Option (List String)) : List (String × F) :=
  row.fields.mapIdx fun n field ↦ ((fieldNames.bind (·[n]?)).getD ("f" ++ toString n), field)

/-- Fields are selected by `fN`, and by `#N` in a document id. -/
def fieldAt (row : Row F) (ordinal : List Char) : Option F :=
  (Text.parseUnsigned 64 ordinal).bind fun n ↦ row.fields[n]?

end SeaTunnel.Connectors.RowText
