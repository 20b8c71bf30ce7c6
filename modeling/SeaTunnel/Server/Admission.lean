import Mathlib.Algebra.GroupWithZero.Nat
import Mathlib.Algebra.Ring.Int.Defs
import Mathlib.Data.List.DropRight
import SeaTunnel.Lib.Runs

namespace SeaTunnel.Server.Admission

open Lib.Runs

/-- A threshold of 0 disables its signal. The numbers are `u64`. -/
structure AdmissionConfig where
  lagThresholdMs : ℕ
  memoryWatermarkPercent : ℕ
  cooldownSecs : ℕ
  cooldownSecs_lt : cooldownSecs < 2 ^ 64

structure AdmissionSignals where
  lagMs : Option ℕ := none
  memPermille : Option ℕ := none

structure AdmissionState where
  consecutiveHealthySecs : ℕ := 0
  overloaded : Bool := false

structure Decision where
  loadScorePermille : ℕ
  canAccept : Bool

structure Call where
  signals : AdmissionSignals
  healthySecsDelta : ℕ

def lagOk (signals : AdmissionSignals) (config : AdmissionConfig) : Bool :=
  config.lagThresholdMs = 0 ∨ signals.lagMs = none ∨ signals.lagMs.getD 0 < config.lagThresholdMs

def memOk (signals : AdmissionSignals) (config : AdmissionConfig) : Bool :=
  config.memoryWatermarkPercent = 0 ∨ signals.memPermille = none ∨
    signals.memPermille.getD 0 < config.memoryWatermarkPercent * 10 % 2 ^ 32

variable (score : AdmissionSignals → AdmissionConfig → ℕ)

/-- `score` is the greater of the two ratios in thousandths, which is taken in floating point. -/
def evaluate (signals : AdmissionSignals) (config : AdmissionConfig) (state : AdmissionState)
    (healthySecsDelta : ℕ) : AdmissionState × Decision :=
  let state :=
    if lagOk signals config && memOk signals config then
      let secs := min (state.consecutiveHealthySecs + healthySecsDelta) (2 ^ 64 - 1)
      { consecutiveHealthySecs := secs
        overloaded := if state.overloaded ∧ config.cooldownSecs ≤ secs then false else state.overloaded }
    else { consecutiveHealthySecs := 0, overloaded := true }
  (state, { loadScorePermille := min (score signals config) 1000, canAccept := !state.overloaded })

def machine (config : AdmissionConfig) : Machine AdmissionState Call Decision where
  step state call :=
    let r := evaluate score call.signals config state call.healthySecsDelta
    (r.1, [r.2])

section Property

variable (config : AdmissionConfig)

/-- A measured and enabled signal is at its watermark or above. -/
def Breach (signals : AdmissionSignals) : Prop :=
  (config.lagThresholdMs ≠ 0 ∧ ∃ lag ∈ signals.lagMs, config.lagThresholdMs ≤ lag) ∨
    config.memoryWatermarkPercent ≠ 0 ∧ ∃ mem ∈ signals.memPermille, 10 * config.memoryWatermarkPercent ≤ mem

instance : DecidablePred (Breach config) := fun signals ↦
  inferInstanceAs (Decidable (_ ∧ (∃ lag ∈ signals.lagMs, _) ∨ _ ∧ ∃ mem ∈ signals.memPermille, _))

def sinceBreach (calls : List Call) : List Call := calls.rtakeWhile fun call ↦ !decide (Breach config call.signals)

def healthySecs (calls : List Call) : ℕ := ((sinceBreach config calls).map Call.healthySecsDelta).sum

/-- What is accepted after a history that ends in the call. -/
def Accepts (calls : List Call) (call : Call) : Prop :=
  (∀ c ∈ calls, ¬Breach config c.signals) ∨
    ¬Breach config call.signals ∧ config.cooldownSecs ≤ healthySecs config calls

end Property

variable {score} {config : AdmissionConfig} {signals : AdmissionSignals} {calls : List Call} {state : AdmissionState}

theorem healthy_iff (hpercent : config.memoryWatermarkPercent ≤ 100) :
    (lagOk signals config && memOk signals config) = true ↔ ¬Breach config signals := by
  have hcast : config.memoryWatermarkPercent * 10 % 2 ^ 32 = 10 * config.memoryWatermarkPercent := by omega
  have hlag : lagOk signals config = true ↔
      ¬(config.lagThresholdMs ≠ 0 ∧ ∃ lag ∈ signals.lagMs, config.lagThresholdMs ≤ lag) := by
    cases hmeasured : signals.lagMs <;> simp [lagOk, hmeasured, or_iff_not_imp_left]
  have hmem : memOk signals config = true ↔ ¬(config.memoryWatermarkPercent ≠ 0 ∧
      ∃ mem ∈ signals.memPermille, 10 * config.memoryWatermarkPercent ≤ mem) := by
    rw [memOk, hcast]
    cases hmeasured : signals.memPermille <;> simp [or_iff_not_imp_left]
  rw [Bool.and_eq_true, hlag, hmem, Breach, not_or]

structure Summary (config : AdmissionConfig) (calls : List Call) (state : AdmissionState) : Prop where
  healthy : state.consecutiveHealthySecs = min (healthySecs config calls) (2 ^ 64 - 1)
  overloaded : state.overloaded = true ↔ (∃ call ∈ calls, Breach config call.signals) ∧
    (sinceBreach config calls = [] ∨ healthySecs config calls < config.cooldownSecs)

theorem Summary.breach {call : Call} (hpercent : config.memoryWatermarkPercent ≤ 100)
    (hbreach : Breach config call.signals) :
    Summary config (calls ++ [call]) (evaluate score call.signals config state call.healthySecsDelta).1 := by
  have hsince : sinceBreach config (calls ++ [call]) = [] := by
    rw [sinceBreach, List.rtakeWhile_concat_neg _ _ _ (by simpa using hbreach)]
  unfold evaluate
  rw [if_neg (mt (healthy_iff hpercent).mp (not_not.mpr hbreach))]
  refine ⟨?_, iff_of_true rfl ⟨⟨call, List.mem_append_right _ List.mem_cons_self, hbreach⟩, .inl hsince⟩⟩
  rw [healthySecs, hsince]
  rfl

theorem Summary.healthy_call {call : Call} (h : Summary config calls state)
    (hpercent : config.memoryWatermarkPercent ≤ 100) (hbreach : ¬Breach config call.signals) :
    Summary config (calls ++ [call]) (evaluate score call.signals config state call.healthySecsDelta).1 := by
  have hsince : sinceBreach config (calls ++ [call]) = sinceBreach config calls ++ [call] := by
    rw [sinceBreach, List.rtakeWhile_concat_pos _ _ _ (by simpa using hbreach)]
    rfl
  have hsecs : healthySecs config (calls ++ [call]) = healthySecs config calls + call.healthySecsDelta := by
    rw [healthySecs, hsince, List.map_append, List.sum_append]
    rfl
  have hexists : (∃ c ∈ calls ++ [call], Breach config c.signals) ↔ ∃ c ∈ calls, Breach config c.signals := by
    simp [or_and_right, exists_or, hbreach]
  have hhealthy := h.healthy
  have hover := h.overloaded
  have hcooldown := config.cooldownSecs_lt
  unfold evaluate
  rw [if_pos ((healthy_iff hpercent).mpr hbreach)]
  dsimp only
  constructor
  · dsimp only
    omega
  · rw [hexists, hsince, hsecs]
    dsimp only
    split_ifs with hrecovered
    · refine iff_of_false nofun ?_
      rintro ⟨-, hnil | hlt⟩
      · exact absurd hnil (by simp)
      · omega
    · constructor
      · intro hstate
        have hlt := not_and.mp hrecovered hstate
        exact ⟨(hover.mp hstate).1, .inr (by omega)⟩
      · rintro ⟨hsome, hnil | hlt⟩
        · exact absurd hnil (by simp)
        · exact hover.mpr ⟨hsome, .inr (by omega)⟩

theorem summary_run (hpercent : config.memoryWatermarkPercent ≤ 100) (calls : List Call) :
    Summary config calls ((machine score config).run {} calls) := by
  induction calls using List.reverseRecOn with
  | nil =>
    refine ⟨rfl, iff_of_false Bool.false_ne_true ?_⟩
    rintro ⟨⟨call, hcall, -⟩, -⟩
    cases hcall
  | append_singleton calls call ih =>
    have hrun : (machine score config).run {} (calls ++ [call]) =
        (evaluate score call.signals config ((machine score config).run {} calls) call.healthySecsDelta).1 :=
      Machine.run_append _ _ _ _
    rw [hrun]
    by_cases hbreach : Breach config call.signals
    · exact .breach hpercent hbreach
    · exact ih.healthy_call hpercent hbreach

theorem Summary.accepts_iff {call : Call} (h : Summary config (calls ++ [call]) state) :
    state.overloaded = false ↔ Accepts config (calls ++ [call]) call := by
  have hnil : sinceBreach config (calls ++ [call]) = [] ↔ Breach config call.signals := by
    rw [sinceBreach, List.rtakeWhile_concat]
    split_ifs with hhealthy
    · exact iff_of_false (by simp) (by simpa using hhealthy)
    · exact iff_of_true rfl (by simpa using hhealthy)
  rw [← Bool.not_eq_true, h.overloaded, hnil, Accepts, not_and_or, not_or, Nat.not_lt]
  push Not
  rfl

theorem trace_take {n : ℕ} {call : Call} (hcall : calls[n]? = some call) :
    ((machine score config).trace state calls)[n]? =
      some (evaluate score call.signals config ((machine score config).run state (calls.take n)) call.healthySecsDelta).2 := by
  induction calls generalizing n state with
  | nil => cases hcall
  | cons c calls ih =>
    cases n with
    | zero =>
      obtain rfl := Option.some.inj hcall
      rfl
    | succ n => exact ih hcall

/-- A worker takes tasks until the first breach, and then again when the time without one has come to the cooldown. -/
theorem canAccept_iff (score : AdmissionSignals → AdmissionConfig → ℕ) (config : AdmissionConfig)
    (hpercent : config.memoryWatermarkPercent ≤ 100) (calls : List Call) (n : ℕ) (call : Call)
    (hcall : calls[n]? = some call) : ∃ decision, ((machine score config).trace {} calls)[n]? = some decision ∧
      (decision.canAccept = true ↔ Accepts config (calls.take (n + 1)) call) := by
  refine ⟨_, trace_take hcall, ?_⟩
  have hrun : Summary config (calls.take (n + 1)) ((machine score config).run {} (calls.take (n + 1))) :=
    summary_run hpercent _
  have htake : calls.take (n + 1) = calls.take n ++ [call] := by
    rw [List.take_add_one, hcall]
    rfl
  rw [htake] at hrun ⊢
  rw [← hrun.accepts_iff, Machine.run_append]
  change (!(evaluate score call.signals config _ _).1.overloaded) = true ↔ _
  rw [Bool.not_eq_true']
  rfl

theorem canAccept_iff_recovered :
    ∃ decision, ((machine (fun _ _ ↦ 0) ⟨500, 75, 10, by decide⟩).trace {}
        [⟨{ lagMs := some 500 }, 1⟩, ⟨{}, 4⟩, ⟨{ memPermille := some 749 }, 6⟩])[2]? = some decision ∧
      (decision.canAccept = true ↔ Accepts ⟨500, 75, 10, by decide⟩
        ([⟨{ lagMs := some 500 }, 1⟩, ⟨{}, 4⟩, ⟨{ memPermille := some 749 }, 6⟩].take 3) ⟨{ memPermille := some 749 }, 6⟩) :=
  canAccept_iff (fun _ _ ↦ 0) ⟨500, 75, 10, by decide⟩ (by decide) _ 2 _ rfl

end SeaTunnel.Server.Admission
