import SeaTunnel.Core.ConnectorFactory
import SeaTunnel.Core.FanoutAcks

namespace SeaTunnel.Core.FanoutCommits

open Signaling Fanout FanoutSinkWriter FanoutSteps FanoutLines FanoutAcks ConnectorFactory Lib Lib.Runs

variable {R Δ σ γ α β : Type} {N : ℕ} {f : FanoutSinkWriter N R Δ σ} {h : List (Event N R Δ)}

section Property

/-- `own` gives each live sink what its own writer returned in the call. -/
structure Own (h : List (Event N R Δ)) (posts : List (Fin N × ℕ)) (call : SinkCommand R Δ) (reply : α → Reply)
    (own : Fin N → Option α) : Prop where
  dead : ∀ s, own s = none ↔ ∃ reason, .markedDead s reason ∈ h
  live : ∀ s a, own s = some a → ∃ n, (s, n) ∈ posts ∧ .performed s ⟨n, call⟩ (.ok (reply a)) ∈ h

variable (call : γ → List Bytes → Except String α × γ)

/-- The committer of a sink after it has got `own`. -/
def afterCall : Option γ → Option (List Bytes) → Option γ
  | some c, some infos => some (call c infos).2
  | committer, _ => committer

def failure : Option γ → Option (List Bytes) → Option String
  | some c, some infos =>
    match (call c infos).1 with
    | .ok _ => none
    | .error e => some e
  | _, _ => none

/-- Each sink's committer gets `own` of the sink and nothing else, in the order
of the sinks up to the first failure. -/
structure Delivered {ι : Type} (names : ι → String) (own : ι → Option (List Bytes)) (committers : ι → Option γ)
    (sinks : List ι) (result : Except String β) (after : List (String × Option γ)) : Prop where
  all : result.toOption.isSome → (∀ s ∈ sinks, failure call (committers s) (own s) = none) ∧
    after = sinks.map fun s ↦ (names s, afterCall call (committers s) (own s))
  upTo : ∀ e, result = .error e → ∃ front s back, sinks = front ++ s :: back ∧
    (∀ t ∈ front, failure call (committers t) (own t) = none) ∧ failure call (committers s) (own s) = some e ∧
    after = ((front ++ [s]).map fun t ↦ (names t, afterCall call (committers t) (own t))) ++
      back.map fun t ↦ (names t, committers t)

/-- What a successful prepare returns goes to the committers of the sinks that
have prepared it, and what a snapshot returns goes back to their writers. -/
def Routed (json : SerdeJson) (names : Fin N → String) (h : List (Event N R Δ)) : Event N R Δ → Prop
  | .returned (.prepareCommit checkpointId) posts (.ok reply) =>
    ∃ own, Own h posts (.prepareCommit checkpointId) .infos own ∧
      ∀ (γ A : Type) (k : InnerCommitter γ A) (committers : Fin N → Option γ),
        let f : FanoutCommitter γ := ⟨List.ofFn fun s ↦ (names s, committers s)⟩
        Delivered k.commit names own committers (List.finRange N) (f.commit json k reply.toInfos).1
            (f.commit json k reply.toInfos).2.committers ∧
          Delivered k.abort names own committers (List.finRange N) (f.abort json k reply.toInfos).1
            (f.abort json k reply.toInfos).2.committers
  | .returned .snapshotState posts (.ok reply) =>
    ∃ own, Own h posts .snapshotState .state own ∧
      ∀ s, (restoredStates json (some reply.toState)).lookup (names s) = own s
  | _ => True

end Property

section Names

theorem sinkName_inj {p q : String} {i j : ℕ} (heq : sinkName p i = sinkName q j) : i = j := by
  have hname : ∀ (p : String) (i : ℕ), (sinkName p i).toList = p.toList ++ '#' :: Nat.toDigits 10 i := by
    intro p i
    simp [sinkName, Nat.toString_eq_repr, Nat.toList_repr]
  have hlist := congrArg String.toList heq
  rw [hname, hname] at hlist
  have hdigits := Text.append_cons_inj_right (Text.notMem_digits (by decide) i) (Text.notMem_digits (by decide) j) hlist
  have hback := congrArg (fun ds ↦ Nat.ofDigitChars 10 ds 0) hdigits
  simpa only [Nat.ofDigitChars_ten_toDigits] using hback

end Names

section Committers

variable {call : γ → List Bytes → Except String α × γ} {groups : Dict String (List Bytes)} {ι : Type}
variable {names : ι → String} {own : ι → Option (List Bytes)} {committers : ι → Option γ}

theorem Delivered.cons {s : ι} {sinks : List ι} {result : Except String β} {after : List (String × Option γ)}
    (hrest : Delivered call names own committers sinks result after)
    (hs : failure call (committers s) (own s) = none) :
    Delivered call names own committers (s :: sinks) result
      ((names s, afterCall call (committers s) (own s)) :: after) where
  all := by
    intro hok
    obtain ⟨hnone, rfl⟩ := hrest.all hok
    refine ⟨fun t ht ↦ ?_, rfl⟩
    rcases List.mem_cons.mp ht with rfl | ht
    · exact hs
    · exact hnone t ht
  upTo := by
    intro e he
    obtain ⟨front, t, back, rfl, hfront, ht, rfl⟩ := hrest.upTo e he
    refine ⟨s :: front, t, back, rfl, fun u hu ↦ ?_, ht, rfl⟩
    rcases List.mem_cons.mp hu with rfl | hu
    · exact hs
    · exact hfront u hu

theorem callEach_delivered (sinks : List ι) (hgroups : ∀ s, groups.lookup (names s) = own s)
    (aggregated : Dict String α) :
    Delivered call names own committers sinks
      (FanoutCommitter.callEach call groups (sinks.map fun s ↦ (names s, committers s)) aggregated).1
      (FanoutCommitter.callEach call groups (sinks.map fun s ↦ (names s, committers s)) aggregated).2 := by
  induction sinks generalizing aggregated with
  | nil => exact ⟨fun _ ↦ ⟨by simp, rfl⟩, fun _ h ↦ by cases h⟩
  | cons s sinks ih =>
    rw [List.map_cons]
    unfold FanoutCommitter.callEach
    rw [hgroups s]
    split
    · next c infos hcommitter hown =>
      split
      · next a c' hcall =>
        have hs : failure call (committers s) (own s) = none := by simp [failure, hcommitter, hown, hcall]
        have hafter : afterCall call (committers s) (own s) = some c' := by simp [afterCall, hcommitter, hown, hcall]
        have hrest := (ih (aggregated.insert (names s) a)).cons hs
        rwa [hafter] at hrest
      · next e c' hcall =>
        refine ⟨fun h ↦ (by cases h), fun e' he' ↦ ⟨[], s, sinks, rfl, by simp, ?_, ?_⟩⟩
        · obtain rfl := Except.error.inj he'
          simp [failure, hcommitter, hown, hcall]
        · simp [afterCall, hcommitter, hown, hcall]
    · next hother =>
      have hs : failure call (committers s) (own s) = none := by
        unfold failure
        split
        · next c infos hcommitter hown => exact (hother c infos hcommitter hown).elim
        · rfl
      have hafter : afterCall call (committers s) (own s) = committers s := by
        unfold afterCall
        split
        · next c infos hcommitter hown => exact (hother c infos hcommitter hown).elim
        · rfl
      have hrest := (ih aggregated).cons hs
      rwa [hafter] at hrest

end Committers

section Alignment

variable {posts : List (Fin N × ℕ)} {results : List Reply} {c : SinkCommand R Δ} {s : Fin N}

theorem zipIdx_map_getElem? {as : List α} {bs : List β} (F : α → Option β → γ) (hlength : as.length = bs.length) :
    (as.zipIdx.map fun x ↦ F x.1 bs[x.2]?) = (as.zip bs).map fun x ↦ F x.1 (some x.2) := by
  refine List.ext_getElem (by simp [hlength]) fun i hi hi' ↦ ?_
  have hb : i < bs.length := by simpa [hlength] using hi
  simp [hb]

theorem zip_alive (hi : Awaited h f c posts [] results) :
    f.alive.length = results.length ∧
      ∀ x ∈ f.alive.zip results, ∃ n, (x.1, n) ∈ posts ∧ .performed x.1 ⟨n, c⟩ (.ok x.2) ∈ h := by
  obtain ⟨halive, hall⟩ := hi.results_alive
  obtain ⟨hlength, hzip⟩ := List.forall₂_iff_zip.mp hall
  rw [halive]
  refine ⟨by rw [List.length_map, hlength], fun x hx ↦ ?_⟩
  rw [List.zip_map_left] at hx
  obtain ⟨⟨⟨t, n⟩, reply⟩, hy, rfl⟩ := List.mem_map.mp hx
  exact ⟨n, (List.mem_filter.mp (List.of_mem_zip hy).1).1, hzip hy⟩

theorem lookup_merged (hi : Awaited h f c posts [] results)
    (hnames : Function.Injective fun s ↦ (f.handles s).name) (val : Option Reply → α) {merged : Dict String α}
    (hmerged : merged = (f.alive.zipIdx.map fun x ↦ ((f.handles x.1).name, val results[x.2]?)).foldl
      (fun merged x ↦ merged.insert x.1 x.2) ∅) (s : Fin N) :
    (IsDead f s → merged.lookup (f.handles s).name = none) ∧
      (¬ IsDead f s → ∃ n reply, (s, n) ∈ posts ∧ .performed s ⟨n, c⟩ (.ok reply) ∈ h ∧
        merged.lookup (f.handles s).name = some (val (some reply))) := by
  obtain ⟨hlength, hzip⟩ := zip_alive hi
  have hentries : (f.alive.zipIdx.map fun x ↦ ((f.handles x.1).name, val results[x.2]?)) =
      (f.alive.zip results).map fun x ↦ ((f.handles x.1).name, val (some x.2)) :=
    zipIdx_map_getElem? (fun t o ↦ ((f.handles t).name, val o)) hlength
  have hfst : (f.alive.zip results).map Prod.fst = f.alive := List.map_fst_zip hlength.le
  rw [hentries, List.foldl_map] at hmerged
  rw [hmerged]
  constructor
  · intro hdead
    refine (Dict.lookup_collect_of_notMem (fun x hx hname ↦ ?_) ∅).trans (AList.lookup_empty _)
    have halive : x.1 ∈ f.alive := hfst ▸ List.mem_map_of_mem hx
    exact mem_alive.mp (hnames hname ▸ halive) hdead
  · intro hlive
    have hmem : s ∈ (f.alive.zip results).map Prod.fst := hfst.symm ▸ mem_alive.mpr hlive
    obtain ⟨⟨t, reply⟩, hx, rfl⟩ := List.mem_map.mp hmem
    obtain ⟨n, hposts, hperformed⟩ := hzip _ hx
    refine ⟨n, reply, hposts, hperformed, ?_⟩
    have hdistinct : (f.alive.map fun s ↦ (f.handles s).name).Nodup :=
      List.Nodup.map hnames ((alive_sorted f).imp ne_of_lt)
    rw [← hfst, List.map_map] at hdistinct
    have hnodup : ((f.alive.zip results).map fun x ↦ (f.handles x.1).name).Nodup := hdistinct
    exact Dict.lookup_collect hnodup hx ∅

end Alignment

section Replies

def Answers : SinkCommand R Δ → Reply → Prop
  | .prepareCommit _, reply => reply = .infos reply.toInfos
  | .snapshotState, reply => reply = .state reply.toState
  | _, reply => reply = .unit

theorem perform_answers {k : InnerWriter R Δ σ} {writer : σ} {c : SinkCommand R Δ} {reply : Reply}
    (hreply : (k.perform writer c).1 = .ok reply) : Answers c reply := by
  have hmap : ∀ {α : Type} {make : α → Reply} {outcome : Outcome α}, outcome.map make = .ok reply →
      ∃ a, reply = make a := by
    intro α make outcome heq
    cases outcome with
    | ok a => exact ⟨a, (Outcome.ok.inj heq).symm⟩
    | err e => cases heq
    | panic m => cases heq
  cases c <;> obtain ⟨a, rfl⟩ := hmap hreply <;> rfl

theorem performed_answers {k : InnerWriter R Δ σ} {json : Serde} {i : Input N R Δ} {s : Fin N} {p : Post R Δ}
    {reply : Reply} (he : .performed s p (.ok reply) ∈ (machine k json).emit f i) : Answers p.command reply :=
  perform_answers (machine_performed he).2.symm

end Replies

section Runs

structure CommitsInv (json : SerdeJson) (names : Fin N → String) (h : List (Event N R Δ))
    (f : FanoutSinkWriter N R Δ σ) : Prop where
  acks : AcksInv h f
  named : ∀ s, (f.handles s).name = names s
  answers : ∀ s p reply, .performed s p (.ok reply) ∈ h → Answers p.command reply
  routed : Always (Routed json names) [] h

variable {json : SerdeJson} {names : Fin N → String} {posts : List (Fin N × ℕ)} {results : List Reply}
  {c : SinkCommand R Δ}

theorem CommitsInv.own (hi : CommitsInv json names h f) (hnames : Function.Injective names)
    (hawaited : Awaited h f c posts [] results) {reply : α → Reply} {read : Reply → α} {merged : Dict String α}
    (default : α)
    (hmerged : merged = (f.alive.zipIdx.map fun x ↦ ((f.handles x.1).name, (results[x.2]?.map read).getD default)).foldl
      (fun merged x ↦ merged.insert x.1 x.2) ∅)
    (hread : ∀ r, Answers c r → r = reply (read r)) : Own h posts c reply fun s ↦ merged.lookup (names s) := by
  obtain rfl : (fun s ↦ (f.handles s).name) = names := funext hi.named
  have hall := lookup_merged hawaited hnames (fun o ↦ (o.map read).getD default) hmerged
  constructor
  · intro s
    rw [← hi.acks.deaths s]
    constructor
    · intro hnone
      by_contra hlive
      obtain ⟨n, r, -, -, hsome⟩ := (hall s).2 hlive
      rw [hnone] at hsome
      cases hsome
    · exact (hall s).1
  · intro s a hsome
    have hlive : ¬ IsDead f s := by
      intro hdead
      rw [(hall s).1 hdead] at hsome
      cases hsome
    obtain ⟨n, r, hposts, hperformed, hlookup⟩ := (hall s).2 hlive
    obtain rfl : read r = a := Option.some.inj (hlookup.symm.trans hsome)
    refine ⟨n, hposts, ?_⟩
    rw [← hread r (hi.answers s _ r hperformed)]
    exact hperformed

theorem CommitsInv.prepared (hi : CommitsInv json names h f) (hnames : Function.Injective names) {checkpointId : ℕ}
    (hawaited : Awaited h f (.prepareCommit checkpointId) posts [] results) :
    Routed json names h
      (.returned (.prepareCommit checkpointId) posts
        (.ok (f.broadcastResult json.toSerde (.prepareCommit checkpointId) results))) := by
  let groups := (f.commitInfos results).entries.foldl
    (fun (groups : Dict String (List Bytes)) entry ↦ groups.insert entry.sink entry.infos) ∅
  have hsplit : FanoutCommitter.split json
      (f.broadcastResult json.toSerde (.prepareCommit checkpointId) results).toInfos = .ok groups := by
    simp [FanoutCommitter.split, broadcastResult, Reply.toInfos, json.infos_back, groups]
  have hown : Own h posts (.prepareCommit checkpointId) .infos fun s ↦ groups.lookup (names s) := by
    refine hi.own hnames hawaited [] ?_ fun r hr ↦ hr
    simp only [groups, commitInfos, List.foldl_map]
  refine ⟨_, hown, fun γ A k committers ↦ ?_⟩
  have hroute : ∀ {α : Type} (call : γ → List Bytes → Except String α × γ),
      Delivered call names (fun s ↦ groups.lookup (names s)) committers (List.finRange N)
        (FanoutCommitter.route json call (f.broadcastResult json.toSerde (.prepareCommit checkpointId) results).toInfos
          ⟨List.ofFn fun s ↦ (names s, committers s)⟩).1
        (FanoutCommitter.route json call (f.broadcastResult json.toSerde (.prepareCommit checkpointId) results).toInfos
          ⟨List.ofFn fun s ↦ (names s, committers s)⟩).2.committers := by
    intro α call
    rw [FanoutCommitter.route, hsplit, List.ofFn_eq_map]
    exact callEach_delivered (List.finRange N) (fun _ ↦ rfl) ∅
  refine ⟨hroute k.commit, ?_⟩
  obtain ⟨hall, hupTo⟩ := hroute k.abort
  refine ⟨fun hok ↦ hall ?_, fun e he ↦ hupTo e ?_⟩
  · simp only [FanoutCommitter.abort] at hok
    revert hok
    cases (FanoutCommitter.route json k.abort _ _).1 <;> exact id
  · simp only [FanoutCommitter.abort] at he
    revert he
    cases (FanoutCommitter.route json k.abort _ _).1 with
    | error e' => exact fun he ↦ congrArg Except.error (Except.error.inj he)
    | ok a => exact nofun

theorem CommitsInv.snapshotted (hi : CommitsInv json names h f) (hnames : Function.Injective names)
    (hawaited : Awaited h f .snapshotState posts [] results) :
    Routed json names h
      (.returned .snapshotState posts (.ok (f.broadcastResult json.toSerde .snapshotState results))) := by
  have hown : Own h posts .snapshotState .state fun s ↦ (f.mergedStates results).lookup (names s) := by
    refine hi.own hnames hawaited [] ?_ fun r hr ↦ hr
    simp only [mergedStates, List.foldl_map]
  refine ⟨_, hown, fun s ↦ ?_⟩
  obtain ⟨back, hback, hlookup⟩ := json.states_back (f.mergedStates results)
  simp [restoredStates, broadcastResult, Reply.toState, hback, Except.toOption, hlookup]

theorem commitsInv_step (k : InnerWriter R Δ σ) (hnames : Function.Injective names) (h : List (Event N R Δ))
    (f : FanoutSinkWriter N R Δ σ) (i : Input N R Δ) (hi : CommitsInv json names h f) :
    CommitsInv json names (h ++ (machine k json.toSerde).emit f i) ((machine k json.toSerde).next f i) where
  acks := acksInv_step k json.toSerde h f i hi.acks
  named := fun s ↦ by rw [(machine_fixed k json.toSerde f i).names s, hi.named s]
  answers := by
    intro s p reply hp
    rcases List.mem_append.mp hp with hp | hp
    · exact hi.answers s p reply hp
    · exact performed_answers hp
  routed := by
    refine always_append.mpr ⟨hi.routed, ?_⟩
    have hmux := machine_mux k json.toSerde f i
    refine hmux.always (fun h' e he ↦ ?_) fun e hmem he ↦ ?_
    · unfold Routed
      split
      · exact absurd trivial he
      · exact absurd trivial he
      · trivial
    · cases e with
      | returned c posts result =>
        cases result with
        | error e => cases c <;> trivial
        | ok reply =>
          cases c with
          | prepareCommit checkpointId =>
            obtain ⟨-, -, ⟨results, hpc, rfl⟩ | ⟨row, last, hwrite, -⟩⟩ := hmux.returned_ok hmem nofun
            · exact hi.prepared hnames (hi.acks.awaited _ _ _ _ hpc)
            · cases hwrite
          | snapshotState =>
            obtain ⟨-, -, ⟨results, hpc, rfl⟩ | ⟨row, last, hwrite, -⟩⟩ := hmux.returned_ok hmem nofun
            · exact hi.snapshotted hnames (hi.acks.awaited _ _ _ _ hpc)
            · cases hwrite
          | _ => trivial
      | _ => trivial

theorem sinkName_injective (plugins : Fin N → String) : Function.Injective fun s : Fin N ↦ sinkName (plugins s) s :=
  fun _ _ heq ↦ Fin.ext (sinkName_inj heq)

theorem commits_routed (k : InnerWriter R Δ σ) (json : SerdeJson) (plugins : Fin N → String) (writers : Fin N → σ)
    (policy : SinkFailurePolicy) (ackTimeout : String) (is : List (Input N R Δ)) :
    Always (Routed json fun s ↦ sinkName (plugins s) s) [] ((machine k json.toSerde).trace
      (withAckTimeout (fun s ↦ sinkName (plugins s) s) writers policy ackTimeout) is) := by
  have hnames := sinkName_injective plugins
  have hinit : CommitsInv (R := R) (Δ := Δ) json (fun s ↦ sinkName (plugins s) s) []
      (withAckTimeout (fun s ↦ sinkName (plugins s) s) writers policy ackTimeout) :=
    ⟨acksInv_init _ writers policy ackTimeout, fun _ ↦ rfl, by simp, trivial⟩
  have hi := Machine.invariant_all (commitsInv_step k hnames) hinit is
  rw [List.nil_append] at hi
  exact hi.routed

end Runs

end SeaTunnel.Core.FanoutCommits
