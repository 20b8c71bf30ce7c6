import SeaTunnel.Core.FanoutLines

namespace SeaTunnel.Core.FanoutAcks

open Signaling Fanout FanoutSinkWriter FanoutSteps FanoutLines Lib Lib.Runs

variable {R Δ σ : Type} {N : ℕ} {f f' : FanoutSinkWriter N R Δ σ} {h events : List (Event N R Δ)}
variable {c : SinkCommand R Δ} {s : Fin N} {todo : List (Fin N)} {posts acks : List (Fin N × ℕ)}
variable {results : List Reply}

section Deaths

def DeathsInv (h : List (Event N R Δ)) (f : FanoutSinkWriter N R Δ σ) : Prop :=
  ∀ s, IsDead f s ↔ ∃ reason, .markedDead s reason ∈ h

theorem DeathsInv.same (hi : DeathsInv h f) (hdead : SameDead f f')
    (hevents : ∀ s reason, .markedDead s reason ∉ events) : DeathsInv (h ++ events) f' := by
  intro s
  rw [hdead.iff, hi s]
  simp [hevents]

theorem DeathsInv.more (tail : List (Event N R Δ)) (hi : DeathsInv h f) (hdead : DeadToo s f f')
    (hmarks : events = [] ∧ (f.handles s).dead = true ∨ ∃ reason, events = [.markedDead s reason])
    (htail : ∀ t reason, .markedDead t reason ∉ tail) : DeathsInv (h ++ (events ++ tail)) f' := by
  intro t
  rw [hdead.iff, hi t]
  rcases hmarks with ⟨rfl, hs⟩ | ⟨reason, rfl⟩
  · have hmarked := (hi s).mp hs
    simp only [List.nil_append, List.mem_append, htail, or_false]
    constructor
    · rintro (ht | rfl)
      · exact ht
      · exact hmarked
    · exact .inl
  · simp only [List.mem_append, List.mem_singleton, htail, or_false, exists_or, Event.markedDead.injEq]
    constructor
    · rintro (⟨r, hr⟩ | rfl)
      · exact .inl ⟨r, hr⟩
      · exact .inr ⟨reason, rfl, rfl⟩
    · rintro (hold | ⟨r, rfl, -⟩)
      · exact .inl hold
      · exact .inr rfl

theorem deathsInv_step {json : Serde} (hi : DeathsInv h f) (hstep : MuxStep json f f' events) :
    DeathsInv (h ++ events) f' := by
  cases hstep with
  | rest events hpc hdead hevents =>
    exact hi.same hdead fun s reason hmem ↦ hevents _ hmem
  | begun call hidle hdead haddress => exact hi.same hdead (by simp)
  | refused row e hidle halive hf' => exact hi.same (hf' ▸ fun _ ↦ rfl) (by simp)
  | sent call s todo posts haddress haddress' hdead hopen => exact hi.same hdead (by simp)
  | lost events call s todo posts haddress haddress' hdead hpolicy hmarks =>
    simpa using hi.more [] hdead hmarks (by simp)
  | collected call posts hpc hpc' hdead => exact hi.same hdead (by simp)
  | acked call posts s n acks results reply hpc hpc' hdead hanswer => exact hi.same hdead (by simp)
  | missed events call posts s n acks results hpc hpc' hdead hpolicy hmarks =>
    simpa using hi.more [] hdead hmarks (by simp)
  | aborted call posts s reason e hcall hclose hpc' hdead hpolicy halive =>
    exact hi.more [.returned call posts (.error e)] hdead (.inr ⟨reason, rfl⟩) (by simp)
  | finished call posts results hpc hclose hf' => exact hi.same (hf' ▸ fun _ ↦ rfl) (by simp)
  | written row last posts hpc hf' => exact hi.same (hf' ▸ fun _ ↦ rfl) (by simp)
  | closing posts results hpc hpc' hdead => exact hi.same hdead (by simp)
  | cutShort s reason hcall hpc' hdead => simpa using hi.more [] hdead (.inr ⟨reason, rfl⟩) (by simp)
  | joined todo todo' hpc hpc' hdead => exact hi.same hdead (by simp)
  | closed hpc hf' => exact hi.same (hf' ▸ fun _ ↦ rfl) (by simp)
  | panicked events hpc' hdead hevents =>
    refine hi.same hdead fun s reason hmem ↦ ?_
    cases hevents _ hmem

end Deaths

section Calls

structure Addressed (h : List (Event N R Δ)) (f : FanoutSinkWriter N R Δ σ) (c : SinkCommand R Δ)
    (todo : List (Fin N)) (posts : List (Fin N × ℕ)) : Prop where
  alive : ∀ s ∈ todo, ¬ IsDead f s
  all : ∀ s, ¬ IsDead f s → s ∈ posts.map Prod.fst ++ todo
  sorted : (posts.map Prod.fst ++ todo).Pairwise (· < ·)
  posted : ∀ s n, (s, n) ∈ posts → ¬ IsDead f s → .posted s ⟨n, c⟩ ∈ h
  lost : ∀ s n, (s, n) ∈ posts → IsDead f s → ∀ p, .posted s p ∈ h → p.serial ≠ n

structure Awaited (h : List (Event N R Δ)) (f : FanoutSinkWriter N R Δ σ) (c : SinkCommand R Δ)
    (posts acks : List (Fin N × ℕ)) (results : List Reply) : Prop where
  all : ∀ s, ¬ IsDead f s → s ∈ posts.map Prod.fst
  sorted : (posts.map Prod.fst).Pairwise (· < ·)
  posted : ∀ s n, (s, n) ∈ posts → ¬ IsDead f s → .posted s ⟨n, c⟩ ∈ h
  lost : ∀ s n, (s, n) ∈ acks → IsDead f s → ∀ p, .posted s p ∈ h → p.serial ≠ n
  answered : ∃ done, posts = done ++ acks ∧
    List.Forall₂ (fun x reply ↦ .performed x.1 ⟨x.2, c⟩ (.ok reply) ∈ h) (done.filter fun x ↦ ¬ IsDead f x.1) results

theorem alive_sorted (f : FanoutSinkWriter N R Δ σ) : f.alive.Pairwise (· < ·) :=
  (List.pairwise_lt_finRange N).filter _

theorem mem_alive : s ∈ f.alive ↔ ¬ IsDead f s := by
  simp [FanoutSinkWriter.alive, IsDead]

theorem addressed_begun (hdead : SameDead f f') : Addressed h f' c f.alive [] where
  alive := fun s hs ↦ (hdead.iff s).not.mpr (mem_alive.mp hs)
  all := fun s hs ↦ mem_alive.mpr ((hdead.iff s).not.mp hs)
  sorted := alive_sorted f
  posted := by simp
  lost := by simp

theorem Addressed.same (hi : Addressed h f c todo posts) (hdead : SameDead f f')
    (hevents : ∀ s p, .posted s p ∉ events) : Addressed (h ++ events) f' c todo posts where
  alive := fun s hs ↦ (hdead.iff s).not.mpr (hi.alive s hs)
  all := fun s hs ↦ hi.all s ((hdead.iff s).not.mp hs)
  sorted := hi.sorted
  posted := fun s n hs hlive ↦ List.mem_append_left _ (hi.posted s n hs ((hdead.iff s).not.mp hlive))
  lost := by
    intro s n hs hgone p hp
    rcases List.mem_append.mp hp with hp | hp
    · exact hi.lost s n hs ((hdead.iff s).mp hgone) p hp
    · exact absurd hp (hevents s p)

theorem not_mem_of_sorted (hsorted : (posts.map Prod.fst ++ s :: todo).Pairwise (· < ·)) {n : ℕ} : (s, n) ∉ posts := by
  intro hmem
  have hlt := (List.pairwise_append.mp hsorted).2.2 s (List.mem_map.mpr ⟨_, hmem, rfl⟩) s List.mem_cons_self
  exact lt_irrefl s hlt

theorem moved (posts : List (Fin N × ℕ)) (s : Fin N) (n : ℕ) (todo : List (Fin N)) :
    (posts ++ [(s, n)]).map Prod.fst ++ todo = posts.map Prod.fst ++ s :: todo := by
  simp

theorem Addressed.sent (hi : Addressed h f c (s :: todo) posts) (hdead : SameDead f f') :
    Addressed (h ++ [.posted s ⟨f.nextSerial, c⟩]) f' c todo (posts ++ [(s, f.nextSerial)]) where
  alive := fun t ht ↦ (hdead.iff t).not.mpr (hi.alive t (List.mem_cons_of_mem _ ht))
  all := by
    intro t ht
    rw [moved]
    exact hi.all t ((hdead.iff t).not.mp ht)
  sorted := by
    rw [moved]
    exact hi.sorted
  posted := by
    intro t n ht hlive
    rcases List.mem_append.mp ht with ht | ht
    · exact List.mem_append_left _ (hi.posted t n ht ((hdead.iff t).not.mp hlive))
    · obtain ⟨rfl, rfl⟩ := by simpa using ht
      exact List.mem_append_right _ List.mem_cons_self
  lost := by
    intro t n ht hgone p hp
    have hgone := (hdead.iff t).mp hgone
    have hts : t ≠ s := by
      rintro rfl
      exact hi.alive t List.mem_cons_self hgone
    rcases List.mem_append.mp ht with ht | ht
    · rcases List.mem_append.mp hp with hp | hp
      · exact hi.lost t n ht hgone p hp
      · simp [hts] at hp
    · simp [hts] at ht

theorem Addressed.lose (hl : LinesInv h f) (hi : Addressed h f c (s :: todo) posts) (hdead : DeadToo s f f')
    (hevents : ∀ t p, .posted t p ∉ events) :
    Addressed (h ++ events) f' c todo (posts ++ [(s, f.nextSerial)]) where
  alive := by
    intro t ht hgone
    rcases (hdead.iff t).mp hgone with hgone | rfl
    · exact hi.alive t (List.mem_cons_of_mem _ ht) hgone
    · exact lt_irrefl t ((List.pairwise_cons.mp (List.pairwise_append.mp hi.sorted).2.1).1 t ht)
  all := by
    intro t ht
    rw [moved]
    exact hi.all t fun hgone ↦ ht ((hdead.iff t).mpr (.inl hgone))
  sorted := by
    rw [moved]
    exact hi.sorted
  posted := by
    intro t n ht hlive
    have hlive' : ¬ (IsDead f t ∨ t = s) := (hdead.iff t).not.mp hlive
    rcases List.mem_append.mp ht with ht | ht
    · exact List.mem_append_left _ (hi.posted t n ht fun hgone ↦ hlive' (.inl hgone))
    · exact absurd (.inr (by simpa using congrArg Prod.fst (List.mem_singleton.mp ht))) hlive'
  lost := by
    intro t n ht hgone p hp
    have hp : .posted t p ∈ h := (List.mem_append.mp hp).resolve_right (hevents t p)
    rcases List.mem_append.mp ht with hold | hnew
    · rcases (hdead.iff t).mp hgone with hgone | rfl
      · exact hi.lost t n hold hgone p hp
      · exact absurd hold (not_mem_of_sorted hi.sorted)
    · obtain ⟨rfl, rfl⟩ := by simpa using hnew
      exact (hl.bound t p hp).ne

theorem Addressed.awaited (hi : Addressed h f c [] posts) (hdead : SameDead f f') :
    Awaited h f' c posts posts [] where
  all := fun s hs ↦ by simpa using hi.all s ((hdead.iff s).not.mp hs)
  sorted := by simpa using hi.sorted
  posted := fun s n hs hlive ↦ hi.posted s n hs ((hdead.iff s).not.mp hlive)
  lost := fun s n hs hgone ↦ hi.lost s n hs ((hdead.iff s).mp hgone)
  answered := ⟨[], rfl, .nil⟩

theorem filter_same (hdead : SameDead f f') (done : List (Fin N × ℕ)) :
    (done.filter fun x ↦ ¬ IsDead f' x.1) = done.filter fun x ↦ ¬ IsDead f x.1 := by
  simp [hdead.iff]

theorem Awaited.same (hi : Awaited h f c posts acks results) (hdead : SameDead f f')
    (hevents : ∀ s p, .posted s p ∉ events) : Awaited (h ++ events) f' c posts acks results where
  all := fun s hs ↦ hi.all s ((hdead.iff s).not.mp hs)
  sorted := hi.sorted
  posted := fun s n hs hlive ↦ List.mem_append_left _ (hi.posted s n hs ((hdead.iff s).not.mp hlive))
  lost := by
    intro s n hs hgone p hp
    rcases List.mem_append.mp hp with hp | hp
    · exact hi.lost s n hs ((hdead.iff s).mp hgone) p hp
    · exact absurd hp (hevents s p)
  answered := by
    obtain ⟨done, hsplit, hall⟩ := hi.answered
    refine ⟨done, hsplit, ?_⟩
    rw [filter_same hdead]
    exact hall.imp fun x reply hx ↦ List.mem_append_left _ hx

theorem Awaited.ack {n : ℕ} {reply : Reply} (hl : LinesInv h f) (hi : Awaited h f c posts ((s, n) :: acks) results)
    (hdead : SameDead f f') (hanswer : (f.handles s).answers.lookup n = some (.ok reply)) :
    Awaited h f' c posts acks (results ++ [reply]) := by
  obtain ⟨done, hsplit, hall⟩ := hi.answered
  have hmem : (s, n) ∈ posts := by simp [hsplit]
  -- an answer exists only for a command that was sent, so the sink is not dead
  have hlive : ¬ IsDead f s := by
    intro hgone
    obtain ⟨p, hserial, hperformed⟩ := (hl.line s).answers n _ hanswer
    exact hi.lost s n List.mem_cons_self hgone p (hl.posted_of_performed (mem_performedBy.mp hperformed)) hserial
  refine ⟨fun t ht ↦ hi.all t ((hdead.iff t).not.mp ht), hi.sorted,
    fun t m ht hlive' ↦ hi.posted t m ht ((hdead.iff t).not.mp hlive'),
    fun t m ht hgone ↦ hi.lost t m (List.mem_cons_of_mem _ ht) ((hdead.iff t).mp hgone),
    done ++ [(s, n)], by simp [hsplit], ?_⟩
  have hperformed := hl.performed_of_answer (hi.posted s n hmem hlive) hanswer
  rw [filter_same hdead, List.filter_append]
  refine List.rel_append hall ?_
  simpa [hlive] using hperformed

theorem Awaited.miss {n : ℕ} (hi : Awaited h f c posts ((s, n) :: acks) results) (hdead : DeadToo s f f')
    (hevents : ∀ t p, .posted t p ∉ events) : Awaited (h ++ events) f' c posts acks results := by
  obtain ⟨done, hsplit, hall⟩ := hi.answered
  have hsorted := hi.sorted
  rw [hsplit, List.map_append, List.map_cons] at hsorted
  have hdone : ∀ x ∈ done, x.1 ≠ s := by
    rintro ⟨t, m⟩ hx rfl
    have hlt := (List.pairwise_append.mp hsorted).2.2 t (List.mem_map.mpr ⟨_, hx, rfl⟩) t List.mem_cons_self
    exact lt_irrefl t hlt
  have hacks : ∀ m, (s, m) ∉ acks := by
    intro m hm
    have hlt := (List.pairwise_cons.mp (List.pairwise_append.mp hsorted).2.1).1 s (List.mem_map.mpr ⟨_, hm, rfl⟩)
    exact lt_irrefl s hlt
  refine ⟨fun t ht ↦ hi.all t fun hgone ↦ ht ((hdead.iff t).mpr (.inl hgone)), hi.sorted,
    fun t m ht hlive ↦ List.mem_append_left _ (hi.posted t m ht fun hgone ↦ hlive ((hdead.iff t).mpr (.inl hgone))),
    fun t m ht hgone p hp ↦ ?_, done ++ [(s, n)], by simp [hsplit], ?_⟩
  · have hp : .posted t p ∈ h := (List.mem_append.mp hp).resolve_right (hevents t p)
    rcases (hdead.iff t).mp hgone with hgone | rfl
    · exact hi.lost t m (List.mem_cons_of_mem _ ht) hgone p hp
    · exact absurd ht (hacks m)
  · have hfilter : ((done ++ [(s, n)]).filter fun x ↦ ¬ IsDead f' x.1) = done.filter fun x ↦ ¬ IsDead f x.1 := by
      rw [List.filter_append]
      have hlast : ([(s, n)].filter fun x ↦ ¬ IsDead f' x.1) = [] := by simp [hdead.iff]
      rw [hlast, List.append_nil]
      refine List.filter_congr fun x hx ↦ ?_
      simp [hdead.iff, hdone x hx]
    rw [hfilter]
    exact hall.imp fun x reply hx ↦ List.mem_append_left _ hx

structure AcksInv (h : List (Event N R Δ)) (f : FanoutSinkWriter N R Δ σ) : Prop where
  lines : LinesInv h f
  deaths : DeathsInv h f
  addressed : ∀ c todo posts, addressing f.pc = some (c, todo, posts) → Addressed h f c todo posts
  awaited : ∀ c posts acks results, f.pc = .awaiting c posts acks results → Awaited h f c posts acks results

theorem acksInv_init (names : Fin N → String) (writers : Fin N → σ) (policy : SinkFailurePolicy)
    (ackTimeout : String) : AcksInv (R := R) (Δ := Δ) [] (withAckTimeout names writers policy ackTimeout) :=
  ⟨linesInv_init names writers policy ackTimeout, by simp [DeathsInv, IsDead, withAckTimeout],
    by simp [withAckTimeout, addressing], by simp [withAckTimeout]⟩

theorem AcksInv.ended (hlines : LinesInv h f) (hdeaths : DeathsInv h f) (haddress : addressing f.pc = none)
    (hcall : callOf f.pc = none) : AcksInv h f where
  lines := hlines
  deaths := hdeaths
  addressed := by simp [haddress]
  awaited := by
    intro c posts acks results hpc
    rw [hpc] at hcall
    cases hcall

theorem AcksInv.addressing (hlines : LinesInv h f) (hdeaths : DeathsInv h f)
    (haddress : addressing f.pc = some (c, todo, posts)) (haddressed : Addressed h f c todo posts) :
    AcksInv h f where
  lines := hlines
  deaths := hdeaths
  addressed := by
    intro c' todo' posts' haddress'
    rw [haddress, Option.some.injEq, Prod.mk.injEq, Prod.mk.injEq] at haddress'
    obtain ⟨rfl, rfl, rfl⟩ := haddress'
    exact haddressed
  awaited := by
    intro c' posts' acks results hpc
    rw [hpc] at haddress
    cases haddress

theorem AcksInv.awaiting (hlines : LinesInv h f) (hdeaths : DeathsInv h f)
    (hpc : f.pc = .awaiting c posts acks results) (hawaited : Awaited h f c posts acks results) :
    AcksInv h f where
  lines := hlines
  deaths := hdeaths
  addressed := by simp [hpc, FanoutSteps.addressing]
  awaited := by
    intro c' posts' acks' results' hpc'
    rw [hpc] at hpc'
    cases hpc'
    exact hawaited

theorem acksInv_step (k : InnerWriter R Δ σ) (json : Serde) (h : List (Event N R Δ)) (f : FanoutSinkWriter N R Δ σ)
    (i : Input N R Δ) (hi : AcksInv h f) :
    AcksInv (h ++ (machine k json).emit f i) ((machine k json).next f i) := by
  have hlines := linesInv_step k json h f i hi.lines
  have hstep := machine_mux k json f i
  have hdeaths := deathsInv_step hi.deaths hstep
  generalize (machine k json).next f i = f', (machine k json).emit f i = events at hlines hstep hdeaths ⊢
  cases hstep with
  | rest events hpc hdead hevents =>
    have hquiet : ∀ s p, .posted s p ∉ events := fun s p hp ↦ hevents _ hp
    refine ⟨hlines, hdeaths, fun c todo posts haddress ↦ ?_, fun c posts acks results hawait ↦ ?_⟩
    · exact (hi.addressed c todo posts (hpc ▸ haddress)).same hdead hquiet
    · exact (hi.awaited c posts acks results (hpc ▸ hawait)).same hdead hquiet
  | begun call hidle hdead haddress => exact .addressing hlines hdeaths haddress (addressed_begun hdead)
  | refused row e hidle halive hf' =>
    subst hf'
    exact .ended hlines hdeaths (by rw [hidle]; rfl) (by rw [hidle]; rfl)
  | sent call s todo posts haddress haddress' hdead hopen =>
    exact .addressing hlines hdeaths haddress' ((hi.addressed _ _ _ haddress).sent hdead)
  | lost events call s todo posts haddress haddress' hdead hpolicy hmarks =>
    refine .addressing hlines hdeaths haddress' ((hi.addressed _ _ _ haddress).lose hi.lines hdead fun t p hp ↦ ?_)
    rcases hmarks with ⟨rfl, -⟩ | ⟨reason, rfl⟩ <;> simp at hp
  | collected call posts hpc hpc' hdead =>
    have haddressed := hi.addressed call [] posts (by rw [hpc]; rfl)
    refine .awaiting hlines hdeaths hpc' ?_
    simpa using haddressed.awaited hdead
  | acked call posts s n acks results reply hpc hpc' hdead hanswer =>
    refine .awaiting hlines hdeaths hpc' ?_
    simpa using (hi.awaited _ _ _ _ hpc).ack hi.lines hdead hanswer
  | missed events call posts s n acks results hpc hpc' hdead hpolicy hmarks =>
    refine .awaiting hlines hdeaths hpc' ((hi.awaited _ _ _ _ hpc).miss hdead fun t p hp ↦ ?_)
    rcases hmarks with ⟨rfl, -⟩ | ⟨reason, rfl⟩ <;> simp at hp
  | aborted call posts s reason e hcall hclose hpc' hdead hpolicy halive =>
    exact .ended hlines hdeaths (by rw [hpc']; rfl) (by rw [hpc']; rfl)
  | finished call posts results hpc hclose hf' =>
    subst hf'
    exact .ended hlines hdeaths rfl rfl
  | written row last posts hpc hf' =>
    subst hf'
    exact .ended hlines hdeaths rfl rfl
  | closing posts results hpc hpc' hdead => exact .ended hlines hdeaths (by rw [hpc']; rfl) (by rw [hpc']; rfl)
  | cutShort s reason hcall hpc' hdead => exact .ended hlines hdeaths (by rw [hpc']; rfl) (by rw [hpc']; rfl)
  | joined todo todo' hpc hpc' hdead => exact .ended hlines hdeaths (by rw [hpc']; rfl) (by rw [hpc']; rfl)
  | closed hpc hf' =>
    subst hf'
    exact .ended hlines hdeaths rfl rfl
  | panicked events hpc' hdead hevents => exact .ended hlines hdeaths (by rw [hpc']; rfl) (by rw [hpc']; rfl)

theorem Awaited.results_alive (hi : Awaited h f c posts [] results) :
    f.alive = (posts.filter fun x ↦ ¬ IsDead f x.1).map Prod.fst ∧
      List.Forall₂ (fun x reply ↦ .performed x.1 ⟨x.2, c⟩ (.ok reply) ∈ h) (posts.filter fun x ↦ ¬ IsDead f x.1)
        results := by
  obtain ⟨done, hsplit, hall⟩ := hi.answered
  rw [List.append_nil] at hsplit
  subst hsplit
  refine ⟨?_, hall⟩
  have hsub : ((posts.filter fun x ↦ ¬ IsDead f x.1).map Prod.fst).Sublist (posts.map Prod.fst) :=
    List.filter_sublist.map _
  have hsorted := hi.sorted.sublist hsub
  have hmem : ∀ s, s ∈ f.alive ↔ s ∈ (posts.filter fun x ↦ ¬ IsDead f x.1).map Prod.fst := by
    intro s
    rw [mem_alive]
    constructor
    · intro hlive
      obtain ⟨x, hx, rfl⟩ := List.mem_map.mp (hi.all s hlive)
      exact List.mem_map.mpr ⟨x, List.mem_filter.mpr ⟨hx, by simpa using hlive⟩, rfl⟩
    · intro hs
      obtain ⟨x, hx, rfl⟩ := List.mem_map.mp hs
      simpa using (List.mem_filter.mp hx).2
  have hperm := (List.perm_ext_iff_of_nodup ((alive_sorted f).imp ne_of_lt) (hsorted.imp ne_of_lt)).mpr hmem
  exact hperm.eq_of_pairwise (fun a b _ _ hab hba ↦ absurd hba (lt_asymm hab)) (alive_sorted f) hsorted

theorem exists_of_forall₂ {α β : Type} {P : α → β → Prop} {as : List α} {bs : List β} {a : α}
    (hall : List.Forall₂ P as bs) (ha : a ∈ as) : ∃ b ∈ bs, P a b := by
  induction hall with
  | nil => cases ha
  | cons hhead htail ih =>
    rcases List.mem_cons.mp ha with rfl | ha
    · exact ⟨_, List.mem_cons_self, hhead⟩
    · obtain ⟨b, hb, hab⟩ := ih ha
      exact ⟨b, List.mem_cons_of_mem _ hb, hab⟩

theorem Awaited.live_performed (hi : Awaited h f c posts [] results) (hlive : ¬ IsDead f s) :
    ∃ n reply, (s, n) ∈ posts ∧ .performed s ⟨n, c⟩ (.ok reply) ∈ h := by
  obtain ⟨halive, hall⟩ := hi.results_alive
  rw [← mem_alive, halive] at hlive
  obtain ⟨x, hx, rfl⟩ := List.mem_map.mp hlive
  obtain ⟨reply, -, hperformed⟩ := exists_of_forall₂ hall hx
  exact ⟨x.2, reply, (List.mem_filter.mp hx).1, hperformed⟩

end Calls

end SeaTunnel.Core.FanoutAcks
