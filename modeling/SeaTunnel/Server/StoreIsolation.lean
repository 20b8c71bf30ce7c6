import SeaTunnel.Server.StoreFiles

namespace SeaTunnel.Server.StoreFiles

open Core.LocalCheckpoint (CheckpointEnvelope)
open Core.Signaling (Bytes)
open Lib Lib.Disk
open StateStore.LocalStateStore (sanitize)

variable {B : Type}

section Isolation

/-- The job ids and task ids. -/
abbrev Id : Type := { id : String // id ≠ "" }

/-- The store root, a path from the root directory down. -/
abbrev Root : Type := { root : Path // Plain root }

/-- Under the root, where a store may make the root itself, and not in a reserved directory. -/
def Allowed (root p : Path) : Prop := (root <+: p ∨ p <+: root) ∧ ∀ r ∈ reservedDirs, ¬root ++ [r] <+: p

/-- A directory name that is only a job's. -/
def Own (name : String) : Prop := name ≠ "." ∧ name ≠ ".." ∧ name ∉ reservedDirs

def Apart (name name' : String) : Prop := Own name ∧ Own name' ∧ name ≠ name'

namespace LocalCheckpointStore

variable (alphanumeric : Char → Bool) (root : Path)

def Unaffected (jobId jobId' : String) : Prop :=
  ∀ disk : Disk Json, Rooted disk → ∀ op : Op,
    loadAll alphanumeric root jobId' (call alphanumeric root jobId op disk) =
        loadAll alphanumeric root jobId' disk ∧
      loadLatest alphanumeric root jobId' (call alphanumeric root jobId op disk) =
        loadLatest alphanumeric root jobId' disk

def Inside (jobId : String) : Prop :=
  ∀ disk : Disk Json, Rooted disk → ∀ (op : Op) (p : Path),
    (call alphanumeric root jobId op disk).node p ≠ disk.node p → Allowed root p

/-- Nothing done for one of the jobs reaches the other or leaves the store. -/
def Isolated (jobId jobId' : String) : Prop :=
  Unaffected alphanumeric root jobId jobId' ∧ Unaffected alphanumeric root jobId' jobId ∧
    Inside alphanumeric root jobId ∧ Inside alphanumeric root jobId'

end LocalCheckpointStore

namespace LocalStateStore

variable (retainedSnapshots : ℕ) (root : Path)

def Unaffected (jobId taskId jobId' taskId' : String) : Prop :=
  ∀ disk : Disk Bytes, Rooted disk → ∀ op : Op,
    loadLatestCheckpoint root jobId' taskId' (call retainedSnapshots root jobId taskId op disk) =
      loadLatestCheckpoint root jobId' taskId' disk

def Inside (jobId taskId : String) : Prop :=
  ∀ disk : Disk Bytes, Rooted disk → ∀ (op : Op) (p : Path),
    (call retainedSnapshots root jobId taskId op disk).node p ≠ disk.node p → Allowed root p

def Isolated (jobId taskId jobId' taskId' : String) : Prop :=
  Unaffected retainedSnapshots root jobId taskId jobId' taskId' ∧
    Unaffected retainedSnapshots root jobId' taskId' jobId taskId ∧
      Inside retainedSnapshots root jobId taskId ∧ Inside retainedSnapshots root jobId' taskId'

end LocalStateStore

end Isolation

section JobPaths

variable {root p : Path} {name name' : String} {below : List String}

def Under (root : Path) (name : String) (p : Path) : Prop := root ++ [name] <+: p

def Above (root p : Path) : Prop := p <+: root

theorem not_under (hne : name ≠ name') (h : Under root name' p) : ¬Under root name p := fun h' ↦ by
  have hprefix := List.prefix_of_prefix_length_le h' h (by simp)
  have heq := hprefix.eq_of_length (by simp)
  exact hne (List.singleton_injective (List.append_cancel_left heq))

theorem not_above (h : Under root name p) : ¬Above root p := fun h' ↦ by
  have hlength := (h.trans h').length_le
  rw [List.length_append, List.length_singleton] at hlength
  omega

theorem allowed_of_under (hown : Own name) (h : Under root name p) : Allowed root p := by
  refine ⟨.inl ((List.prefix_append _ _).trans h), fun r hr hunder ↦ ?_⟩
  have hne : r ≠ name := fun heq ↦ hown.2.2 (heq ▸ hr)
  exact not_under hne h hunder

theorem allowed_of_above (h : Above root p) : Allowed root p :=
  ⟨.inr h, fun _ _ hunder ↦ not_above hunder h⟩

theorem Own.plain (hown : Own name) : name ≠ "." ∧ name ≠ ".." := ⟨hown.1, hown.2.1⟩

theorem plain_job (hroot : Plain root) (hown : Own name) : Plain (root ++ [name]) := by
  intro n hn
  rcases List.mem_append.mp hn with hn | hn
  · exact hroot n hn
  · rw [List.mem_singleton.mp hn]
    exact hown.plain

theorem job_path (root : Path) (name : String) (below : List String) :
    root ++ name :: below = root ++ [name] ++ below := by
  simp

theorem foldl_enter_job (hroot : Plain root) (hown : Own name) :
    (root ++ name :: below).foldl enter [] = below.foldl enter (root ++ [name]) := by
  rw [job_path, List.foldl_append, foldl_enter_plain (plain_job hroot hown), List.nil_append]

theorem under_job (hroot : Plain root) (hown : Own name) (hbelow : ".." ∉ below) :
    Under root name ((root ++ name :: below).foldl enter []) := by
  rw [foldl_enter_job hroot hown]
  exact prefix_foldl_enter hbelow

theorem visits_job (hroot : Plain root) (hown : Own name) (hbelow : ".." ∉ below) {q : Path}
    (hq : q ∈ visits [] (root ++ name :: below)) : Under root name q ∨ Above root q := by
  rw [visits_append, foldl_enter_plain hroot, List.nil_append, List.mem_append] at hq
  rcases hq with hq | hq
  · exact .inr (visits_plain hroot hq)
  · rw [visits, enter_plain hown.plain] at hq
    rcases List.mem_cons.mp hq with rfl | hq
    · exact .inl List.prefix_rfl
    · exact .inl (prefix_visits hbelow hq)

end JobPaths

section Frames

variable {root : Path} {name name' : String} {below : List String} {disk disk' : Disk B} {P Q : Path → Prop}

theorem writeAtomic_edits {path : List String} (hvisits : ∀ q ∈ visits [] path, P q ∨ Q q)
    (hP : ∀ name, P (path.foldl enter [] ++ [name])) (tmp final : String) (bytes : B) (disk : Disk B) :
    Edits P Q disk (writeAtomic path tmp final bytes disk).1 ∧
      ∀ dir ∈ (writeAtomic path tmp final bytes disk).2, dir = path.foldl enter [] := by
  have hcreate := createDirAll_edits [] path disk hvisits
  rw [writeAtomic]
  split
  · rename_i disk₁ heq
    rw [heq] at hcreate
    exact ⟨hcreate, fun dir hdir ↦ nomatch hdir⟩
  · rename_i disk₁ heq
    rw [heq] at hcreate
    split
    · exact ⟨hcreate, fun dir hdir ↦ nomatch hdir⟩
    · rename_i dir hdir
      obtain rfl := dirAt_eq_some hdir
      split
      · exact ⟨hcreate, fun dir hdir ↦ nomatch hdir⟩
      · rename_i disk₂ hwrite
        have hwritten := hcreate.trans (write_edits hwrite (hP tmp))
        split
        · exact ⟨hwritten, fun dir hdir ↦ nomatch hdir⟩
        · rename_i disk₃ hrename
          refine ⟨hwritten.trans (rename_edits hrename (hP tmp) (hP final)), fun dir hdir ↦ ?_⟩
          exact (Option.mem_some.mp hdir).symm

theorem node_under (h : Edits (Under root name) (Above root) disk disk') (hne : name ≠ name') {p : Path}
    (hp : Under root name' p) : disk'.node p = disk.node p :=
  h.node_eq (not_under hne hp) (not_above hp)

theorem names_under (h : Edits (Under root name) (Above root) disk disk') (hne : name ≠ name') {dir : Path}
    (hdir : Under root name' dir) : disk'.names dir = disk.names dir := by
  rw [names_eq_within hdir, names_eq_within hdir,
    h.within_eq (fun q hq hunder ↦ not_under hne hunder hq) fun q hq hunder ↦ not_above hunder hq]

theorem read_under (h : Edits (Under root name) (Above root) disk disk') (hne : name ≠ name') {dir : Path}
    (hdir : Under root name' dir) (file : String) : disk'.read (dir ++ [file]) = disk.read (dir ++ [file]) := by
  have hfile : Under root name' (dir ++ [file]) := List.IsPrefix.trans hdir (List.prefix_append _ _)
  exact read_of_node (node_under h hne hfile)

theorem dirAt_under (hroot : Plain root) (hown : Own name') (hbelow : ".." ∉ below) (hrooted : Rooted disk)
    (h : Edits (Under root name) (Above root) disk disk') (hne : name ≠ name') :
    disk'.dirAt [] (root ++ name' :: below) = disk.dirAt [] (root ++ name' :: below) := by
  have hplain := plain_job hroot hown
  have hsame : disk'.isDir (root ++ [name']) = disk.isDir (root ++ [name']) :=
    isDir_of_node (node_under h hne List.prefix_rfl)
  have hup : disk.isDir (root ++ [name']) → ∀ q, q <+: root ++ [name'] → disk.isDir q :=
    fun hdir q hq ↦ hrooted.isDir_of_prefix hdir hq
  have hup' : disk'.isDir (root ++ [name']) → ∀ q, q <+: root ++ [name'] → disk'.isDir q := by
    intro hdir q hq
    have hnot : ¬Under root name q := fun hunder ↦ not_under hne List.prefix_rfl (hunder.trans hq)
    exact h.isDir_mono hnot (hup (hsame ▸ hdir) q hq)
  rw [job_path, @dirAt_append B [] (root ++ [name']) disk hup hplain,
    @dirAt_append B [] (root ++ [name']) disk' hup' hplain, List.nil_append, hsame]
  refine if_congr Iff.rfl (dirAt_congr fun q hq ↦ isDir_of_node (node_under h hne ?_)) rfl
  rcases List.mem_cons.mp hq with rfl | hq
  · exact List.prefix_rfl
  · exact prefix_visits hbelow hq

end Frames

section Separate

variable {root : Path} {name name' : String}

namespace LocalCheckpointStore

variable {alphanumeric : Char → Bool} {jobId jobId' : String}

theorem call_edits (hroot : Plain root) (hown : Own (safe alphanumeric jobId)) (op : Op) (disk : Disk Json) :
    Edits (Under root (safe alphanumeric jobId)) (Above root) disk (call alphanumeric root jobId op disk) := by
  have hunder := under_job hroot hown (List.not_mem_nil (a := ".."))
  have hfile : ∀ name, Under root (safe alphanumeric jobId) ((jobDir alphanumeric root jobId).foldl enter [] ++ [name]) :=
    fun name ↦ List.IsPrefix.trans hunder (List.prefix_append _ _)
  cases op with
  | save pid envelope =>
    exact (writeAtomic_edits (fun q hq ↦ visits_job hroot hown List.not_mem_nil hq) hfile _ _ _ disk).1
  | prune keep =>
    rw [call, prune]
    split
    · rename_i dir hdir
      obtain rfl := dirAt_eq_some hdir
      refine removeFiles_edits _ (fun q hq ↦ ?_) disk
      obtain ⟨e, -, rfl⟩ := List.mem_map.mp hq
      exact hfile _
    · exact .refl disk
  | dropJob => exact removeDirAll_edits _ (fun q hq ↦ hunder.trans hq) disk

theorem loadFrom_under {disk disk' : Disk Json} (h : Edits (Under root name) (Above root) disk disk')
    (hne : name ≠ name') {dir : Path} (hdir : Under root name' dir) :
    loadFrom dir disk' = loadFrom dir disk := by
  simp only [loadFrom, names_under h hne hdir, read_under h hne hdir]

theorem unaffected_of_apart (hroot : Plain root)
    (h : Apart (safe alphanumeric jobId) (safe alphanumeric jobId')) :
    Unaffected alphanumeric root jobId jobId' := by
  obtain ⟨hown, hown', hne⟩ := h
  intro disk hrooted op
  have hedits := @call_edits root alphanumeric jobId hroot hown op disk
  have hall : loadAll alphanumeric root jobId' (call alphanumeric root jobId op disk) =
      loadAll alphanumeric root jobId' disk := by
    rw [loadAll, loadAll, jobDir, dirAt_under hroot hown' List.not_mem_nil hrooted hedits hne]
    split
    · rename_i dir hdir
      obtain rfl := dirAt_eq_some hdir
      exact loadFrom_under hedits hne (under_job hroot hown' List.not_mem_nil)
    · rfl
  refine ⟨hall, ?_⟩
  rw [loadLatest, loadLatest, hall]

theorem inside_of_own (hroot : Plain root) (hown : Own (safe alphanumeric jobId)) :
    Inside alphanumeric root jobId := by
  intro disk _ op p hchanged
  have hedits := @call_edits root alphanumeric jobId hroot hown op disk
  by_cases hunder : Under root (safe alphanumeric jobId) p
  · exact allowed_of_under hown hunder
  · by_cases habove : Above root p
    · exact allowed_of_above habove
    · exact absurd (hedits.node_eq hunder habove) hchanged

theorem isolated_of_apart (hroot : Plain root) (h : Apart (safe alphanumeric jobId) (safe alphanumeric jobId')) :
    Isolated alphanumeric root jobId jobId' :=
  ⟨unaffected_of_apart hroot h, unaffected_of_apart hroot ⟨h.2.1, h.1, h.2.2.symm⟩, inside_of_own hroot h.1,
    inside_of_own hroot h.2.1⟩

end LocalCheckpointStore

namespace LocalStateStore

variable {retainedSnapshots : ℕ} {jobId taskId jobId' taskId' : String}

theorem prune_edits {P Q : Path → Prop} {dir : Path} (hP : ∀ name, P (dir ++ [name])) (disk : Disk Bytes) :
    Edits P Q disk (prune retainedSnapshots dir disk) := by
  refine removeFiles_edits _ (fun q hq ↦ ?_) disk
  obtain ⟨e, -, rfl⟩ := List.mem_map.mp hq
  exact hP _

theorem call_edits (hroot : Plain root) (hown : Own (sanitize jobId)) (htask : sanitize taskId ≠ "..") (op : Op)
    (disk : Disk Bytes) :
    Edits (Under root (sanitize jobId)) (Above root) disk (call retainedSnapshots root jobId taskId op disk) := by
  have hbelow : ".." ∉ [sanitize taskId] := fun hmem ↦ htask (List.mem_singleton.mp hmem).symm
  have hfile : ∀ name, Under root (sanitize jobId) ((taskDir root jobId taskId).foldl enter [] ++ [name]) :=
    fun name ↦ List.IsPrefix.trans (under_job hroot hown hbelow) (List.prefix_append _ _)
  have hremove : Edits (Under root (sanitize jobId)) (Above root) disk (dropJob root jobId disk) :=
    removeDirAll_edits _ (fun q hq ↦ (under_job hroot hown List.not_mem_nil).trans hq) disk
  cases op with
  | saveCheckpoint checkpointId state =>
    obtain ⟨hwrite, hdir⟩ := writeAtomic_edits (fun q hq ↦ visits_job hroot hown hbelow hq) hfile
      (tmpName checkpointId) (fileName checkpointId) state disk
    rw [call, saveCheckpoint]
    split
    · rename_i disk' dir heq
      rw [taskDir] at heq
      rw [heq] at hwrite hdir
      obtain rfl := hdir dir rfl
      exact hwrite.trans (prune_edits hfile disk')
    · rename_i disk' heq
      rw [taskDir] at heq
      rwa [heq] at hwrite
  | dropJob => exact hremove
  | sweep =>
    rw [call, sweep]
    split_ifs
    · exact hremove
    · exact .refl disk

theorem loadFrom_under {disk disk' : Disk Bytes} (h : Edits (Under root name) (Above root) disk disk')
    (hne : name ≠ name') {dir : Path} (hdir : Under root name' dir) : loadFrom dir disk' = loadFrom dir disk := by
  simp only [loadFrom, snapshots, names_under h hne hdir, read_under h hne hdir]

theorem unaffected_of_apart (hroot : Plain root) (h : Apart (sanitize jobId) (sanitize jobId'))
    (htask : sanitize taskId ≠ "..") (htask' : sanitize taskId' ≠ "..") :
    Unaffected retainedSnapshots root jobId taskId jobId' taskId' := by
  obtain ⟨hown, hown', hne⟩ := h
  have hbelow : ".." ∉ [sanitize taskId'] := fun hmem ↦ htask' (List.mem_singleton.mp hmem).symm
  intro disk hrooted op
  have hedits := @call_edits root retainedSnapshots jobId taskId hroot hown htask op disk
  rw [loadLatestCheckpoint, loadLatestCheckpoint, taskDir, dirAt_under hroot hown' hbelow hrooted hedits hne]
  split
  · rename_i dir hdir
    obtain rfl := dirAt_eq_some hdir
    exact loadFrom_under hedits hne (under_job hroot hown' hbelow)
  · rfl

theorem inside_of_own (hroot : Plain root) (hown : Own (sanitize jobId)) (htask : sanitize taskId ≠ "..") :
    Inside retainedSnapshots root jobId taskId := by
  intro disk _ op p hchanged
  have hedits := @call_edits root retainedSnapshots jobId taskId hroot hown htask op disk
  by_cases hunder : Under root (sanitize jobId) p
  · exact allowed_of_under hown hunder
  · by_cases habove : Above root p
    · exact allowed_of_above habove
    · exact absurd (hedits.node_eq hunder habove) hchanged

theorem isolated_of_apart (hroot : Plain root) (h : Apart (sanitize jobId) (sanitize jobId'))
    (htask : sanitize taskId ≠ "..") (htask' : sanitize taskId' ≠ "..") :
    Isolated retainedSnapshots root jobId taskId jobId' taskId' :=
  ⟨unaffected_of_apart hroot h htask htask', unaffected_of_apart hroot ⟨h.2.1, h.1, h.2.2.symm⟩ htask' htask,
    inside_of_own hroot h.1 htask, inside_of_own hroot h.2.1 htask'⟩

end LocalStateStore

end Separate

section Shared

variable {root : Path} {name : String} {below : List String}

theorem not_allowed_reserved {r : String} (hr : r ∈ reservedDirs) : ¬Allowed root (root ++ [r]) :=
  fun h ↦ h.2 r hr List.prefix_rfl

def engineDisk (root : Path) : Disk B := AList.insert (root ++ ["logs"]) .dir (chain (root ++ ["raft"]))

theorem logs_not_raft : ¬root ++ ["logs"] <+: root ++ ["raft"] := fun h ↦ by
  have heq := h.eq_of_length (by simp)
  exact absurd (List.singleton_injective (List.append_cancel_left heq)) (by decide)

theorem rooted_engineDisk (root : Path) : Rooted (engineDisk root : Disk B) :=
  rooted_insert_chain (List.prefix_append _ _) logs_not_raft _

theorem isDir_engineDisk {q : Path} (hq : q <+: root ++ ["raft"] ∨ q = root ++ ["logs"]) :
    (engineDisk root : Disk B).isDir q := by
  rw [engineDisk, isDir, node_insert_chain]
  split_ifs with hlogs hraft
  · rfl
  · rfl
  · exact (hq.elim hraft hlogs).elim

theorem removes_under (hroot : Plain root) {r : String} (hr : r ∈ reservedDirs)
    (hdir : (engineDisk root : Disk B).isDir (enter root name)) (hunder : enter root name <+: root ++ [r])
    (hgoes : name ≠ "." ∧ name ≠ ".." ∨ root ++ [r] ≠ enter root name) :
    ∃ p, ((engineDisk root : Disk B).removeDirAll (root ++ [name])).node p ≠ (engineDisk root : Disk B).node p ∧
      ¬Allowed root p := by
  have hway : ∀ q ∈ [] :: visits [] (root ++ [name]), (engineDisk root : Disk B).isDir q := by
    intro q hq
    rcases List.mem_cons.mp hq with rfl | hq
    · exact isDir_engineDisk (.inl List.nil_prefix)
    · rw [visits_append, foldl_enter_plain hroot, List.nil_append, List.mem_append] at hq
      rcases hq with hq | hq
      · exact isDir_engineDisk (.inl ((visits_plain hroot hq).trans (List.prefix_append _ _)))
      · rwa [List.mem_singleton.mp hq]
  have hat := dirAt_of_isDir hway
  rw [List.foldl_append, foldl_enter_plain hroot, List.nil_append, List.foldl_cons, List.foldl_nil] at hat
  have hlast : (root ++ [name]).getLast? = some name := by simp
  have hthere : (engineDisk root : Disk B).isDir (root ++ [r]) := by
    rcases List.mem_cons.mp hr with rfl | hr
    · exact isDir_engineDisk (.inl List.prefix_rfl)
    · rw [List.mem_singleton.mp hr]
      exact isDir_engineDisk (.inr rfl)
  refine ⟨root ++ [r], ?_, not_allowed_reserved hr⟩
  rw [node_removeDirAll hat (by simp), hlast, if_pos ⟨hunder, by simpa using hgoes⟩]
  intro hnone
  have hsome := isDir_isSome hthere
  rw [← hnone] at hsome
  cases hsome

theorem removes_reserved (hroot : Plain root) (hname : ¬Own name) :
    ∃ p, ((engineDisk root : Disk B).removeDirAll (root ++ [name])).node p ≠ (engineDisk root : Disk B).node p ∧
      ¬Allowed root p := by
  have hraft : "raft" ∈ reservedDirs := List.mem_cons_self
  have hlogs : "logs" ∈ reservedDirs := List.mem_cons_of_mem _ List.mem_cons_self
  by_cases hdot : name = "."
  · have henter : enter root name = root := if_pos hdot
    refine removes_under hroot hraft ?_ ?_ (.inr ?_)
    · rw [henter]
      exact isDir_engineDisk (.inl (List.prefix_append _ _))
    · rw [henter]
      exact List.prefix_append _ _
    · simp [henter]
  by_cases hdots : name = ".."
  · have henter : enter root name = root.dropLast := by
      rw [enter, if_neg hdot, if_pos hdots]
    have hup : root.dropLast <+: root ++ ["raft"] := (List.dropLast_prefix root).trans (List.prefix_append _ _)
    refine removes_under hroot hraft ?_ ?_ (.inr fun heq ↦ ?_)
    · rw [henter]
      exact isDir_engineDisk (.inl hup)
    · rw [henter]
      exact hup
    · have hlength := congrArg List.length heq
      rw [henter, List.length_append, List.length_dropLast, List.length_singleton] at hlength
      omega
  have henter := @enter_plain root name ⟨hdot, hdots⟩
  have hreserved : name ∈ reservedDirs := by
    by_contra hnot
    exact hname ⟨hdot, hdots, hnot⟩
  refine removes_under hroot hreserved ?_ ?_ (.inl ⟨hdot, hdots⟩)
  · rw [henter]
    rcases List.mem_cons.mp hreserved with rfl | hmem
    · exact isDir_engineDisk (.inl List.prefix_rfl)
    · rw [List.mem_singleton.mp hmem]
      exact isDir_engineDisk (.inr rfl)
  · rw [henter]

def jobDisk (dir : Path) (file : String) (bytes : B) : Disk B := AList.insert (dir ++ [file]) (.file bytes) (chain dir)

variable {dir : Path} {file : String} {bytes : B}

theorem not_prefix_self (dir : Path) (file : String) : ¬dir ++ [file] <+: dir := fun h ↦ by
  have hlength := h.length_le
  rw [List.length_append, List.length_singleton] at hlength
  omega

theorem rooted_jobDisk : Rooted (jobDisk dir file bytes) :=
  rooted_insert_chain List.prefix_rfl (not_prefix_self dir file) _

theorem isDir_jobDisk {q : Path} (hq : q <+: dir) : (jobDisk dir file bytes).isDir q := by
  have hne : q ≠ dir ++ [file] := fun heq ↦ not_prefix_self dir file (heq ▸ hq)
  rw [jobDisk, isDir, node_insert_chain, if_neg hne, if_pos hq]

theorem read_jobDisk : (jobDisk dir file bytes).read (dir ++ [file]) = some bytes := by
  rw [jobDisk, Disk.read, node_insert_chain, if_pos rfl]

theorem dirAt_jobDisk (hroot : Plain root) (hown : Own name) (hone : below.length ≤ 1)
    (hdir : dir = (root ++ name :: below).foldl enter []) (hbelow : ".." ∉ below) :
    (jobDisk dir file bytes).dirAt [] (root ++ name :: below) = some dir := by
  have hway : ∀ q ∈ [] :: visits [] (root ++ name :: below), (jobDisk dir file bytes).isDir q := by
    intro q hq
    refine isDir_jobDisk ?_
    rcases List.mem_cons.mp hq with rfl | hq
    · exact List.nil_prefix
    · have hjob : root ++ [name] <+: dir := hdir ▸ under_job hroot hown hbelow
      rw [job_path, visits_append, foldl_enter_plain (plain_job hroot hown), List.nil_append, List.mem_append] at hq
      rcases hq with hq | hq
      · exact (visits_plain (plain_job hroot hown) hq).trans hjob
      · cases below with
        | nil => exact absurd hq List.not_mem_nil
        | cons task rest =>
          obtain rfl : rest = [] := List.length_eq_zero_iff.mp (by simpa using hone)
          rw [List.mem_singleton.mp hq, hdir, foldl_enter_job hroot hown]
          exact List.prefix_rfl
  rw [dirAt_of_isDir hway, hdir]

theorem dirAt_dropped (hroot : Plain root) (hown : Own name) {disk : Disk B} (hrooted : Rooted disk) :
    (disk.removeDirAll (root ++ [name])).dirAt [] (root ++ name :: below) = none := by
  have hplain := plain_job hroot hown
  have hgone : (disk.removeDirAll (root ++ [name])).isDir (root ++ [name]) = false := by
    have hsplit : disk.dirAt [] (root ++ [name]) = if disk.isDir (root ++ [name]) then some (root ++ [name]) else none := by
      have happend := @dirAt_append B [] (root ++ [name]) disk (fun h q hq ↦ hrooted.isDir_of_prefix h hq) hplain []
      rw [List.append_nil, List.nil_append, dirAt] at happend
      rw [happend]
      split_ifs <;> rfl
    by_cases hdir : disk.isDir (root ++ [name])
    · rw [if_pos hdir] at hsplit
      have hlast : (root ++ [name]).getLast? = some name := by simp
      have hnamed : some name ≠ some "." ∧ some name ≠ some ".." :=
        ⟨fun h ↦ hown.1 (Option.some.inj h), fun h ↦ hown.2.1 (Option.some.inj h)⟩
      rw [isDir, node_removeDirAll hsplit (by simp), hlast, if_pos ⟨List.prefix_rfl, .inl hnamed⟩]
    · rw [if_neg hdir] at hsplit
      rw [removeDirAll, hsplit]
      exact Bool.eq_false_iff.mpr hdir
  rw [job_path root name below, @dirAt_append B [] (root ++ [name]) _ (fun h ↦ absurd h (by simp [hgone])) hplain,
    List.nil_append, hgone]
  rfl

end Shared

section Exactness

variable {root : Path}

namespace LocalCheckpointStore

variable {alphanumeric : Char → Bool} {jobId jobId' : String}

theorem own_of_inside (hroot : Plain root) (h : Inside alphanumeric root jobId) : Own (safe alphanumeric jobId) := by
  by_contra hname
  obtain ⟨p, hchanged, hnot⟩ := @removes_reserved Json root _ hroot hname
  exact hnot (h _ (rooted_engineDisk root) .dropJob p hchanged)

theorem affected_of_same (hroot : Plain root) (hown : Own (safe alphanumeric jobId))
    (hsame : safe alphanumeric jobId = safe alphanumeric jobId') : ¬Unaffected alphanumeric root jobId jobId' := by
  intro h
  let envelope : CheckpointEnvelope := ⟨jobId', 1, 0, false, []⟩
  let dir := (jobDir alphanumeric root jobId).foldl enter []
  let disk := jobDisk dir (fileName 1) (checkpointEnvelope.encode envelope)
  have hdir : disk.dirAt [] (jobDir alphanumeric root jobId) = some dir :=
    dirAt_jobDisk hroot hown (by simp) rfl List.not_mem_nil
  have hne : dir ≠ [] := by
    intro hnil
    have hunder : Under root _ dir := under_job hroot hown List.not_mem_nil
    rw [hnil] at hunder
    exact absurd (List.prefix_nil.mp hunder) (by simp)
  have hnames : disk.names dir = [fileName 1] := names_insert_chain hne _ _
  have hid : idOf "checkpoint-" ".json" (fileName 1) = some 1 := by decide +kernel
  have hloaded : loadFrom dir disk = [envelope] := by
    have hread : disk.read (dir ++ [fileName 1]) = some (checkpointEnvelope.encode envelope) := read_jobDisk
    have hdecode : (disk.read (dir ++ [fileName 1])).bind checkpointEnvelope.decode = some envelope := by
      rw [hread, Option.bind_some, checkpointEnvelope.decode_encode]
    have hsorted : [1].insertionSort (· ≤ ·) = [1] := rfl
    rw [loadFrom, hnames, List.filterMap_cons_some hid, List.filterMap_nil, hsorted]
    simp only [List.filterMap_cons, hdecode, List.filterMap_nil]
  have hall := (h disk rooted_jobDisk .dropJob).1
  rw [call, dropJob, loadAll, loadAll, jobDir, jobDir, ← hsame, dirAt_dropped hroot hown rooted_jobDisk, ← jobDir, hdir] at hall
  dsimp only at hall
  rw [hloaded] at hall
  cases hall

theorem isolated_iff (hroot : Plain root) :
    Isolated alphanumeric root jobId jobId' ↔ Apart (safe alphanumeric jobId) (safe alphanumeric jobId') := by
  refine ⟨fun h ↦ ?_, isolated_of_apart hroot⟩
  obtain ⟨hunaffected, -, hinside, hinside'⟩ := h
  have hown := own_of_inside hroot hinside
  exact ⟨hown, own_of_inside hroot hinside', fun hsame ↦ affected_of_same hroot hown hsame hunaffected⟩

end LocalCheckpointStore

namespace LocalStateStore

variable {retainedSnapshots : ℕ} {jobId taskId jobId' taskId' : String}

theorem own_of_inside (hroot : Plain root) (h : Inside retainedSnapshots root jobId taskId) : Own (sanitize jobId) := by
  by_contra hname
  obtain ⟨p, hchanged, hnot⟩ := @removes_reserved Bytes root _ hroot hname
  exact hnot (h _ (rooted_engineDisk root) .dropJob p hchanged)

theorem affected_of_same (hroot : Plain root) (hown : Own (sanitize jobId))
    (hsame : sanitize jobId = sanitize jobId') (htask' : sanitize taskId' ≠ "..") :
    ¬Unaffected retainedSnapshots root jobId taskId jobId' taskId' := by
  intro h
  have hbelow : ".." ∉ [sanitize taskId'] := fun hmem ↦ htask' (List.mem_singleton.mp hmem).symm
  rw [hsame] at hown
  let dir := (taskDir root jobId' taskId').foldl enter []
  let disk : Disk Bytes := jobDisk dir (fileName 1) []
  have hdir : disk.dirAt [] (taskDir root jobId' taskId') = some dir :=
    dirAt_jobDisk hroot hown (by simp) rfl hbelow
  have hne : dir ≠ [] := by
    intro hnil
    have hunder : Under root _ dir := under_job hroot hown hbelow
    rw [hnil] at hunder
    exact absurd (List.prefix_nil.mp hunder) (by simp)
  have hnames : disk.names dir = [fileName 1] := names_insert_chain hne _ _
  have hid : idOf "cp-" ".state" (fileName 1) = some 1 := by decide +kernel
  have hloaded : loadFrom dir disk = .ok (some (1, [])) := by
    have hread : disk.read (dir ++ [fileName 1]) = some [] := read_jobDisk
    have hsnapshots : snapshots dir disk = [(1, fileName 1)] := by
      rw [snapshots, hnames, List.filterMap_cons, hid]
      rfl
    have hbest : best [(1, fileName 1)] = some (1, fileName 1) := rfl
    rw [loadFrom, hsnapshots, hbest]
    dsimp only
    rw [hread]
  have hload := h disk rooted_jobDisk .dropJob
  rw [call, dropJob, hsame, loadLatestCheckpoint, loadLatestCheckpoint, hdir, taskDir,
    dirAt_dropped hroot hown rooted_jobDisk] at hload
  dsimp only at hload
  rw [hloaded] at hload
  cases hload

theorem apart_of_isolated (hroot : Plain root) (htask' : sanitize taskId' ≠ "..")
    (h : Isolated retainedSnapshots root jobId taskId jobId' taskId') : Apart (sanitize jobId) (sanitize jobId') := by
  obtain ⟨hunaffected, -, hinside, hinside'⟩ := h
  have hown := own_of_inside hroot hinside
  exact ⟨hown, own_of_inside hroot hinside', fun hsame ↦ affected_of_same hroot hown hsame htask' hunaffected⟩

end LocalStateStore

end Exactness

/-- Both stores keep two jobs apart exactly when their directory names differ and
neither is a dot name or reserved, where no task has the name of two dots. -/
theorem stores_isolate_jobs (alphanumeric : Char → Bool) (root : Root) (retainedSnapshots : ℕ)
    (jobId taskId jobId' taskId' : Id) :
    (LocalCheckpointStore.Isolated alphanumeric root.1 jobId.1 jobId'.1 ↔
        Apart (LocalCheckpointStore.safe alphanumeric jobId.1) (LocalCheckpointStore.safe alphanumeric jobId'.1)) ∧
      (Apart (sanitize jobId.1) (sanitize jobId'.1) ∧ sanitize taskId.1 ≠ ".." ∧ sanitize taskId'.1 ≠ ".." →
        LocalStateStore.Isolated retainedSnapshots root.1 jobId.1 taskId.1 jobId'.1 taskId'.1) ∧
      (sanitize taskId'.1 ≠ ".." →
        LocalStateStore.Isolated retainedSnapshots root.1 jobId.1 taskId.1 jobId'.1 taskId'.1 →
          Apart (sanitize jobId.1) (sanitize jobId'.1)) :=
  ⟨LocalCheckpointStore.isolated_iff root.2,
    fun h ↦ LocalStateStore.isolated_of_apart root.2 h.1 h.2.1 h.2.2,
    fun htask' ↦ LocalStateStore.apart_of_isolated root.2 htask'⟩

/-- Two jobs of plain ids. -/
theorem plain_jobs_isolated : LocalStateStore.Isolated 3 ["state"] "job-1" "task-1" "job-2" "task-1" := by
  refine (stores_isolate_jobs Char.isAlphanum ⟨["state"], by decide +kernel⟩ 3 ⟨"job-1", by decide⟩ ⟨"task-1", by decide⟩
    ⟨"job-2", by decide⟩ ⟨"task-1", by decide⟩).2.1 ⟨⟨⟨?_, ?_, ?_⟩, ⟨?_, ?_, ?_⟩, ?_⟩, ?_, ?_⟩ <;> decide +kernel

/-- Two ids of one directory, and an id that is the name of the Raft store. -/
theorem jobs_share_directories :
    ¬LocalCheckpointStore.Isolated Char.isAlphanum ["state"] "a/b" "a_b" ∧
      ¬LocalStateStore.Inside 3 ["state"] "raft" "task-1" := by
  have hroot : Plain ["state"] := by decide +kernel
  refine ⟨fun h ↦ ?_, fun h ↦ ?_⟩
  · have hne := ((LocalCheckpointStore.isolated_iff hroot).mp h).2.2
    exact hne (by decide +kernel)
  · have hown := LocalStateStore.own_of_inside hroot h
    exact hown.2.2 (by decide +kernel)

end SeaTunnel.Server.StoreFiles
