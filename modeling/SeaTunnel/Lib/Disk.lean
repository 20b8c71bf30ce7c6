import Mathlib.Data.List.Induction
import Mathlib.Data.List.Infix
import SeaTunnel.Lib.Dict

namespace SeaTunnel.Lib

variable {B : Type}

/-- The names from the root directory down. -/
abbrev Path : Type := List String

inductive Node (B : Type)
  | dir
  | file (bytes : B)

/-- What is at the paths of a file system without links. -/
abbrev Disk (B : Type) := Dict Path (Node B)

namespace Disk

section Calls

def node (p : Path) (disk : Disk B) : Option (Node B) := if p = [] then some .dir else disk.lookup p

def isDir (p : Path) (disk : Disk B) : Bool :=
  match disk.node p with
  | some .dir => true
  | _ => false

def read (p : Path) (disk : Disk B) : Option B :=
  match disk.node p with
  | some (.file bytes) => some bytes
  | _ => none

def enter (here : Path) (name : String) : Path :=
  if name = "." then here else if name = ".." then here.dropLast else here ++ [name]

def dirAt (disk : Disk B) : Path → List String → Option Path
  | here, [] => if disk.isDir here then some here else none
  | here, name :: names => if disk.isDir here then dirAt disk (enter here name) names else none

def createDirAll : Path → List String → Disk B → Disk B × Bool
  | _, [], disk => (disk, true)
  | here, name :: names, disk =>
    match disk.node (enter here name) with
    | some .dir => createDirAll (enter here name) names disk
    | some (.file _) => (disk, false)
    | none => createDirAll (enter here name) names (disk.insert (enter here name) .dir)

def names (dir : Path) (disk : Disk B) : List String :=
  disk.entries.filterMap fun e ↦ if e.1.dropLast = dir then e.1.getLast? else none

def write (p : Path) (bytes : B) (disk : Disk B) : Option (Disk B) :=
  if disk.isDir p then none else some (disk.insert p (.file bytes))

def rename (source target : Path) (disk : Disk B) : Option (Disk B) :=
  match disk.read source with
  | some bytes => if disk.isDir target then none else some ((disk.erase source).insert target (.file bytes))
  | none => none

def removeFile (p : Path) (disk : Disk B) : Disk B :=
  match disk.read p with
  | some _ => disk.erase p
  | none => disk

def removeDirAll (names : List String) (disk : Disk B) : Disk B :=
  match disk.dirAt [] names with
  | some dir =>
    let named := names.getLast? ≠ some "." ∧ names.getLast? ≠ some ".."
    (disk.keys.filter fun p ↦ dir <+: p ∧ (named ∨ p ≠ dir)).foldl (fun disk p ↦ disk.erase p) disk
  | none => disk

end Calls

section Edits

inductive Edits (P Q : Path → Prop) : Disk B → Disk B → Prop
  | refl (disk : Disk B) : Edits P Q disk disk
  | insert {disk disk' : Disk B} {p : Path} (h : Edits P Q disk disk') (hp : P p) (n : Node B) :
      Edits P Q disk (disk'.insert p n)
  | erase {disk disk' : Disk B} {p : Path} (h : Edits P Q disk disk') (hp : P p) : Edits P Q disk (disk'.erase p)
  | mkdir {disk disk' : Disk B} {p : Path} (h : Edits P Q disk disk') (hp : Q p) :
      Edits P Q disk (disk'.insert p .dir)

variable {P Q : Path → Prop} {disk disk' disk'' : Disk B} {p : Path}

theorem Edits.trans (h : Edits P Q disk disk') (h' : Edits P Q disk' disk'') : Edits P Q disk disk'' := by
  induction h' with
  | refl => exact h
  | insert _ hp n ih => exact ih.insert hp n
  | erase _ hp ih => exact ih.erase hp
  | mkdir _ hp ih => exact ih.mkdir hp

theorem ne_of_not {q : Path} (hp : ¬P p) (hq : P q) : p ≠ q := by
  rintro rfl
  exact hp hq

theorem node_insert_ne {q : Path} (hne : p ≠ q) (n : Node B) (disk : Disk B) :
    node p (AList.insert q n disk) = disk.node p := by
  rw [node, node, AList.lookup_insert_ne hne]

theorem node_erase_ne {q : Path} (hne : p ≠ q) (disk : Disk B) : node p (AList.erase q disk) = disk.node p := by
  rw [node, node, AList.lookup_erase_ne hne]

theorem Edits.node_eq (h : Edits P Q disk disk') (hp : ¬P p) (hq : ¬Q p) : disk'.node p = disk.node p := by
  induction h with
  | refl => rfl
  | @insert disk' q h hp' n ih => rw [node_insert_ne (ne_of_not hp hp'), ih]
  | @erase disk' q h hp' ih => rw [node_erase_ne (ne_of_not hp hp'), ih]
  | @mkdir disk' q h hq' ih => rw [node_insert_ne (ne_of_not hq hq'), ih]

theorem isDir_of_node {q : Path} (h : disk'.node q = disk.node q) : disk'.isDir q = disk.isDir q := by
  rw [isDir, isDir, h]

theorem read_of_node {q : Path} (h : disk'.node q = disk.node q) : disk'.read q = disk.read q := by
  rw [read, read, h]

theorem Edits.isDir_mono (h : Edits P Q disk disk') (hp : ¬P p) (hdir : disk.isDir p) : disk'.isDir p := by
  induction h with
  | refl => exact hdir
  | @insert disk' q h hp' n ih => rwa [isDir_of_node (node_insert_ne (ne_of_not hp hp') n disk')]
  | @erase disk' q h hp' ih => rwa [isDir_of_node (node_erase_ne (ne_of_not hp hp') disk')]
  | @mkdir disk' q h hq ih =>
    by_cases heq : p = q
    · rw [isDir, node, heq, AList.lookup_insert]
      split_ifs <;> rfl
    · rwa [isDir_of_node (node_insert_ne heq .dir disk')]

def within (region : Path) (disk : Disk B) : List (Sigma fun _ : Path ↦ Node B) :=
  disk.entries.filter fun e ↦ region <+: e.1

theorem filter_kerase {l : List (Sigma fun _ : Path ↦ Node B)} {region q : Path} (hq : ¬region <+: q) :
    (l.kerase q).filter (fun e ↦ region <+: e.1) = l.filter fun e ↦ region <+: e.1 := by
  induction l with
  | nil => rfl
  | cons e l ih =>
    by_cases he : q = e.1
    · rw [List.kerase_cons_eq he, List.filter_cons_of_neg (by simpa [← he] using hq)]
    · rw [List.kerase_cons_ne he, List.filter_cons, List.filter_cons, ih]

theorem within_insert {region q : Path} (hq : ¬region <+: q) (n : Node B) (disk : Disk B) :
    within region (AList.insert q n disk) = within region disk := by
  rw [within, within, AList.entries_insert, List.filter_cons_of_neg (by simpa using hq), filter_kerase hq]

theorem Edits.within_eq {region : Path} (h : Edits P Q disk disk') (hP : ∀ q, P q → ¬region <+: q)
    (hQ : ∀ q, Q q → ¬region <+: q) : within region disk' = within region disk := by
  induction h with
  | refl => rfl
  | @insert disk' q h hq n ih => rw [within_insert (hP q hq), ih]
  | @erase disk' q h hq ih =>
    rw [← ih, within, within]
    exact filter_kerase (hP q hq)
  | @mkdir disk' q h hq ih => rw [within_insert (hQ q hq), ih]

theorem names_eq_within {region dir : Path} (h : region <+: dir) (disk : Disk B) :
    disk.names dir =
      (within region disk).filterMap fun e ↦ if e.1.dropLast = dir then e.1.getLast? else none := by
  rw [names, within, List.filterMap_filter]
  refine List.filterMap_congr fun e _ ↦ ?_
  by_cases hdir : e.1.dropLast = dir
  · have hregion : region <+: e.1 := h.trans (hdir ▸ List.dropLast_prefix e.1)
    rw [if_pos (decide_eq_true hregion)]
  · rw [if_neg hdir]
    split_ifs <;> rfl

def visits : Path → List String → List Path
  | _, [] => []
  | here, name :: names => enter here name :: visits (enter here name) names

theorem createDirAll_edits (here : Path) (names : List String) (disk : Disk B)
    (hvisits : ∀ q ∈ visits here names, P q ∨ Q q) : Edits P Q disk (createDirAll here names disk).1 := by
  induction names generalizing here disk with
  | nil => exact .refl disk
  | cons name names ih =>
    have hnext : ∀ q ∈ visits (enter here name) names, P q ∨ Q q := fun q hq ↦
      hvisits q (List.mem_cons_of_mem _ hq)
    rw [createDirAll]
    split
    · exact ih _ disk hnext
    · exact .refl disk
    · rcases hvisits _ List.mem_cons_self with hp | hq
      · exact .trans (.insert (.refl disk) hp .dir) (ih _ _ hnext)
      · exact .trans (.mkdir (.refl disk) hq) (ih _ _ hnext)

theorem dirAt_eq_some {here dir : Path} {names : List String} (h : disk.dirAt here names = some dir) :
    dir = names.foldl enter here := by
  induction names generalizing here with
  | nil =>
    rw [dirAt] at h
    split_ifs at h
    exact (Option.some.inj h).symm
  | cons name names ih =>
    rw [dirAt] at h
    split_ifs at h
    exact ih h

theorem write_edits {bytes : B} (h : disk.write p bytes = some disk') (hp : P p) : Edits P Q disk disk' := by
  rw [write] at h
  split_ifs at h
  rw [← Option.some.inj h]
  exact .insert (.refl disk) hp _

theorem rename_edits {source target : Path} (h : disk.rename source target = some disk') (hsource : P source)
    (htarget : P target) : Edits P Q disk disk' := by
  rw [rename] at h
  split at h
  · split_ifs at h
    rw [← Option.some.inj h]
    exact .insert (.erase (.refl disk) hsource) htarget _
  · cases h

theorem removeFile_edits (hp : P p) (disk : Disk B) : Edits P Q disk (disk.removeFile p) := by
  rw [removeFile]
  split
  · exact .erase (.refl disk) hp
  · exact .refl disk

theorem eraseAll_edits (ps : List Path) (hps : ∀ q ∈ ps, P q) (disk : Disk B) :
    Edits P Q disk (ps.foldl (fun disk q ↦ AList.erase q disk) disk) := by
  induction ps generalizing disk with
  | nil => exact .refl disk
  | cons q ps ih =>
    exact .trans (.erase (.refl disk) (hps q List.mem_cons_self))
      (ih (fun q hq ↦ hps q (List.mem_cons_of_mem _ hq)) _)

theorem removeFiles_edits (ps : List Path) (hps : ∀ q ∈ ps, P q) (disk : Disk B) :
    Edits P Q disk (ps.foldl (fun disk q ↦ disk.removeFile q) disk) := by
  induction ps generalizing disk with
  | nil => exact .refl disk
  | cons q ps ih =>
    exact .trans (removeFile_edits (hps q List.mem_cons_self) disk)
      (ih (fun q hq ↦ hps q (List.mem_cons_of_mem _ hq)) _)

theorem removeDirAll_edits (names : List String) (hP : ∀ q, names.foldl enter [] <+: q → P q) (disk : Disk B) :
    Edits P Q disk (disk.removeDirAll names) := by
  rw [removeDirAll]
  split
  · rename_i dir hdir
    refine eraseAll_edits _ (fun q hq ↦ hP q ?_) disk
    have hunder := of_decide_eq_true (List.mem_filter.mp hq).2
    rw [← dirAt_eq_some hdir]
    exact hunder.1
  · exact .refl disk

end Edits

section PlainNames

/-- Names that lead down. -/
def Plain (names : List String) : Prop := ∀ name ∈ names, name ≠ "." ∧ name ≠ ".."

instance : DecidablePred Plain := fun names ↦
  inferInstanceAs (Decidable (∀ name ∈ names, name ≠ "." ∧ name ≠ ".."))

variable {here : Path} {names : List String} {disk : Disk B}

theorem enter_plain {name : String} (h : name ≠ "." ∧ name ≠ "..") : enter here name = here ++ [name] := by
  rw [enter, if_neg h.1, if_neg h.2]

theorem foldl_enter_plain (h : Plain names) : names.foldl enter here = here ++ names := by
  induction names generalizing here with
  | nil => exact (List.append_nil here).symm
  | cons name names ih =>
    have htail : Plain names := fun name hname ↦ h name (List.mem_cons_of_mem _ hname)
    rw [List.foldl_cons, ih htail, enter_plain (h name List.mem_cons_self), List.append_assoc, List.singleton_append]

theorem visits_append (here : Path) (names names' : List String) :
    visits here (names ++ names') = visits here names ++ visits (names.foldl enter here) names' := by
  induction names generalizing here with
  | nil => rfl
  | cons name names ih => rw [List.cons_append, visits, visits, ih, List.cons_append, List.foldl_cons]

theorem visits_plain (h : Plain names) {q : Path} (hq : q ∈ visits here names) : q <+: here ++ names := by
  induction names generalizing here with
  | nil => exact absurd hq List.not_mem_nil
  | cons name names ih =>
    have htail : Plain names := fun name hname ↦ h name (List.mem_cons_of_mem _ hname)
    have hnext := @enter_plain here name (h name List.mem_cons_self)
    have hsplit : here ++ name :: names = here ++ [name] ++ names := by simp
    rw [visits, hnext] at hq
    rw [hsplit]
    rcases List.mem_cons.mp hq with rfl | hq
    · exact List.prefix_append _ _
    · exact ih htail hq

/-- Everything is in a directory. -/
def Rooted (disk : Disk B) : Prop := ∀ p, p ≠ [] → (disk.node p).isSome → disk.isDir p.dropLast

theorem isDir_isSome {p : Path} (h : disk.isDir p) : (disk.node p).isSome := by
  rw [isDir] at h
  split at h
  · rename_i hnode
    rw [hnode]
    rfl
  · cases h

theorem Rooted.isDir_of_append (hrooted : Rooted disk) (p names : Path) (h : disk.isDir (p ++ names)) :
    disk.isDir p := by
  induction names using List.reverseRecOn with
  | nil => rwa [List.append_nil] at h
  | append_singleton names name ih =>
    have hne : p ++ (names ++ [name]) ≠ [] := by simp
    have hparent := hrooted _ hne (isDir_isSome h)
    rw [← List.append_assoc, List.dropLast_concat] at hparent
    exact ih hparent

theorem dirAt_append (hup : disk.isDir (here ++ names) → ∀ q, q <+: here ++ names → disk.isDir q) (h : Plain names)
    (names' : List String) :
    disk.dirAt here (names ++ names') =
      if disk.isDir (here ++ names) then disk.dirAt (here ++ names) names' else none := by
  induction names generalizing here with
  | nil =>
    rw [List.nil_append, List.append_nil]
    split_ifs with hdir
    · rfl
    · cases names' <;> rw [dirAt, if_neg hdir]
  | cons name names ih =>
    have htail : Plain names := fun name hname ↦ h name (List.mem_cons_of_mem _ hname)
    have hsplit : here ++ name :: names = here ++ [name] ++ names := by simp
    rw [List.cons_append, dirAt, enter_plain (h name List.mem_cons_self), ih (hsplit ▸ hup) htail, hsplit]
    by_cases hhere : disk.isDir here
    · rw [if_pos hhere]
    · have hbelow : ¬disk.isDir (here ++ [name] ++ names) := fun hdir ↦
        hhere (hup (hsplit ▸ hdir) here (List.prefix_append _ _))
      rw [if_neg hhere, if_neg hbelow]

theorem Rooted.isDir_of_prefix (hrooted : Rooted disk) {p q : Path} (h : disk.isDir p) (hq : q <+: p) :
    disk.isDir q := by
  obtain ⟨names, rfl⟩ := hq
  exact hrooted.isDir_of_append q names h

theorem dirAt_congr {disk' : Disk B} (h : ∀ q ∈ here :: visits here names, disk'.isDir q = disk.isDir q) :
    disk'.dirAt here names = disk.dirAt here names := by
  induction names generalizing here with
  | nil => rw [dirAt, dirAt, h here List.mem_cons_self]
  | cons name names ih =>
    rw [dirAt, dirAt, h here List.mem_cons_self, ih fun q hq ↦ h q (List.mem_cons_of_mem _ hq)]

theorem dirAt_of_isDir (h : ∀ q ∈ here :: visits here names, disk.isDir q) :
    disk.dirAt here names = some (names.foldl enter here) := by
  induction names generalizing here with
  | nil => rw [dirAt, if_pos (h here List.mem_cons_self), List.foldl_nil]
  | cons name names ih =>
    rw [dirAt, if_pos (h here List.mem_cons_self), ih fun q hq ↦ h q (List.mem_cons_of_mem _ hq), List.foldl_cons]

theorem prefix_enter {name : String} (h : name ≠ "..") (here : Path) : here <+: enter here name := by
  rw [enter, if_neg h]
  split_ifs
  · exact List.prefix_rfl
  · exact List.prefix_append _ _

theorem prefix_visits (h : ".." ∉ names) {q : Path} (hq : q ∈ visits here names) : here <+: q := by
  induction names generalizing here with
  | nil => exact absurd hq List.not_mem_nil
  | cons name names ih =>
    have hname : name ≠ ".." := fun heq ↦ h (heq ▸ List.mem_cons_self)
    rcases List.mem_cons.mp hq with rfl | hq
    · exact prefix_enter hname here
    · exact (prefix_enter hname here).trans (ih (fun hmem ↦ h (List.mem_cons_of_mem _ hmem)) hq)

theorem prefix_foldl_enter (h : ".." ∉ names) : here <+: names.foldl enter here := by
  induction names generalizing here with
  | nil => exact List.prefix_rfl
  | cons name names ih =>
    have hname : name ≠ ".." := fun heq ↦ h (heq ▸ List.mem_cons_self)
    exact (prefix_enter hname here).trans (ih fun hmem ↦ h (List.mem_cons_of_mem _ hmem))

end PlainNames

section Removal

variable {disk : Disk B} {names : List String} {dir p : Path}

theorem node_removeDirAll (hdir : disk.dirAt [] names = some dir) (hp : p ≠ []) :
    (disk.removeDirAll names).node p =
      if dir <+: p ∧ (names.getLast? ≠ some "." ∧ names.getLast? ≠ some ".." ∨ p ≠ dir) then none
      else disk.node p := by
  rw [removeDirAll, hdir, node, if_neg hp, node, if_neg hp]
  dsimp only
  rw [Dict.lookup_eraseAll]
  by_cases hkey : p ∈ disk.keys
  · simp only [List.mem_filter, hkey, true_and, decide_eq_true_eq]
  · have hnone : disk.lookup p = none := AList.lookup_eq_none.mpr hkey
    rw [hnone, ite_self, ite_self]

end Removal

section Chains

def chain (path : Path) : Disk B := (path.inits.map fun p ↦ (⟨p, .dir⟩ : Sigma fun _ : Path ↦ Node B)).toAList

theorem dlookup_dirs (ps : List Path) (p : Path) :
    (ps.map fun p ↦ (⟨p, .dir⟩ : Sigma fun _ : Path ↦ Node B)).dlookup p = if p ∈ ps then some .dir else none := by
  induction ps with
  | nil => rfl
  | cons q ps ih =>
    by_cases heq : p = q
    · rw [List.map_cons, heq, List.dlookup_cons_eq, if_pos List.mem_cons_self]
    · rw [List.map_cons, List.dlookup_cons_ne _ _ heq, ih]
      simp [heq]

theorem lookup_chain (path p : Path) : (chain path : Disk B).lookup p = if p <+: path then some .dir else none := by
  rw [chain, AList.lookup_to_alist, dlookup_dirs]
  simp only [List.mem_inits]

theorem node_chain (path p : Path) : (chain path : Disk B).node p = if p <+: path then some .dir else none := by
  rw [node]
  split_ifs with hnil hp
  · rfl
  · exact absurd (hnil ▸ List.nil_prefix) hp
  · rw [lookup_chain, if_pos ‹_›]
  · rw [lookup_chain, if_neg ‹_›]

theorem node_insert_chain {path q : Path} {name : String} (n : Node B) (p : Path) :
    node p (AList.insert (q ++ [name]) n (chain path)) =
      if p = q ++ [name] then some n else if p <+: path then some .dir else none := by
  split_ifs with heq hp
  · rw [node, heq, if_neg (by simp), AList.lookup_insert]
  · rw [node_insert_ne heq, node_chain, if_pos hp]
  · rw [node_insert_ne heq, node_chain, if_neg hp]

theorem rooted_insert_chain {path q : Path} (hq : q <+: path) {name : String} (hname : ¬q ++ [name] <+: path)
    (n : Node B) : Rooted (AList.insert (q ++ [name]) n (chain path)) := by
  intro p hp hnode
  have hparent : p.dropLast <+: path := by
    rw [node_insert_chain] at hnode
    split_ifs at hnode with heq hchain
    · rwa [heq, List.dropLast_concat]
    · exact (List.dropLast_prefix p).trans hchain
    · cases hnode
  have hne : p.dropLast ≠ q ++ [name] := fun heq ↦ hname (heq ▸ hparent)
  rw [isDir, node_insert_chain, if_neg hne, if_pos hparent]

theorem names_insert_chain {path : Path} (hpath : path ≠ []) (name : String) (n : Node B) :
    names path (AList.insert (path ++ [name]) n (chain path)) = [name] := by
  have hrest : ((chain path : Disk B).entries.kerase (path ++ [name])).filterMap
      (fun e ↦ if e.1.dropLast = path then e.1.getLast? else none) = [] := by
    rw [List.filterMap_eq_nil_iff]
    intro e he
    refine if_neg fun hparent ↦ ?_
    have hlookup := AList.mem_lookup_iff.mpr ((List.kerase_sublist _ _).subset he)
    rw [lookup_chain] at hlookup
    split_ifs at hlookup with hprefix
    · have hlength := hprefix.length_le
      have hdrop := congrArg List.length hparent
      have hpos := List.length_pos_iff.mpr hpath
      rw [List.length_dropLast] at hdrop
      omega
    · cases hlookup
  rw [names, AList.entries_insert, List.filterMap_cons, hrest]
  simp

end Chains

end Disk

end SeaTunnel.Lib
