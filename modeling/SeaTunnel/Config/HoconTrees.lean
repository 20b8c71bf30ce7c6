import Mathlib.Data.List.Nodup
import Mathlib.Data.List.Pairwise
import SeaTunnel.Config.Hocon

namespace SeaTunnel.Config.Hocon

/-- The keys from the root down. -/
abbrev Path : Type := List (List Char)

section Paths

variable {map : JsonMap} {value v : Value} {seg : List Char} {p q : Path}

def Value.top : Value → Value
  | .object _ => .object []
  | v => v

def topAt (value : Value) (p : Path) : Option Value := (getDotPath value p).map Value.top

theorem lookup_filter_ne {key : List Char} (h : seg ≠ key) : (map.filter (·.1 ≠ key)).lookup seg = map.lookup seg := by
  induction map with
  | nil => rfl
  | cons entry map ih =>
    by_cases hentry : entry.1 = key
    · have hne : (seg == entry.1) = false := beq_eq_false_iff_ne.mpr (hentry ▸ h)
      rw [List.filter_cons_of_neg (by simpa using hentry), ih, List.lookup_cons, hne]
    · rw [List.filter_cons_of_pos (by simpa using hentry), List.lookup_cons, List.lookup_cons, ih]

theorem lookup_insert (key : List Char) :
    (insert map key value).lookup seg = if seg = key then some value else map.lookup seg := by
  rw [insert, List.lookup_cons]
  by_cases h : seg = key
  · rw [beq_iff_eq.mpr h, if_pos h]
  · rw [beq_eq_false_iff_ne.mpr h, if_neg h]
    exact lookup_filter_ne h

@[simp] theorem topAt_nil : topAt value [] = some value.top := rfl

theorem topAt_cons : topAt value (seg :: p) = (value.get seg).bind (topAt · p) := by
  rw [topAt, getDotPath, Option.map_bind]
  rfl

theorem topAt_object_cons : topAt (.object map) (seg :: p) = (map.lookup seg).bind (topAt · p) := topAt_cons

theorem topAt_scalar (h : value.top ≠ .object []) : topAt value (seg :: p) = none := by
  cases value with
  | object entries => exact absurd rfl h
  | _ => rfl

theorem topAt_append (h : topAt value (p ++ q) = some v) (hq : q ≠ []) : topAt value p = some (.object []) := by
  induction p generalizing value with
  | nil =>
    cases q with
    | nil => exact absurd rfl hq
    | cons seg q =>
      cases value with
      | object entries => rfl
      | _ => cases h
  | cons seg p ih =>
    rw [List.cons_append, topAt_cons] at h
    obtain ⟨sub, hsub, h⟩ := Option.bind_eq_some_iff.mp h
    rw [topAt_cons, hsub]
    exact ih h

theorem setDotPath_cons (map : JsonMap) (value : Value) (seg : List Char) (hp : p ≠ []) :
    (∃ v, topAt (.object map) [seg] = some v ∧ v ≠ .object [] ∧ setDotPath map (seg :: p) value = map) ∨
      ∃ sub, setDotPath map (seg :: p) value = insert map seg (.object (setDotPath sub p value)) ∧
        ∀ q, q ≠ [] → topAt (.object sub) q = topAt (.object map) (seg :: q) := by
  obtain ⟨seg', p, rfl⟩ := List.exists_cons_of_ne_nil hp
  cases hlookup : map.lookup seg with
  | none =>
    refine .inr ⟨[], by rw [setDotPath, hlookup]; exact hp, fun q hq ↦ ?_⟩
    obtain ⟨seg'', q, rfl⟩ := List.exists_cons_of_ne_nil hq
    rw [topAt_object_cons, topAt_object_cons, hlookup]
    rfl
  | some sub =>
    have htop : topAt (.object map) [seg] = some sub.top := by
      rw [topAt_object_cons, hlookup]
      rfl
    cases sub with
    | object sub =>
      refine .inr ⟨sub, by rw [setDotPath, hlookup]; exact hp, fun q hq ↦ ?_⟩
      rw [topAt_object_cons, hlookup]
      rfl
    | _ => exact .inl ⟨_, htop, nofun, by rw [setDotPath, hlookup]; exact hp⟩

theorem topAt_setDotPath (hp : p ≠ [])
    (hfree : ∀ r v, r <+: p → r ≠ p → topAt (.object map) r = some v → v = .object []) :
    topAt (.object (setDotPath map p value)) q =
      if p <+: q then topAt value (q.drop p.length) else if q <+: p then some (.object []) else topAt (.object map) q := by
  induction p generalizing map q with
  | nil => exact absurd rfl hp
  | cons seg p ih =>
    cases q with
    | nil => rw [if_neg (by simp), if_pos List.nil_prefix]; rfl
    | cons seg' q =>
      cases p with
      | nil =>
        rw [setDotPath, topAt_object_cons, lookup_insert, List.length_singleton, List.drop_one, List.tail_cons]
        by_cases hseg : seg' = seg
        · subst hseg
          rw [if_pos rfl, if_pos ⟨q, rfl⟩]
          rfl
        · rw [if_neg hseg, if_neg (by simp [Ne.symm hseg]), if_neg (by simp [hseg]), topAt_object_cons]
      | cons seg'' p =>
        obtain ⟨v, hv, hscalar, -⟩ | ⟨sub, hset, hsub⟩ :=
          setDotPath_cons map value seg (List.cons_ne_nil seg'' p)
        · exact absurd (hfree [seg] v ⟨seg'' :: p, rfl⟩ (by simp) hv) hscalar
        rw [hset, topAt_object_cons, lookup_insert]
        by_cases hseg : seg' = seg
        · subst hseg
          have hbelow := @ih sub q (List.cons_ne_nil seg'' p) fun r v hr hne hv ↦ by
            cases r with
            | nil => exact (Option.some.inj hv).symm
            | cons s r =>
              rw [hsub _ (List.cons_ne_nil s r)] at hv
              exact hfree (seg' :: s :: r) v (List.cons_prefix_cons.mpr ⟨rfl, hr⟩) (fun h ↦ hne (List.cons.inj h).2) hv
          rw [if_pos rfl, Option.bind_some, hbelow]
          simp only [List.cons_prefix_cons, true_and, List.length_cons, List.drop_succ_cons]
          cases q with
          | nil => simp
          | cons s q => rw [hsub _ (List.cons_ne_nil s q)]
        · rw [if_neg hseg, if_neg (by simp [Ne.symm hseg]), if_neg (by simp [hseg]), topAt_object_cons]

theorem topAt_setDotPath_ne_none (h : topAt (.object (setDotPath map p value)) q ≠ none) :
    topAt (.object map) q ≠ none ∨ q <+: p ∨ ∃ r, q = p ++ r ∧ topAt value r ≠ none := by
  induction p generalizing map q with
  | nil => exact .inl h
  | cons seg p ih =>
    cases q with
    | nil => exact .inr (.inl List.nil_prefix)
    | cons seg' q =>
      cases p with
      | nil =>
        rw [setDotPath, topAt_object_cons, lookup_insert] at h
        by_cases hseg : seg' = seg
        · rw [if_pos hseg] at h
          exact .inr (.inr ⟨q, by rw [hseg]; rfl, h⟩)
        · rw [if_neg hseg, ← topAt_object_cons] at h
          exact .inl h
      | cons seg'' p =>
        obtain ⟨v, -, -, hset⟩ | ⟨sub, hset, hsub⟩ :=
          setDotPath_cons map value seg (List.cons_ne_nil seg'' p)
        · rw [hset] at h
          exact .inl h
        · rw [hset, topAt_object_cons, lookup_insert] at h
          by_cases hseg : seg' = seg
          · subst hseg
            rw [if_pos rfl] at h
            obtain hold | habove | ⟨r, rfl, hbelow⟩ := ih h
            · cases q with
              | nil => exact .inr (.inl ⟨seg'' :: p, rfl⟩)
              | cons s q => exact .inl (hsub _ (List.cons_ne_nil s q) ▸ hold)
            · exact .inr (.inl (List.cons_prefix_cons.mpr ⟨rfl, habove⟩))
            · exact .inr (.inr ⟨r, rfl, hbelow⟩)
          · rw [if_neg hseg, ← topAt_object_cons] at h
            exact .inl h

end Paths

section Trees

inductive Leaf
  | string (s : List Char) (hs : '"' ∉ s)
  | int (v : ℤ) (hmin : -2 ^ 63 ≤ v) (hmax : v < 2 ^ 63)
  | bool (b : Bool)
  deriving DecidableEq

def Leaf.value : Leaf → Value
  | .string s _ => .string s
  | .int v _ _ => .number v
  | .bool b => .bool b

theorem Leaf.value_ne (l : Leaf) : l.value ≠ .object [] := by
  cases l <;> nofun

theorem Leaf.top_value (l : Leaf) : l.value.top = l.value := by
  cases l <;> rfl

def IsKey (key : List Char) : Prop := key.head?.any Char.isAlpha ∧ ∀ c ∈ key, c.isAlphanum ∨ c = '-'

instance (key : List Char) : Decidable (IsKey key) :=
  @instDecidableAnd _ _ _ (List.decidableBAll _ _)

structure Tree where
  leaves : List (Path × Leaf)
  keys : ∀ a ∈ leaves, a.1 ≠ [] ∧ ∀ key ∈ a.1, IsKey key
  apart : leaves.Pairwise fun a b ↦ ¬a.1 <+: b.1 ∧ ¬b.1 <+: a.1

/-- The path is the root, or above a leaf. -/
def Tree.IsNode (tree : Tree) (p : Path) : Prop := p = [] ∨ ∃ a ∈ tree.leaves, p <+: a.1 ∧ p ≠ a.1

/-- The value is the tree: the objects and the scalars are the same, at the same paths. -/
structure Value.Is (value : Value) (tree : Tree) : Prop where
  leaf : ∀ a ∈ tree.leaves, topAt value a.1 = some a.2.value
  node : ∀ p, tree.IsNode p → topAt value p = some (.object [])
  nothing : ∀ p, ¬tree.IsNode p → (∀ l, (p, l) ∉ tree.leaves) → topAt value p = none

end Trees

section Entries

inductive Entries
  | nil
  | leaf (path : Path) (value : Leaf) (rest : Entries)
  | block (path : Path) (inner rest : Entries)

namespace Entries

def under (path : Path) (leaves : List (Path × Leaf)) : List (Path × Leaf) := leaves.map fun a ↦ (path ++ a.1, a.2)

def leaves : Entries → List (Path × Leaf)
  | .nil => []
  | .leaf path value rest => (path, value) :: rest.leaves
  | .block path inner rest => under path inner.leaves ++ rest.leaves

def blocks : Entries → List Path
  | .nil => []
  | .leaf _ _ rest => rest.blocks
  | .block path inner rest => path :: inner.blocks.map (path ++ ·) ++ rest.blocks

/-- Each entry has a key. -/
def Keyed : Entries → Prop
  | .nil => True
  | .leaf path _ rest => path ≠ [] ∧ rest.Keyed
  | .block path inner rest => path ≠ [] ∧ inner.Keyed ∧ rest.Keyed

def apply : Entries → JsonMap → JsonMap
  | .nil, map => map
  | .leaf path value rest, map => rest.apply (setDotPath map path value.value)
  | .block path inner rest, map => rest.apply (setDotPath map path (.object (inner.apply [])))

/-- No block comes after a leaf that is below it, in the same block. -/
def Ordered : List (Path × Leaf) → Entries → Prop
  | _, .nil => True
  | seen, .leaf path value rest => Ordered ((path, value) :: seen) rest
  | seen, .block path inner rest =>
    (∀ a ∈ seen, ¬path <+: a.1) ∧ Ordered [] inner ∧ Ordered (under path inner.leaves ++ seen) rest

end Entries

end Entries

section Maps

variable {U : Path → Prop} {map : JsonMap} {value v : Value} {path q : Path} {l : Leaf}

structure Sound (U : Path → Prop) (value : Value) : Prop where
  scalar : ∀ q v, topAt value q = some v → v ≠ .object [] → U q
  object : ∀ q, topAt value q = some (.object []) → q = [] ∨ ∃ p, U p ∧ q <+: p ∧ q ≠ p

theorem topAt_empty (h : topAt (.object []) q = some v) : q = [] ∧ v = .object [] := by
  cases q with
  | nil => exact ⟨rfl, (Option.some.inj h).symm⟩
  | cons seg q => cases h

theorem topAt_leaf (h : topAt l.value q = some v) : q = [] ∧ v = l.value := by
  cases q with
  | nil => exact ⟨rfl, (Option.some.inj h).symm.trans l.top_value⟩
  | cons seg q =>
    rw [topAt_scalar (by rw [l.top_value]; exact l.value_ne)] at h
    cases h

theorem sound_empty : Sound U (.object []) :=
  ⟨fun _ _ h hscalar ↦ absurd (topAt_empty h).2 hscalar, fun _ h ↦ .inl (topAt_empty h).1⟩

theorem sound_leaf (h : U []) : Sound U l.value := by
  constructor
  · intro q v hv hscalar
    rw [(topAt_leaf hv).1]
    exact h
  · intro q hq
    exact absurd (topAt_leaf hq).2.symm l.value_ne

def PrefixFree (U : Path → Prop) : Prop := ∀ p q, U p → U q → p <+: q → p = q

theorem PrefixFree.under (hU : PrefixFree U) (path : Path) : PrefixFree fun r ↦ U (path ++ r) :=
  fun _ _ hp hq hle ↦ List.append_cancel_left (hU _ _ hp hq ((List.prefix_append_right_inj path).mpr hle))

variable (hU : PrefixFree U)

include hU

theorem Sound.free (h : Sound U (.object map)) (hpath : ∃ p, U p ∧ path <+: p) (r : Path) (v : Value) (hr : r <+: path)
    (hne : r ≠ path) (hv : topAt (.object map) r = some v) : v = .object [] := by
  by_contra hscalar
  obtain ⟨p, hp, hle⟩ := hpath
  have heq : r = p := hU r p (h.scalar r v hv hscalar) hp (hr.trans hle)
  exact hne (hr.eq_of_length_le (heq ▸ hle.length_le))

theorem Sound.setDotPath (h : Sound U (.object map)) (hne : path ≠ []) (hpath : ∃ p, U p ∧ path <+: p)
    (hvalue : Sound (fun r ↦ U (path ++ r)) value) (hobject : value.top = .object [] → ∃ p, U p ∧ path <+: p ∧ path ≠ p) :
    Sound U (.object (setDotPath map path value)) := by
  have hset : ∀ q, topAt (.object (Hocon.setDotPath map path value)) q =
      if path <+: q then topAt value (q.drop path.length) else if q <+: path then some (.object []) else topAt (.object map) q :=
    fun q ↦ topAt_setDotPath hne (h.free hU hpath)
  constructor
  · intro q v hv hscalar
    rw [hset] at hv
    split_ifs at hv with hbelow habove
    · obtain ⟨r, rfl⟩ := hbelow
      rw [List.drop_left] at hv
      exact hvalue.scalar r v hv hscalar
    · exact absurd (Option.some.inj hv).symm hscalar
    · exact h.scalar q v hv hscalar
  · intro q hq
    rw [hset] at hq
    split_ifs at hq with hbelow habove
    · obtain ⟨r, rfl⟩ := hbelow
      rw [List.drop_left] at hq
      obtain rfl | ⟨p, hp, hle, hne⟩ := hvalue.object r hq
      · rw [List.append_nil]
        exact .inr (hobject (Option.some.inj hq))
      · exact .inr ⟨path ++ p, hp, (List.prefix_append_right_inj path).mpr hle, fun h ↦ hne (List.append_cancel_left h)⟩
    · obtain ⟨p, hp, hle⟩ := hpath
      exact .inr ⟨p, hp, habove.trans hle, fun h ↦ hbelow (h ▸ hle)⟩
    · exact h.object q hq

theorem Sound.topAt_under (h : Sound U (.object map)) (hne : path ≠ []) (hpath : ∃ p, U p ∧ path <+: p) (r : Path) :
    topAt (.object (Hocon.setDotPath map path value)) (path ++ r) = topAt value r := by
  rw [topAt_setDotPath hne (h.free hU hpath), if_pos ⟨r, rfl⟩, List.drop_left]

theorem Sound.topAt_other (h : Sound U (.object map)) (hne : path ≠ []) (hpath : ∃ p, U p ∧ path <+: p) (hq : U q)
    (hbelow : ¬path <+: q) : topAt (.object (Hocon.setDotPath map path value)) q = topAt (.object map) q := by
  have habove : ¬q <+: path := by
    intro habove
    obtain ⟨p, hp, hle⟩ := hpath
    exact hbelow (hU q p hq hp (habove.trans hle) ▸ hle)
  rw [topAt_setDotPath hne (h.free hU hpath), if_neg hbelow, if_neg habove]

theorem Sound.topAt_origin (h : Sound U (.object map)) (hne : path ≠ []) (hpath : ∃ p, U p ∧ path <+: p)
    (hv : topAt (.object (Hocon.setDotPath map path value)) q = some v) (hscalar : v ≠ .object []) :
    (∃ r, q = path ++ r ∧ topAt value r = some v) ∨ topAt (.object map) q = some v := by
  rw [topAt_setDotPath hne (h.free hU hpath)] at hv
  split_ifs at hv with hbelow habove
  · obtain ⟨r, rfl⟩ := hbelow
    rw [List.drop_left] at hv
    exact .inl ⟨r, rfl, hv⟩
  · exact absurd (Option.some.inj hv).symm hscalar
  · exact .inr hv

end Maps

namespace Entries

variable {U : Path → Prop} {map : JsonMap} {v : Value} {path q : Path} {l : Leaf} {entries inner rest : Entries}
  {seen : List (Path × Leaf)}

structure Fits (U : Path → Prop) (entries : Entries) : Prop where
  keyed : entries.Keyed
  leaf : ∀ a ∈ entries.leaves, U a.1
  block : ∀ b ∈ entries.blocks, ∃ p, U p ∧ b <+: p ∧ b ≠ p

theorem Fits.of_leaf (h : Fits U (.leaf path l rest)) : path ≠ [] ∧ U path ∧ Fits U rest :=
  ⟨h.keyed.1, h.leaf (path, l) List.mem_cons_self,
    ⟨h.keyed.2, fun a ha ↦ h.leaf a (List.mem_cons_of_mem _ ha), fun b hb ↦ h.block b hb⟩⟩

theorem Fits.of_block (h : Fits U (.block path inner rest)) :
    path ≠ [] ∧ (∃ p, U p ∧ path <+: p ∧ path ≠ p) ∧ Fits (fun r ↦ U (path ++ r)) inner ∧ Fits U rest := by
  refine ⟨h.keyed.1, h.block path List.mem_cons_self, ⟨h.keyed.2.1, fun a ha ↦ ?_, fun b hb ↦ ?_⟩,
    ⟨h.keyed.2.2, fun a ha ↦ ?_, fun b hb ↦ ?_⟩⟩
  · exact h.leaf (path ++ a.1, a.2) (List.mem_append_left _ (List.mem_map_of_mem ha))
  · obtain ⟨p, hp, ⟨r, rfl⟩, hne⟩ :=
      h.block (path ++ b) (List.mem_append_left _ (List.mem_cons_of_mem _ (List.mem_map_of_mem hb)))
    rw [List.append_assoc] at hp hne
    exact ⟨b ++ r, hp, ⟨r, rfl⟩, fun h ↦ hne (congrArg (path ++ ·) h)⟩
  · exact h.leaf a (List.mem_append_right _ ha)
  · exact h.block b (List.mem_append_right _ hb)

theorem Fits.sound_leaf (hU : PrefixFree U) (h : Fits U (.leaf path l rest)) (hmap : Sound U (.object map)) :
    Sound U (.object (setDotPath map path l.value)) := by
  obtain ⟨hne, hleaf, -⟩ := h.of_leaf
  have hvalue : Sound (fun r ↦ U (path ++ r)) l.value := Hocon.sound_leaf (by rwa [List.append_nil])
  exact hmap.setDotPath hU hne ⟨path, hleaf, List.prefix_rfl⟩ hvalue fun htop ↦
    absurd (l.top_value.symm.trans htop) l.value_ne

theorem Fits.sound_block (hU : PrefixFree U) (h : Fits U (.block path inner rest)) (hmap : Sound U (.object map))
    (hinner : Sound (fun r ↦ U (path ++ r)) (.object (inner.apply []))) :
    Sound U (.object (setDotPath map path (.object (inner.apply [])))) := by
  obtain ⟨hne, ⟨p, hp, hle, hproper⟩, -, -⟩ := h.of_block
  exact hmap.setDotPath hU hne ⟨p, hp, hle⟩ hinner fun _ ↦ ⟨p, hp, hle, hproper⟩

theorem apply_sound (hU : PrefixFree U) (hfits : Fits U entries) (hmap : Sound U (.object map)) :
    Sound U (.object (entries.apply map)) := by
  induction entries generalizing U map with
  | nil => exact hmap
  | leaf path l rest ih =>
    obtain ⟨-, -, hrest⟩ := hfits.of_leaf
    exact ih hU hrest (hfits.sound_leaf hU hmap)
  | block path inner rest ihinner ihrest =>
    obtain ⟨-, -, hinner, hrest⟩ := hfits.of_block
    exact ihrest hU hrest (hfits.sound_block hU hmap (ihinner (hU.under path) hinner sound_empty))

theorem apply_origin (hU : PrefixFree U) (hfits : Fits U entries) (hmap : Sound U (.object map))
    (hv : topAt (.object (entries.apply map)) q = some v) (hscalar : v ≠ .object []) :
    (∃ l, (q, l) ∈ entries.leaves ∧ v = l.value) ∨ topAt (.object map) q = some v := by
  induction entries generalizing U map q with
  | nil => exact .inr hv
  | leaf path l rest ih =>
    obtain ⟨hne, hleaf, hrest⟩ := hfits.of_leaf
    obtain ⟨l', hl', rfl⟩ | hset := ih hU hrest (hfits.sound_leaf hU hmap) hv
    · exact .inl ⟨l', List.mem_cons_of_mem _ hl', rfl⟩
    obtain ⟨r, rfl, hr⟩ | hold := hmap.topAt_origin hU hne ⟨path, hleaf, List.prefix_rfl⟩ hset hscalar
    · obtain ⟨rfl, rfl⟩ := topAt_leaf hr
      rw [List.append_nil]
      exact .inl ⟨l, List.mem_cons_self, rfl⟩
    · exact .inr hold
  | block path inner rest ihinner ihrest =>
    obtain ⟨hne, ⟨p, hp, hle, -⟩, hinner, hrest⟩ := hfits.of_block
    have hsound := apply_sound (hU.under path) hinner sound_empty
    obtain ⟨l, hl, rfl⟩ | hset := ihrest hU hrest (hfits.sound_block hU hmap hsound) hv
    · exact .inl ⟨l, List.mem_append_right _ hl, rfl⟩
    obtain ⟨r, rfl, hr⟩ | hold := hmap.topAt_origin hU hne ⟨p, hp, hle⟩ hset hscalar
    · obtain ⟨l, hl, rfl⟩ | hempty := ihinner (hU.under path) hinner sound_empty hr
      · exact .inl ⟨l, List.mem_append_left _ (List.mem_map_of_mem (f := fun a ↦ (path ++ a.1, a.2)) hl), rfl⟩
      · exact absurd (topAt_empty hempty).2 hscalar
    · exact .inr hold

def Once (leaves : List (Path × Leaf)) : Prop := (leaves.map Prod.fst).Nodup

theorem Once.perm {as bs : List (Path × Leaf)} (h : Once as) (hperm : as.Perm bs) : Once bs :=
  (hperm.map Prod.fst).nodup_iff.mp h

theorem leaf_perm : (seen ++ (leaf path l rest).leaves).Perm ((path, l) :: seen ++ rest.leaves) := List.perm_middle

theorem block_perm :
    (seen ++ (block path inner rest).leaves).Perm (under path inner.leaves ++ seen ++ rest.leaves) := by
  rw [leaves, ← List.append_assoc]
  exact List.perm_append_comm.append_right rest.leaves

theorem Once.ne {as bs : List (Path × Leaf)} {a b : Path × Leaf} (h : Once (as ++ bs)) (ha : a ∈ as) (hb : b ∈ bs) :
    a.1 ≠ b.1 := by
  rw [Once, List.map_append] at h
  exact (List.nodup_append.mp h).2.2 a.1 (List.mem_map_of_mem ha) b.1 (List.mem_map_of_mem hb)

theorem Once.of_block (h : Once (seen ++ (block path inner rest).leaves)) : Once inner.leaves := by
  have hsub : (under path inner.leaves).Sublist (seen ++ (block path inner rest).leaves) :=
    (List.sublist_append_left _ _).trans (List.sublist_append_right _ _)
  have hunder : ((under path inner.leaves).map Prod.fst).Nodup := h.sublist (hsub.map Prod.fst)
  rw [under, List.map_map] at hunder
  refine List.Nodup.of_map (path ++ ·) ?_
  rw [List.map_map]
  exact hunder

theorem mem_under {a : Path × Leaf} {as : List (Path × Leaf)} (h : a ∈ under path as) : ∃ b ∈ as, a = (path ++ b.1, b.2) := by
  obtain ⟨b, hb, rfl⟩ := List.mem_map.mp h
  exact ⟨b, hb, rfl⟩

theorem apply_kept (hU : PrefixFree U) (hfits : Fits U entries) (hmap : Sound U (.object map))
    (hseen : ∀ a ∈ seen, U a.1 ∧ topAt (.object map) a.1 = some a.2.value) (honce : Once (seen ++ entries.leaves))
    (hordered : Ordered seen entries) :
    ∀ a ∈ seen ++ entries.leaves, topAt (.object (entries.apply map)) a.1 = some a.2.value := by
  induction entries generalizing U map seen with
  | nil =>
    intro a ha
    rw [leaves, List.append_nil] at ha
    exact (hseen a ha).2
  | leaf path l rest ih =>
    obtain ⟨hne, hleaf, hrest⟩ := hfits.of_leaf
    have honce := honce.perm leaf_perm
    have hnext : ∀ a ∈ (path, l) :: seen, U a.1 ∧ topAt (.object (setDotPath map path l.value)) a.1 = some a.2.value := by
      intro a ha
      obtain rfl | ha := List.mem_cons.mp ha
      · refine ⟨hleaf, ?_⟩
        have hset : topAt (.object (setDotPath map path l.value)) (path ++ []) = topAt l.value [] :=
          hmap.topAt_under hU hne ⟨path, hleaf, List.prefix_rfl⟩ []
        rw [List.append_nil, topAt_nil, l.top_value] at hset
        exact hset
      · obtain ⟨hin, hold⟩ := hseen a ha
        have hbelow : ¬path <+: a.1 := by
          intro hle
          have hmem : path ∈ (seen ++ rest.leaves).map Prod.fst :=
            hU path a.1 hleaf hin hle ▸ List.mem_map_of_mem (List.mem_append_left _ ha)
          exact (List.nodup_cons.mp honce).1 hmem
        exact ⟨hin, (hmap.topAt_other hU hne ⟨path, hleaf, List.prefix_rfl⟩ hin hbelow).trans hold⟩
    intro a ha
    exact ih hU hrest (hfits.sound_leaf hU hmap) hnext honce hordered a (leaf_perm.mem_iff.mp ha)
  | block path inner rest ihinner ihrest =>
    obtain ⟨hne, ⟨p, hp, hle, hproper⟩, hinner, hrest⟩ := hfits.of_block
    obtain ⟨hfirst, horderedInner, horderedRest⟩ := hordered
    have hsound := apply_sound (hU.under path) hinner sound_empty
    have hkept := ihinner (hU.under path) hinner sound_empty (List.forall_mem_nil _) honce.of_block horderedInner
    have hnext : ∀ a ∈ under path inner.leaves ++ seen,
        U a.1 ∧ topAt (.object (setDotPath map path (.object (inner.apply [])))) a.1 = some a.2.value := by
      intro a ha
      obtain ha | ha := List.mem_append.mp ha
      · obtain ⟨b, hb, rfl⟩ := mem_under ha
        exact ⟨hinner.leaf b hb, (hmap.topAt_under hU hne ⟨p, hp, hle⟩ b.1).trans (hkept b hb)⟩
      · obtain ⟨hin, hold⟩ := hseen a ha
        exact ⟨hin, (hmap.topAt_other hU hne ⟨p, hp, hle⟩ hin (hfirst a ha)).trans hold⟩
    intro a ha
    exact ihrest hU hrest (hfits.sound_block hU hmap hsound) hnext (honce.perm block_perm) horderedRest a
      (block_perm.mem_iff.mp ha)

theorem ordered_of_kept (hU : PrefixFree U) (hfits : Fits U entries) (hmap : Sound U (.object map))
    (honce : Once (seen ++ entries.leaves))
    (hkept : ∀ a ∈ seen ++ entries.leaves, topAt (.object (entries.apply map)) a.1 = some a.2.value) :
    Ordered seen entries := by
  induction entries generalizing U map seen with
  | nil => trivial
  | leaf path l rest ih =>
    obtain ⟨-, -, hrest⟩ := hfits.of_leaf
    exact ih hU hrest (hfits.sound_leaf hU hmap) (honce.perm leaf_perm) fun a ha ↦ hkept a (leaf_perm.mem_iff.mpr ha)
  | block path inner rest ihinner ihrest =>
    obtain ⟨hne, ⟨p, hp, hle, hproper⟩, hinner, hrest⟩ := hfits.of_block
    have hsound := apply_sound (hU.under path) hinner sound_empty
    have hblock := hfits.sound_block hU hmap hsound
    -- what is there in the end, and not written behind the block, is there behind the block
    have hafter : ∀ a ∈ under path inner.leaves ++ seen,
        topAt (.object (setDotPath map path (.object (inner.apply [])))) a.1 = some a.2.value := by
      intro a ha
      have hend := hkept a (block_perm.mem_iff.mpr (List.mem_append_left _ ha))
      obtain ⟨l, hl, -⟩ | hset := apply_origin hU hrest hblock hend a.2.value_ne
      · exact ((honce.perm block_perm).ne ha hl rfl).elim
      · exact hset
    have hinnerKept : ∀ b ∈ inner.leaves, topAt (.object (inner.apply [])) b.1 = some b.2.value := by
      intro b hb
      have hset := hafter (path ++ b.1, b.2) (List.mem_append_left _ (List.mem_map_of_mem hb))
      rwa [hmap.topAt_under hU hne ⟨p, hp, hle⟩ b.1] at hset
    refine ⟨?_, ihinner (hU.under path) hinner sound_empty honce.of_block hinnerKept,
      ihrest hU hrest hblock (honce.perm block_perm) fun a ha ↦ hkept a (block_perm.mem_iff.mpr ha)⟩
    rintro a ha ⟨r, hr⟩
    have hset := hafter a (List.mem_append_right _ ha)
    rw [← hr, hmap.topAt_under hU hne ⟨p, hp, hle⟩ r] at hset
    obtain ⟨l, hl, -⟩ | hempty := apply_origin (hU.under path) hinner sound_empty hset a.2.value_ne
    · have hmem : (path ++ r, l) ∈ under path inner.leaves := List.mem_map_of_mem (f := fun a ↦ (path ++ a.1, a.2)) hl
      exact honce.ne ha (List.mem_append_left _ hmem) hr.symm
    · exact a.2.value_ne (topAt_empty hempty).2

structure Writes (tree : Tree) (entries : Entries) : Prop where
  keyed : entries.Keyed
  leaves : entries.leaves.Perm tree.leaves
  blocks : ∀ b ∈ entries.blocks, ∃ a ∈ tree.leaves, b <+: a.1 ∧ b ≠ a.1

def IsLeaf (tree : Tree) (p : Path) : Prop := ∃ a ∈ tree.leaves, a.1 = p

theorem isLeaf_prefixFree (tree : Tree) : PrefixFree (IsLeaf tree) := by
  rintro _ _ ⟨a, ha, rfl⟩ ⟨b, hb, rfl⟩ hle
  by_contra hne
  have hsymm : Std.Symm fun a b : Path × Leaf ↦ ¬a.1 <+: b.1 ∧ ¬b.1 <+: a.1 := ⟨fun _ _ h ↦ h.symm⟩
  exact (tree.apart.forall ha hb fun h ↦ hne (congrArg Prod.fst h)).1 hle

theorem Writes.fits {tree : Tree} (h : Writes tree entries) : Fits (IsLeaf tree) entries := by
  refine ⟨h.keyed, fun a ha ↦ ⟨a, h.leaves.mem_iff.mp ha, rfl⟩, fun b hb ↦ ?_⟩
  obtain ⟨a, ha, hle, hne⟩ := h.blocks b hb
  exact ⟨a.1, ⟨a, ha, rfl⟩, hle, hne⟩

theorem Writes.once {tree : Tree} (h : Writes tree entries) : Once entries.leaves := by
  have htree : Once tree.leaves := by
    refine List.pairwise_map.mpr (tree.apart.imp ?_)
    intro a b hapart heq
    exact hapart.1 (heq ▸ List.prefix_rfl)
  exact htree.perm h.leaves.symm

theorem apply_is_iff {tree : Tree} (h : Writes tree entries) :
    (Value.object (entries.apply [])).Is tree ↔ Ordered [] entries := by
  have hsound := apply_sound (isLeaf_prefixFree tree) h.fits sound_empty
  constructor
  · intro his
    exact ordered_of_kept (isLeaf_prefixFree tree) h.fits sound_empty h.once fun a ha ↦
      his.leaf a (h.leaves.mem_iff.mp ha)
  · intro hordered
    have hkept := apply_kept (isLeaf_prefixFree tree) h.fits sound_empty (List.forall_mem_nil _) h.once hordered
    have hleaf : ∀ a ∈ tree.leaves, topAt (.object (entries.apply [])) a.1 = some a.2.value :=
      fun a ha ↦ hkept a (h.leaves.mem_iff.mpr ha)
    refine ⟨hleaf, ?_, ?_⟩
    · rintro p (rfl | ⟨a, ha, ⟨r, hr⟩, hne⟩)
      · rfl
      · have hbelow := hleaf a ha
        rw [← hr] at hbelow
        refine topAt_append hbelow ?_
        rintro rfl
        exact hne (hr ▸ (List.append_nil p).symm)
    · intro p hnode hnone
      by_contra hsome
      obtain ⟨v, hv⟩ := Option.ne_none_iff_exists'.mp hsome
      by_cases hscalar : v = .object []
      · subst hscalar
        obtain rfl | ⟨_, ⟨a, ha, rfl⟩, hle, hne⟩ := hsound.object p hv
        · exact hnode (.inl rfl)
        · exact hnode (.inr ⟨a, ha, hle, hne⟩)
      · obtain ⟨a, ha, rfl⟩ := hsound.scalar p v hv hscalar
        exact hnone a.2 ha

end Entries

end SeaTunnel.Config.Hocon
