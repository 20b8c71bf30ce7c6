import Mathlib.Data.List.AList

namespace SeaTunnel.Lib

variable {κ ν μ ξ : Type}

/-- The same elements up to `R`, in some order. -/
def PermRel (R : ν → μ → Prop) (vs : List ν) (ws : List μ) : Prop :=
  ∃ us, vs.Perm us ∧ List.Forall₂ R us ws

theorem PermRel.map {ν' μ' : Type} {R : ν → μ → Prop} {R' : ν' → μ' → Prop} {f : ν → ν'}
    {g : μ → μ'} {vs : List ν} {ws : List μ} (hrel : PermRel R vs ws)
    (hfg : ∀ v w, R v w → R' (f v) (g w)) : PermRel R' (vs.map f) (ws.map g) := by
  obtain ⟨us, hperm, hall⟩ := hrel
  exact ⟨us.map f, hperm.map f, List.rel_map (fun v w hR ↦ hfg v w hR) hall⟩

theorem PermRel.perm {vs ws : List ν} (hrel : PermRel Eq vs ws) : vs.Perm ws := by
  obtain ⟨us, hperm, hall⟩ := hrel
  rw [List.forall₂_eq_eq_eq] at hall
  exact hall ▸ hperm

/-- A map with unique keys, in some order of its entries. -/
abbrev Dict (κ ν : Type) := AList fun _ : κ ↦ ν

namespace Dict

def values (d : Dict κ ν) : List ν := d.entries.map Sigma.snd

def mapVals (f : κ → ν → μ) (d : Dict κ ν) : Dict κ μ where
  entries := d.entries.map fun e ↦ ⟨e.1, f e.1 e.2⟩
  nodupKeys := by
    have hkeys : (d.entries.map fun e ↦ (⟨e.1, f e.1 e.2⟩ : Sigma fun _ ↦ μ)).keys =
        d.entries.keys := by
      simp [List.keys, Function.comp_def]
    rw [List.NodupKeys, hkeys]
    exact d.nodupKeys

variable [DecidableEq κ]

def modify (k : κ) (f : ν → ν) (d : Dict κ ν) : Dict κ ν :=
  d.mapVals fun k' v ↦ if k' = k then f v else v

def push (k : κ) (v : ν) (d : Dict κ (List ν)) : Dict κ (List ν) :=
  d.insert k ((d.lookup k).getD [] ++ [v])

@[simp] theorem lookup_mapVals (f : κ → ν → μ) (d : Dict κ ν) (k : κ) :
    (d.mapVals f).lookup k = (d.lookup k).map (f k) :=
  List.dlookup_map₂ k

theorem lookup_modify (k k' : κ) (f : ν → ν) (d : Dict κ ν) :
    (d.modify k f).lookup k' = if k' = k then (d.lookup k').map f else d.lookup k' := by
  rw [modify, lookup_mapVals]
  split
  · rfl
  · exact Option.map_id'

theorem lookup_modify_eq_some {k k' : κ} {f : ν → ν} {d : Dict κ ν} {v : ν} :
    (d.modify k f).lookup k' = some v ↔ ∃ u, d.lookup k' = some u ∧ (if k' = k then f u else u) = v := by
  rw [lookup_modify]
  by_cases hk : k' = k
  · simp only [hk, if_true, Option.map_eq_some_iff]
  · simp only [if_neg hk, exists_eq_right]

/-- An entry is set, or removed. -/
def assign (k : κ) (v : Option ν) (d : Dict κ ν) : Dict κ ν :=
  match v with
  | some v => AList.insert k v d
  | none => AList.erase k d

theorem lookup_assign (k k' : κ) (v : Option ν) (d : Dict κ ν) :
    (d.assign k v).lookup k' = if k' = k then v else d.lookup k' := by
  split
  · next heq =>
    subst heq
    cases v with
    | none => exact AList.lookup_erase k' d
    | some v => exact AList.lookup_insert d
  · next hne =>
    cases v with
    | none => exact AList.lookup_erase_ne hne
    | some v => exact AList.lookup_insert_ne hne

theorem mem_values {d : Dict κ ν} {v : ν} : v ∈ d.values ↔ ∃ k, d.lookup k = some v := by
  constructor
  · intro hv
    obtain ⟨e, he, rfl⟩ := List.mem_map.mp hv
    exact ⟨e.1, AList.mem_lookup_iff.mpr he⟩
  · rintro ⟨k, hk⟩
    exact List.mem_map.mpr ⟨⟨k, v⟩, AList.mem_lookup_iff.mp hk, rfl⟩

theorem values_eq_filterMap (d : Dict κ ν) : d.values = d.keys.filterMap d.lookup := by
  have hself : ∀ e ∈ d.entries, d.lookup e.1 = some e.2 := fun _ he ↦ AList.mem_lookup_iff.mpr he
  rw [values, AList.keys, List.keys, List.filterMap_map, ← List.filterMap_eq_map]
  exact List.filterMap_congr fun e he ↦ (hself e he).symm

theorem flatMap_entries {d : Dict κ ν} {g : κ → ν → List μ} {key : κ}
    (hothers : ∀ k v, d.lookup k = some v → k ≠ key → g k v = []) :
    d.entries.flatMap (fun e ↦ g e.1 e.2) = ((d.lookup key).map (g key)).getD [] := by
  have hnone (es : List (Sigma fun _ : κ ↦ ν)) (hes : ∀ e ∈ es, e ∈ d.entries ∧ e.1 ≠ key) :
      es.flatMap (fun e ↦ g e.1 e.2) = [] := by
    rw [List.flatMap_eq_nil_iff]
    exact fun e he ↦ hothers e.1 e.2 (AList.mem_lookup_iff.mpr (hes e he).1) (hes e he).2
  cases hkey : d.lookup key with
  | none =>
    refine hnone d.entries fun e he ↦ ⟨he, fun heq ↦ ?_⟩
    have hself : d.lookup e.1 = some e.2 := AList.mem_lookup_iff.mpr he
    rw [heq, hkey] at hself
    cases hself
  | some v =>
    obtain ⟨before, after, hentries⟩ := List.append_of_mem (AList.mem_lookup_iff.mp hkey)
    -- the key is in no other entry
    have hnodup := d.nodupKeys
    rw [hentries, List.NodupKeys, List.keys_append, List.keys_cons, List.nodup_middle, List.nodup_cons,
      List.mem_append, not_or] at hnodup
    have hbefore : before.flatMap (fun e ↦ g e.1 e.2) = [] := by
      refine hnone before fun e he ↦ ⟨hentries ▸ List.mem_append_left _ he, fun heq ↦ ?_⟩
      have hmem : e.1 ∈ before.keys := List.mem_map_of_mem he
      rw [heq] at hmem
      exact hnodup.1.1 hmem
    have hafter : after.flatMap (fun e ↦ g e.1 e.2) = [] := by
      refine hnone after fun e he ↦ ⟨hentries ▸ List.mem_append_right _ (List.mem_cons_of_mem _ he), fun heq ↦ ?_⟩
      have hmem : e.1 ∈ after.keys := List.mem_map_of_mem he
      rw [heq] at hmem
      exact hnodup.1.2 hmem
    rw [hentries, List.flatMap_append, List.flatMap_cons, hbefore, hafter, List.append_nil, List.nil_append,
      Option.map_some, Option.getD_some]

theorem mem_push {d : Dict κ (List ν)} {k : κ} {v w : ν} :
    w ∈ ((d.push k v).lookup k).getD [] ↔ w ∈ (d.lookup k).getD [] ∨ w = v := by
  rw [push, AList.lookup_insert, Option.getD_some, List.mem_append, List.mem_singleton]

theorem lookup_eraseAll (keys : List κ) (d : Dict κ ν) (k : κ) :
    (keys.foldl (fun d key ↦ AList.erase key d) d).lookup k = if k ∈ keys then none else d.lookup k := by
  induction keys generalizing d with
  | nil => simp
  | cons key keys ih =>
    rw [List.foldl_cons, ih]
    rcases eq_or_ne k key with rfl | hne
    · simp
    · simp [hne, AList.lookup_erase_ne hne]

section MapVals

variable {f : κ → ν → μ} {d : Dict κ ν}

omit [DecidableEq κ] in
theorem mapVals_mapVals (g : κ → μ → ξ) :
    (d.mapVals f).mapVals g = d.mapVals fun k v ↦ g k (f k v) := by
  apply AList.ext
  simp [mapVals]

theorem mapVals_congr {g : κ → ν → μ} (hfg : ∀ k v, d.lookup k = some v → f k v = g k v) :
    d.mapVals f = d.mapVals g := by
  apply AList.ext
  refine List.map_congr_left fun e he ↦ ?_
  rw [hfg e.1 e.2 (AList.mem_lookup_iff.mpr he)]

theorem kerase_mapVals (k : κ) (es : List (Sigma fun _ : κ ↦ ν)) :
    (es.map fun e ↦ (⟨e.1, f e.1 e.2⟩ : Sigma fun _ : κ ↦ μ)).kerase k =
      (es.kerase k).map fun e ↦ ⟨e.1, f e.1 e.2⟩ := by
  rw [List.kerase, List.eraseP_map]
  rfl

theorem mapVals_insert (k : κ) (v : ν) :
    mapVals f (AList.insert k v d) = AList.insert k (f k v) (d.mapVals f) := by
  apply AList.ext
  rw [AList.entries_insert]
  simp [mapVals, AList.entries_insert, kerase_mapVals]

theorem mapVals_erase (k : κ) : mapVals f (AList.erase k d) = AList.erase k (d.mapVals f) := by
  apply AList.ext
  exact (kerase_mapVals k d.entries).symm

omit [DecidableEq κ] in
theorem values_mapVals (g : ν → μ) : (d.mapVals fun _ ↦ g).values = d.values.map g := by
  simp [values, mapVals]

end MapVals

/-- The same keys, with related values. -/
def Rel (R : ν → μ → Prop) (d : Dict κ ν) (e : Dict κ μ) : Prop :=
  ∀ k, Option.Rel R (d.lookup k) (e.lookup k)

section Rel

variable {R : ν → μ → Prop} {d : Dict κ ν} {e : Dict κ μ}

theorem Rel.of_some (hrel : d.Rel R e) {k : κ} {v : ν} (hv : d.lookup k = some v) :
    ∃ w, e.lookup k = some w ∧ R v w := by
  have hk := hrel k
  rw [hv] at hk
  cases hk' : e.lookup k with
  | none => rw [hk'] at hk; cases hk
  | some w => rw [hk'] at hk; cases hk with | some hR => exact ⟨w, rfl, hR⟩

theorem Rel.of_none (hrel : d.Rel R e) {k : κ} (hv : d.lookup k = none) : e.lookup k = none := by
  have hk := hrel k
  rw [hv] at hk
  cases hk' : e.lookup k with
  | none => rfl
  | some w => rw [hk'] at hk; cases hk

theorem Rel.lookup_eq {d e : Dict κ ν} (hrel : d.Rel Eq e) (k : κ) : d.lookup k = e.lookup k := by
  cases hv : d.lookup k with
  | none => exact (hrel.of_none hv).symm
  | some v =>
    obtain ⟨w, hw, rfl⟩ := hrel.of_some hv
    exact hw.symm

theorem Rel.isSome (hrel : d.Rel R e) (k : κ) : (d.lookup k).isSome = (e.lookup k).isSome := by
  cases hv : d.lookup k with
  | none => rw [hrel.of_none hv]; rfl
  | some v =>
    obtain ⟨w, hw, -⟩ := hrel.of_some hv
    rw [hw]
    rfl

theorem Rel.refl {R : ν → ν → Prop} (hR : ∀ v, R v v) (d : Dict κ ν) : d.Rel R d := by
  intro k
  cases d.lookup k with
  | none => exact .none
  | some v => exact .some (hR v)

theorem Rel.symm {R' : μ → ν → Prop} (hrel : d.Rel R e) (hR : ∀ v w, R v w → R' w v) :
    e.Rel R' d := by
  intro k
  cases hv : d.lookup k with
  | none => rw [hrel.of_none hv]; exact .none
  | some v =>
    obtain ⟨w, hw, hvw⟩ := hrel.of_some hv
    rw [hw]
    exact .some (hR v w hvw)

theorem Rel.empty : (∅ : Dict κ ν).Rel R (∅ : Dict κ μ) := fun _ ↦ .none

theorem Rel.insert (hrel : d.Rel R e) (k : κ) {v : ν} {w : μ} (hR : R v w) :
    Rel R (AList.insert k v d) (AList.insert k w e) := by
  intro k'
  rcases eq_or_ne k' k with rfl | hne
  · rw [AList.lookup_insert, AList.lookup_insert]
    exact .some hR
  · simpa [AList.lookup_insert_ne hne] using hrel k'

theorem Rel.erase (hrel : d.Rel R e) (k : κ) : Rel R (AList.erase k d) (AList.erase k e) := by
  intro k'
  rcases eq_or_ne k' k with rfl | hne
  · simp
  · simpa [AList.lookup_erase_ne hne] using hrel k'

theorem Rel.mapVals {ν' μ' : Type} {R' : ν' → μ' → Prop} {f : κ → ν → ν'} {g : κ → μ → μ'}
    (hrel : d.Rel R e) (hfg : ∀ k v w, d.lookup k = some v → R v w → R' (f k v) (g k w)) :
    Rel R' (d.mapVals f) (e.mapVals g) := by
  intro k
  rw [lookup_mapVals, lookup_mapVals]
  cases hv : d.lookup k with
  | none => rw [hrel.of_none hv]; exact .none
  | some v =>
    obtain ⟨w, hw, hR⟩ := hrel.of_some hv
    rw [hw]
    exact .some (hfg k v w hv hR)

theorem Rel.modify {f : ν → ν} {g : μ → μ} (hrel : d.Rel R e) (k : κ)
    (hfg : ∀ v w, d.lookup k = some v → R v w → R (f v) (g w)) :
    Rel R (d.modify k f) (e.modify k g) := by
  refine hrel.mapVals fun k' v w hv hR ↦ ?_
  split
  · next hk => exact hfg v w (hk ▸ hv) hR
  · exact hR

theorem Rel.keys_perm (hrel : d.Rel R e) : d.keys.Perm e.keys := by
  refine (List.perm_ext_iff_of_nodup d.keys_nodup e.keys_nodup).mpr fun k ↦ ?_
  rw [← AList.mem_keys, ← AList.mem_keys, ← AList.lookup_isSome, ← AList.lookup_isSome,
    hrel.isSome k]

theorem Rel.values (hrel : d.Rel R e) : PermRel R d.values e.values := by
  refine ⟨e.keys.filterMap d.lookup, ?_, ?_⟩
  · rw [values_eq_filterMap]
    exact hrel.keys_perm.filterMap _
  · rw [AList.keys, List.keys, List.filterMap_map, Dict.values]
    have hall : ∀ x ∈ e.entries, ∃ v, d.lookup x.1 = some v ∧ R v x.2 := by
      intro x hx
      have hlookup : e.lookup x.1 = some x.2 := AList.mem_lookup_iff.mpr hx
      cases hv : d.lookup x.1 with
      | none => rw [hrel.of_none hv] at hlookup; cases hlookup
      | some v =>
        obtain ⟨w, hw, hR⟩ := hrel.of_some hv
        obtain rfl := Option.some.inj (hw.symm.trans hlookup)
        exact ⟨v, rfl, hR⟩
    generalize e.entries = es at hall
    induction es with
    | nil => exact .nil
    | cons x xs ih =>
      obtain ⟨v, hv, hR⟩ := hall x (by simp)
      rw [List.filterMap_cons_some (by simpa using hv), List.map_cons]
      exact .cons hR (ih fun y hy ↦ hall y (by simp [hy]))

theorem Rel.length_values (hrel : d.Rel R e) : d.values.length = e.values.length := by
  obtain ⟨vs, hperm, hall⟩ := hrel.values
  rw [hperm.length_eq, hall.length_eq]

theorem Rel.any_values {p : ν → Bool} {q : μ → Bool} (hrel : d.Rel R e)
    (hpq : ∀ v w, R v w → p v = q w) : d.values.any p = e.values.any q := by
  obtain ⟨vs, hperm, hall⟩ := hrel.values
  rw [hperm.any_eq]
  generalize e.values = ws at hall ⊢
  clear hperm
  induction hall with
  | nil => rfl
  | cons hR _ ih => rw [List.any_cons, List.any_cons, hpq _ _ hR, ih]

theorem Rel.all_values {p : ν → Bool} {q : μ → Bool} (hrel : d.Rel R e)
    (hpq : ∀ v w, R v w → p v = q w) : d.values.all p = e.values.all q := by
  rw [List.all_eq_not_any_not, List.all_eq_not_any_not]
  congr 1
  exact hrel.any_values fun v w hR ↦ by rw [hpq v w hR]

end Rel

def All (P : κ → ν → Prop) (d : Dict κ ν) : Prop := ∀ k v, d.lookup k = some v → P k v

section All

variable {P : κ → ν → Prop} {d : Dict κ ν}

theorem All.empty : All P (∅ : Dict κ ν) := by
  intro k v hv
  simp at hv

theorem All.insert (hall : d.All P) {k : κ} {v : ν} (hv : P k v) : All P (AList.insert k v d) := by
  intro k' w hw
  rcases eq_or_ne k' k with rfl | hne
  · rw [AList.lookup_insert] at hw
    exact Option.some.inj hw ▸ hv
  · rw [AList.lookup_insert_ne hne] at hw
    exact hall k' w hw

theorem All.erase (hall : d.All P) (k : κ) : All P (AList.erase k d) := by
  intro k' w hw
  rcases eq_or_ne k' k with rfl | hne
  · simp at hw
  · rw [AList.lookup_erase_ne hne] at hw
    exact hall k' w hw

theorem All.mapVals {Q : κ → μ → Prop} {f : κ → ν → μ} (hall : d.All P)
    (hf : ∀ k v, d.lookup k = some v → P k v → Q k (f k v)) : All Q (d.mapVals f) := by
  intro k w hw
  rw [lookup_mapVals, Option.map_eq_some_iff] at hw
  obtain ⟨v, hv, rfl⟩ := hw
  exact hf k v hv (hall k v hv)

theorem All.modify {f : ν → ν} (hall : d.All P) (k : κ)
    (hf : ∀ v, d.lookup k = some v → P k v → P k (f v)) : All P (d.modify k f) := by
  refine hall.mapVals fun k' v hv hP ↦ ?_
  split
  · next hk => subst hk; exact hf v hv hP
  · exact hP

end All

theorem lookup_foldl_values {key : μ → κ} {g : ν → μ} {f : Dict κ ξ → μ → Dict κ ξ} {r : μ → ξ}
    (hf : ∀ acc v, acc.lookup (key v) = none → f acc v = AList.insert (key v) (r v) acc)
    (d : Dict κ ν) (hkey : d.All fun k v ↦ key (g v) = k) (k : κ) :
    ((d.values.map g).foldl f ∅).lookup k = (d.lookup k).map fun v ↦ r (g v) := by
  suffices hgen : ∀ (es : List (Sigma fun _ : κ ↦ ν)) (acc : Dict κ ξ), es.NodupKeys →
      (∀ e ∈ es, key (g e.2) = e.1 ∧ acc.lookup e.1 = none) →
      (((es.map Sigma.snd).map g).foldl f acc).lookup k =
        ((es.dlookup k).map fun v ↦ r (g v)).or (acc.lookup k) by
    have hself := hgen d.entries ∅ d.nodupKeys fun e he ↦
      ⟨hkey e.1 e.2 (AList.mem_lookup_iff.mpr he), rfl⟩
    rw [Dict.values, hself, AList.lookup_empty, Option.or_none]
    rfl
  intro es
  induction es with
  | nil => intro acc _ _; simp
  | cons e es ih =>
    intro acc hnodup hes
    obtain ⟨hnotin, hrest⟩ := List.nodupKeys_cons.mp hnodup
    obtain ⟨hek, hnone⟩ := hes e (by simp)
    rw [List.map_cons, List.map_cons, List.foldl_cons, hf _ _ (by rw [hek]; exact hnone), hek]
    rw [ih _ hrest]
    · rcases eq_or_ne k e.1 with rfl | hne
      · rw [List.dlookup_eq_none.mpr hnotin, AList.lookup_insert]
        obtain ⟨ek, ev⟩ := e
        simp
      · rw [AList.lookup_insert_ne hne]
        obtain ⟨ek, ev⟩ := e
        rw [List.dlookup_cons_ne _ _ hne]
    · intro x hx
      obtain ⟨hxk, hxnone⟩ := hes x (by simp [hx])
      refine ⟨hxk, ?_⟩
      have hne : x.1 ≠ e.1 := fun heq ↦ hnotin (heq ▸ List.mem_keys_of_mem hx)
      rw [AList.lookup_insert_ne hne]
      exact hxnone

section Collect

variable {key : μ → κ} {val : μ → ν} {xs : List μ}

theorem lookup_collect_of_notMem {k : κ} (hk : ∀ x ∈ xs, key x ≠ k) (d : Dict κ ν) :
    (xs.foldl (fun d x ↦ AList.insert (key x) (val x) d) d).lookup k = d.lookup k := by
  induction xs generalizing d with
  | nil => rfl
  | cons x xs ih =>
    rw [List.foldl_cons, ih fun y hy ↦ hk y (by simp [hy])]
    exact AList.lookup_insert_ne (hk x (by simp)).symm

theorem isSome_lookup_collect (k : κ) (d : Dict κ ν) :
    ((xs.foldl (fun d x ↦ AList.insert (key x) (val x) d) d).lookup k).isSome ↔ (d.lookup k).isSome ∨ k ∈ xs.map key := by
  induction xs generalizing d with
  | nil => simp
  | cons x xs ih =>
    rw [List.foldl_cons, ih, List.map_cons, List.mem_cons]
    by_cases hk : k = key x
    · subst hk
      simp [AList.lookup_insert]
    · simp [hk, AList.lookup_insert_ne hk]

theorem lookup_collect (hkeys : (xs.map key).Nodup) {x : μ} (hx : x ∈ xs) (d : Dict κ ν) :
    (xs.foldl (fun d x ↦ AList.insert (key x) (val x) d) d).lookup (key x) = some (val x) := by
  induction xs generalizing d with
  | nil => cases hx
  | cons y xs ih =>
    rw [List.map_cons, List.nodup_cons] at hkeys
    rcases List.mem_cons.mp hx with rfl | hx
    · have hrest : ∀ z ∈ xs, key z ≠ key x := fun z hz heq ↦ hkeys.1 (heq ▸ List.mem_map_of_mem hz)
      rw [List.foldl_cons, lookup_collect_of_notMem hrest, AList.lookup_insert]
    · exact ih hkeys.2 hx _

end Collect

end Dict

end SeaTunnel.Lib
