import ScxCohort.Lib.HashTable

/-!
This module contains hash tables with a fixed number of slots and the three update modes the kernel
offers on them: insert or overwrite, insert only, overwrite only. An insertion into a full table
fails and leaves the table as it was.
-/

inductive MapErr where
  | noEntry
  | keyExists
  | tooBig
  deriving DecidableEq, Repr

inductive UpdateFlag where
  | any
  | noExist
  | exist
  deriving DecidableEq, Repr

structure BoundedMap (cap : Nat) (κ ν : Type) [DecidableEq κ] where
  table : HashTable κ ν
  size_le : table.entries.length ≤ cap

namespace BoundedMap

variable {cap : Nat} {κ ν : Type} [DecidableEq κ]

instance : Membership κ (BoundedMap cap κ ν) where
  mem m k := k ∈ m.table

instance (m : BoundedMap cap κ ν) (k : κ) : Decidable (k ∈ m) :=
  inferInstanceAs (Decidable (k ∈ m.table))

def empty : BoundedMap cap κ ν := ⟨∅, Nat.zero_le _⟩

def size (m : BoundedMap cap κ ν) : Nat := m.table.entries.length

def lookup (m : BoundedMap cap κ ν) (k : κ) : Option ν := m.table.lookup k

def keys (m : BoundedMap cap κ ν) : List κ := m.table.keys

private theorem length_insert_of_mem {t : HashTable κ ν} {k : κ} {v : ν} (hk : k ∈ t)
    : (t.insert k v).entries.length = t.entries.length := by
  have hkeys : (t.insert k v).keys.length = t.keys.length := by
    rw [AList.keys_insert, List.length_cons, List.length_erase_of_mem hk]
    have := List.length_pos_of_mem (AList.mem_keys.mp hk)
    omega
  simpa [AList.keys, List.keys] using hkeys

private theorem length_insert_of_notMem {t : HashTable κ ν} {k : κ} {v : ν} (hk : k ∉ t)
    : (t.insert k v).entries.length = t.entries.length + 1 := by
  rw [AList.entries_insert_of_notMem hk]
  simp

private theorem length_erase_le (t : HashTable κ ν) (k : κ)
    : (t.erase k).entries.length ≤ t.entries.length := by
  have hkeys : (t.erase k).keys.length ≤ t.keys.length := by
    rw [AList.keys_erase]
    exact List.length_erase_le
  simpa [AList.keys, List.keys] using hkeys

def update (m : BoundedMap cap κ ν) (k : κ) (v : ν) (flag : UpdateFlag)
    : Except MapErr (BoundedMap cap κ ν) :=
  if hk : k ∈ m.table then
    match flag with
    | .noExist => .error .keyExists
    | .any | .exist => .ok ⟨m.table.insert k v, by rw [length_insert_of_mem hk]; exact m.size_le⟩
  else
    match flag with
    | .exist => .error .noEntry
    | .any | .noExist =>
      if hs : m.table.entries.length < cap then
        .ok ⟨m.table.insert k v, by rw [length_insert_of_notMem hk]; exact hs⟩
      else
        .error .tooBig

def updateD (m : BoundedMap cap κ ν) (k : κ) (v : ν) (flag : UpdateFlag) : BoundedMap cap κ ν :=
  match m.update k v flag with
  | .ok m' => m'
  | .error _ => m

def delete (m : BoundedMap cap κ ν) (k : κ) : BoundedMap cap κ ν :=
  ⟨m.table.erase k, Nat.le_trans (length_erase_le _ _) m.size_le⟩

def modify (m : BoundedMap cap κ ν) (k : κ) (f : ν → ν) : BoundedMap cap κ ν :=
  match m.lookup k with
  | some v => m.updateD k (f v) .exist
  | none => m

theorem mem_iff_lookup {m : BoundedMap cap κ ν} {k : κ} : k ∈ m ↔ ∃ v, m.lookup k = some v := by
  rw [← Option.isSome_iff_exists]
  exact AList.lookup_isSome.symm

theorem lookup_eq_none {m : BoundedMap cap κ ν} {k : κ} : m.lookup k = none ↔ k ∉ m :=
  AList.lookup_eq_none

theorem mem_keys {m : BoundedMap cap κ ν} {k : κ} : k ∈ m.keys ↔ k ∈ m := Iff.rfl

theorem mem_order_items {o : IterOrder} {m : BoundedMap cap κ ν} {k : κ}
    : k ∈ (o.order m.table.items).map (·.1) ↔ k ∈ m := by
  rw [((o.perm _).map _).mem_iff]
  unfold HashTable.items
  rw [List.map_map]
  exact Iff.rfl

@[simp]
theorem lookup_empty (k : κ) : (empty : BoundedMap cap κ ν).lookup k = none :=
  AList.lookup_empty k

@[simp]
theorem not_mem_empty (k : κ) : k ∉ (empty : BoundedMap cap κ ν) := AList.notMem_empty k

theorem update_ok_table {m m' : BoundedMap cap κ ν} {k : κ} {v : ν} {flag : UpdateFlag}
    (h : m.update k v flag = .ok m')
    : m'.table = m.table.insert k v := by
  unfold update at h
  split at h
  . cases flag <;> simp only [Except.ok.injEq, reduceCtorEq] at h <;> rw [← h]
  . cases flag <;> simp only [reduceCtorEq] at h
    all_goals
      split at h
      . simp only [Except.ok.injEq] at h
        rw [← h]
      . simp at h

theorem lookup_update_ok {m m' : BoundedMap cap κ ν} {k : κ} {v : ν} {flag : UpdateFlag}
    (h : m.update k v flag = .ok m') (k' : κ)
    : m'.lookup k' = if k' = k then some v else m.lookup k' := by
  unfold lookup
  rw [update_ok_table h]
  split
  . next heq =>
    subst heq
    exact AList.lookup_insert _
  . next hne =>
    exact AList.lookup_insert_ne hne

theorem mem_update_ok {m m' : BoundedMap cap κ ν} {k : κ} {v : ν} {flag : UpdateFlag}
    (h : m.update k v flag = .ok m') (k' : κ)
    : k' ∈ m' ↔ k' = k ∨ k' ∈ m := by
  show k' ∈ m'.table ↔ k' = k ∨ k' ∈ m.table
  rw [update_ok_table h]
  exact AList.mem_insert _

theorem update_any_of_mem {m : BoundedMap cap κ ν} {k : κ} (hk : k ∈ m) (v : ν)
    : ∃ m', m.update k v .any = .ok m' := by
  unfold update
  have hk' : k ∈ m.table := hk
  simp [hk']

theorem update_exist_of_mem {m : BoundedMap cap κ ν} {k : κ} (hk : k ∈ m) (v : ν)
    : ∃ m', m.update k v .exist = .ok m' := by
  unfold update
  have hk' : k ∈ m.table := hk
  simp [hk']

theorem update_exist_of_not_mem {m : BoundedMap cap κ ν} {k : κ} (hk : k ∉ m) (v : ν)
    : m.update k v .exist = .error .noEntry := by
  unfold update
  have hk' : k ∉ m.table := hk
  simp [hk']

theorem update_any_of_room {m : BoundedMap cap κ ν} (k : κ) (hs : m.size < cap) (v : ν)
    : ∃ m', m.update k v .any = .ok m' := by
  unfold update
  unfold size at hs
  by_cases hk : k ∈ m.table <;> simp [hk, hs]

theorem update_noExist_of_room {m : BoundedMap cap κ ν} {k : κ} (hk : k ∉ m) (hs : m.size < cap)
    (v : ν)
    : ∃ m', m.update k v .noExist = .ok m' := by
  unfold update
  unfold size at hs
  have hk' : k ∉ m.table := hk
  simp [hk', hs]

theorem update_of_full {m : BoundedMap cap κ ν} {k : κ} (hk : k ∉ m) (hs : cap ≤ m.size)
    (v : ν) (flag : UpdateFlag)
    : ∃ e, m.update k v flag = .error e := by
  unfold update
  unfold size at hs
  have hk' : k ∉ m.table := hk
  have hs' : ¬ (m.table.entries.length < cap) := by omega
  cases flag <;> simp [hk', hs']

-- Where the key is as the flag asks for, an update fails for want of room only.
theorem tooBig_of_update_error {m : BoundedMap cap κ ν} {k : κ} {v : ν} {flag : UpdateFlag} {e : MapErr}
    (h : m.update k v flag = .error e) (hexist : flag = .exist → k ∈ m)
    (hnoExist : flag = .noExist → k ∉ m)
    : e = .tooBig ∧ cap ≤ m.size := by
  unfold update at h
  split at h
  . next hk =>
    cases flag with
    | noExist => exact absurd hk (hnoExist rfl)
    | any => simp at h
    | exist => simp at h
  . next hk =>
    cases flag with
    | exist => exact absurd (hexist rfl) hk
    | any =>
      dsimp only at h
      split at h
      . contradiction
      . next hs =>
        cases h
        exact ⟨rfl, Nat.le_of_not_lt hs⟩
    | noExist =>
      dsimp only at h
      split at h
      . contradiction
      . next hs =>
        cases h
        exact ⟨rfl, Nat.le_of_not_lt hs⟩

theorem size_update_ok {m m' : BoundedMap cap κ ν} {k : κ} {v : ν} {flag : UpdateFlag}
    (h : m.update k v flag = .ok m')
    : m'.size = if k ∈ m then m.size else m.size + 1 := by
  unfold size
  rw [update_ok_table h]
  split
  . next hk => exact length_insert_of_mem hk
  . next hk => exact length_insert_of_notMem hk

theorem not_mem_of_update_noExist {m m' : BoundedMap cap κ ν} {k : κ} {v : ν}
    (h : m.update k v .noExist = .ok m')
    : k ∉ m := by
  intro hk
  have hk' : k ∈ m.table := hk
  unfold update at h
  simp [hk'] at h

theorem size_update_noExist {m m' : BoundedMap cap κ ν} {k : κ} {v : ν}
    (h : m.update k v .noExist = .ok m')
    : m'.size = m.size + 1 := by
  rw [size_update_ok h, if_neg (not_mem_of_update_noExist h)]

theorem lookup_updateD (m : BoundedMap cap κ ν) (k : κ) (v : ν) (flag : UpdateFlag) (k' : κ)
    : (m.updateD k v flag).lookup k' = m.lookup k'
        ∨ (k' = k ∧ (m.updateD k v flag).lookup k' = some v) := by
  unfold updateD
  split
  . next m' h =>
    rw [lookup_update_ok h]
    split
    . next heq => exact .inr ⟨heq, rfl⟩
    . exact .inl rfl
  . exact .inl rfl

theorem lookup_updateD_ne (m : BoundedMap cap κ ν) {k k' : κ} (v : ν) (flag : UpdateFlag)
    (hne : k' ≠ k)
    : (m.updateD k v flag).lookup k' = m.lookup k' := by
  cases lookup_updateD m k v flag k' with
  | inl h => exact h
  | inr h => exact absurd h.1 hne

theorem lookup_updateD_noExist {m : BoundedMap cap κ ν} {k' : κ} (hk : k' ∈ m) (k : κ) (v : ν)
    : (m.updateD k v .noExist).lookup k' = m.lookup k' := by
  unfold updateD
  split
  . next m' h =>
    rw [lookup_update_ok h, if_neg]
    intro heq
    rw [heq] at hk
    exact not_mem_of_update_noExist h hk
  . rfl

theorem lookup_updateD_new {m : BoundedMap cap κ ν} {k : κ} (hk : k ∉ m) (v : ν)
    : (m.updateD k v .any).lookup k = if m.size < cap then some v else none := by
  unfold updateD
  split
  . next m' hm' =>
    rw [lookup_update_ok hm', if_pos rfl]
    by_cases hs : m.size < cap
    . rw [if_pos hs]
    . obtain ⟨e, he⟩ := update_of_full hk (Nat.le_of_not_lt hs) v .any
      rw [he] at hm'
      contradiction
  . next e he =>
    rw [lookup_eq_none.mpr hk]
    by_cases hs : m.size < cap
    . obtain ⟨m', hm'⟩ := update_any_of_room k hs v
      rw [hm'] at he
      contradiction
    . rw [if_neg hs]

theorem lookup_updateD_any {m : BoundedMap cap κ ν} {k : κ} (h : k ∈ m ∨ m.size < cap) (v : ν)
    : (m.updateD k v .any).lookup k = some v := by
  have hok : ∃ m', m.update k v .any = .ok m' := by
    cases h with
    | inl hk => exact update_any_of_mem hk v
    | inr hs => exact update_any_of_room k hs v
  obtain ⟨m', hm'⟩ := hok
  unfold updateD
  rw [hm']
  dsimp only
  rw [lookup_update_ok hm', if_pos rfl]

theorem mem_of_mem_updateD {m : BoundedMap cap κ ν} {k k' : κ} {v : ν} {flag : UpdateFlag}
    (h : k' ∈ m.updateD k v flag)
    : k' = k ∨ k' ∈ m := by
  cases lookup_updateD m k v flag k' with
  | inl heq =>
    rw [mem_iff_lookup, heq, ← mem_iff_lookup] at h
    exact .inr h
  | inr heq => exact .inl heq.1

theorem mem_updateD_of_mem {m : BoundedMap cap κ ν} {k' : κ} (h : k' ∈ m) (k : κ) (v : ν)
    (flag : UpdateFlag)
    : k' ∈ m.updateD k v flag := by
  unfold updateD
  split
  . next h' =>
    rw [mem_update_ok h']
    exact .inr h
  . exact h

theorem mem_updateD_noExist {m : BoundedMap cap κ ν} {k : κ} {v : ν} (h : m.size < cap)
    : k ∈ m.updateD k v .noExist := by
  by_cases hk : k ∈ m
  . exact mem_updateD_of_mem hk k v .noExist
  . obtain ⟨m', hm'⟩ := update_noExist_of_room hk h v
    unfold updateD
    rw [hm']
    dsimp only
    rw [mem_update_ok hm']
    exact .inl rfl

theorem mem_updateD_exist {m : BoundedMap cap κ ν} {k k' : κ} {v : ν}
    : k' ∈ m.updateD k v .exist ↔ k' ∈ m := by
  unfold updateD
  by_cases hk : k ∈ m
  . obtain ⟨m', hm'⟩ := update_exist_of_mem hk v
    rw [hm']
    dsimp only
    rw [mem_update_ok hm']
    constructor
    . rintro (rfl | hk')
      . exact hk
      . exact hk'
    . exact .inr
  . rw [update_exist_of_not_mem hk]

theorem lookup_updateD_exist (m : BoundedMap cap κ ν) (k : κ) (v : ν)
    : (m.updateD k v .exist).lookup k = (m.lookup k).map fun _ => v := by
  unfold updateD
  cases hlookup : m.lookup k with
  | none =>
    rw [update_exist_of_not_mem (lookup_eq_none.mp hlookup)]
    exact hlookup
  | some v' =>
    obtain ⟨m', hm'⟩ := update_exist_of_mem (mem_iff_lookup.mpr ⟨v', hlookup⟩) v
    rw [hm']
    dsimp only
    rw [lookup_update_ok hm', if_pos rfl]
    rfl

theorem lookup_delete (m : BoundedMap cap κ ν) (k k' : κ)
    : (m.delete k).lookup k' = if k' = k then none else m.lookup k' := by
  unfold lookup delete
  split
  . next heq =>
    subst heq
    exact AList.lookup_erase _ _
  . next hne =>
    exact AList.lookup_erase_ne hne

theorem lookup_foldl_delete (ks : List κ) (m : BoundedMap cap κ ν) (k : κ)
    : (ks.foldl (fun m k => m.delete k) m).lookup k = if k ∈ ks then none else m.lookup k := by
  induction ks generalizing m with
  | nil => simp
  | cons k' ks ih =>
    rw [List.foldl_cons, ih, lookup_delete]
    by_cases heq : k = k'
    . simp [heq]
    . simp [heq]

theorem mem_delete (m : BoundedMap cap κ ν) (k k' : κ)
    : k' ∈ m.delete k ↔ k' ≠ k ∧ k' ∈ m :=
  AList.mem_erase

theorem lookup_modify (m : BoundedMap cap κ ν) (k : κ) (f : ν → ν) (k' : κ)
    : (m.modify k f).lookup k' = if k' = k then (m.lookup k').map f else m.lookup k' := by
  unfold modify
  split
  . next v hv =>
    obtain ⟨m', hm'⟩ := update_exist_of_mem (mem_iff_lookup.mpr ⟨v, hv⟩) (f v)
    unfold updateD
    rw [hm']
    dsimp
    rw [lookup_update_ok hm']
    split
    . next heq =>
      subst heq
      simp [hv]
    . rfl
  . next hv =>
    split
    . next heq =>
      subst heq
      simp [hv]
    . rfl

@[simp]
theorem mem_modify (m : BoundedMap cap κ ν) (k : κ) (f : ν → ν) (k' : κ)
    : k' ∈ m.modify k f ↔ k' ∈ m := by
  rw [mem_iff_lookup, mem_iff_lookup, lookup_modify]
  split <;> simp [Option.map_eq_some_iff]

@[simp]
theorem size_modify (m : BoundedMap cap κ ν) (k : κ) (f : ν → ν) : (m.modify k f).size = m.size := by
  unfold modify
  split
  . next v hv =>
    have hk := mem_iff_lookup.mpr ⟨v, hv⟩
    obtain ⟨m', hm'⟩ := update_exist_of_mem hk (f v)
    unfold updateD
    rw [hm']
    dsimp
    rw [size_update_ok hm', if_pos hk]
  . rfl

end BoundedMap
