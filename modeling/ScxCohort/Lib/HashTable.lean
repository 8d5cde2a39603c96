import Mathlib.Algebra.GroupWithZero.Nat
import Mathlib.Data.List.AList

/-!
This module contains hash tables as the callers of `std::collections::HashMap` use them. The order in
which a table is iterated is not determined by its contents, so whatever iterates one takes the order
as an argument (`IterOrder`).
-/

abbrev HashTable (κ ν : Type) := AList (fun _ : κ => ν)

namespace HashTable

variable {κ ν : Type}

def items (t : HashTable κ ν) : List (κ × ν) := t.entries.map fun e => (e.1, e.2)

def values (t : HashTable κ ν) : List ν := t.entries.map (·.2)

def retain (t : HashTable κ ν) (keep : κ → ν → Bool) : HashTable κ ν :=
  ⟨t.entries.filter fun e => keep e.1 e.2, t.nodupKeys.sublist List.filter_sublist⟩

theorem nodupKeys_mapValues (f : κ → ν → ν) (l : List (Sigma fun _ : κ => ν))
    (h : l.NodupKeys)
    : (l.map fun e => (⟨e.1, f e.1 e.2⟩ : Sigma fun _ : κ => ν)).NodupKeys := by
  unfold List.NodupKeys List.keys at h ⊢
  rw [List.map_map]
  exact h

def mapValues (t : HashTable κ ν) (f : κ → ν → ν) : HashTable κ ν :=
  ⟨t.entries.map fun e => ⟨e.1, f e.1 e.2⟩, nodupKeys_mapValues f _ t.nodupKeys⟩

theorem nodup_items (t : HashTable κ ν) : (t.items.map (·.1)).Nodup := by
  unfold items
  rw [List.map_map]
  exact t.nodupKeys

-- What the values of a table add up to.
def weight (f : ν → Nat) (t : HashTable κ ν) : Nat := (t.values.map f).sum

theorem weight_empty (f : ν → Nat) : weight f (∅ : HashTable κ ν) = 0 := rfl

theorem weight_items (f : ν → Nat) (t : HashTable κ ν)
    : (t.items.map fun e => f e.2).sum = weight f t := by
  unfold weight values items
  rw [List.map_map, List.map_map]
  rfl

variable [DecidableEq κ]

def ofList (l : List (κ × ν)) : HashTable κ ν :=
  l.foldl (fun t e => t.insert e.1 e.2) ∅

def upsert (t : HashTable κ ν) (k : κ) (f : Option ν → ν) : HashTable κ ν :=
  t.insert k (f (t.lookup k))

theorem mem_items {t : HashTable κ ν} {k : κ} {v : ν} : (k, v) ∈ t.items ↔ t.lookup k = some v := by
  rw [← Option.mem_def, AList.mem_lookup_iff]
  unfold items
  simp only [List.mem_map, Prod.mk.injEq]
  constructor
  . rintro ⟨⟨k', v'⟩, hmem, rfl, rfl⟩
    exact hmem
  . intro hmem
    exact ⟨⟨k, v⟩, hmem, rfl, rfl⟩

theorem find?_items (t : HashTable κ ν) (k : κ)
    : (t.items.find? (·.1 = k)).map (·.2) = t.lookup k := by
  cases hfind : t.items.find? (·.1 = k) with
  | some e =>
    obtain ⟨k', v⟩ := e
    have hkey := List.find?_some hfind
    rw [decide_eq_true_eq] at hkey
    dsimp only at hkey
    have hmem := List.mem_of_find?_eq_some hfind
    rw [hkey, mem_items] at hmem
    rw [hmem]
    rfl
  | none =>
    rw [List.find?_eq_none] at hfind
    cases hlookup : t.lookup k with
    | none => rfl
    | some v => exact absurd (decide_eq_true rfl) (hfind (k, v) (mem_items.mpr hlookup))

theorem mem_values {t : HashTable κ ν} {v : ν} : v ∈ t.values ↔ ∃ k, t.lookup k = some v := by
  unfold values
  rw [List.mem_map]
  constructor
  . rintro ⟨⟨k, v'⟩, hmem, rfl⟩
    exact ⟨k, AList.mem_lookup_iff.mpr hmem⟩
  . rintro ⟨k, hk⟩
    exact ⟨⟨k, v⟩, AList.mem_lookup_iff.mp hk, rfl⟩

theorem lookup_insert_eq (t : HashTable κ ν) (k : κ) (v : ν) (k' : κ)
    : (t.insert k v).lookup k' = if k' = k then some v else t.lookup k' := by
  split
  . next heq =>
    subst heq
    exact AList.lookup_insert _
  . next hne => exact AList.lookup_insert_ne hne

theorem lookup_upsert (t : HashTable κ ν) (k : κ) (f : Option ν → ν) (k' : κ)
    : (t.upsert k f).lookup k' = if k' = k then some (f (t.lookup k)) else t.lookup k' := by
  unfold upsert
  rw [lookup_insert_eq]

theorem lookup_erase_eq (t : HashTable κ ν) (k k' : κ)
    : (t.erase k).lookup k' = if k' = k then none else t.lookup k' := by
  split
  . next heq =>
    subst heq
    apply AList.lookup_erase
  . next hne => apply AList.lookup_erase_ne hne

theorem lookup_mapValues (t : HashTable κ ν) (f : κ → ν → ν) (k : κ)
    : (t.mapValues f).lookup k = (t.lookup k).map (f k) := by
  ext v
  rw [← Option.mem_def, AList.mem_lookup_iff, Option.map_eq_some_iff]
  unfold mapValues
  simp only [List.mem_map, Sigma.mk.injEq]
  constructor
  . rintro ⟨⟨k', v'⟩, hmem, rfl, heq⟩
    exact ⟨v', AList.mem_lookup_iff.mpr hmem, eq_of_heq heq⟩
  . rintro ⟨v', hmem, rfl⟩
    exact ⟨⟨k, v'⟩, AList.mem_lookup_iff.mp hmem, rfl, HEq.rfl⟩

theorem lookup_retain (t : HashTable κ ν) (keep : κ → ν → Bool) (k : κ)
    : (t.retain keep).lookup k = (t.lookup k).filter (keep k) := by
  ext v
  rw [← Option.mem_def, AList.mem_lookup_iff, Option.filter_eq_some_iff, ← Option.mem_def,
    AList.mem_lookup_iff]
  unfold retain
  rw [List.mem_filter]

theorem lookup_foldl_insert {l : List (κ × ν)} {t : HashTable κ ν} {k : κ} {v : ν}
    (h : (l.foldl (fun t e => t.insert e.1 e.2) t).lookup k = some v)
    : (k, v) ∈ l ∨ t.lookup k = some v := by
  induction l generalizing t with
  | nil => exact .inr h
  | cons e l ih =>
    cases ih h with
    | inl hmem => exact .inl (List.mem_cons_of_mem _ hmem)
    | inr hlookup =>
      rw [lookup_insert_eq] at hlookup
      split at hlookup
      . next heq =>
        simp only [Option.some.injEq] at hlookup
        left
        rw [heq, ← hlookup]
        exact List.mem_cons_self
      . exact .inr hlookup

theorem mem_foldl_insert {l : List (κ × ν)} {t : HashTable κ ν} {k : κ}
    : k ∈ l.foldl (fun t e => t.insert e.1 e.2) t ↔ k ∈ l.map (·.1) ∨ k ∈ t := by
  induction l generalizing t with
  | nil => simp
  | cons e l ih =>
    rw [List.foldl_cons, ih, AList.mem_insert, List.map_cons, List.mem_cons]
    tauto

theorem mem_ofList {l : List (κ × ν)} {k : κ} : k ∈ ofList l ↔ k ∈ l.map (·.1) := by
  unfold ofList
  rw [mem_foldl_insert]
  simp

theorem mem_of_lookup_ofList {l : List (κ × ν)} {k : κ} {v : ν} (h : (ofList l).lookup k = some v)
    : (k, v) ∈ l := by
  cases lookup_foldl_insert h with
  | inl hmem => exact hmem
  | inr hlookup =>
    rw [AList.lookup_empty] at hlookup
    contradiction

-- A table that gathers what the elements of a list say about each key.
theorem lookup_foldl_upsert {α : Type} (key : α → κ) (f : α → Option ν → ν) (l : List α)
    (t : HashTable κ ν) (k : κ)
    : (l.foldl (fun t a => t.upsert (key a) (f a)) t).lookup k
        =
      l.foldl (fun v a => if key a = k then some (f a v) else v) (t.lookup k) := by
  induction l generalizing t with
  | nil => rfl
  | cons a l ih =>
    rw [List.foldl_cons, List.foldl_cons, ih, lookup_upsert]
    by_cases hk : k = key a
    . rw [if_pos hk, if_pos hk.symm, hk]
    . rw [if_neg hk, if_neg (Ne.symm hk)]

theorem eq_empty_of_lookup {t : HashTable κ ν} (h : ∀ k, t.lookup k = none) : t = ∅ := by
  apply AList.ext
  rw [AList.empty_entries, List.eq_nil_iff_forall_not_mem]
  intro ⟨k, v⟩ hmem
  rw [← AList.mem_lookup_iff, h] at hmem
  contradiction

-- A table that counts how often each key comes up.
theorem lookup_foldl_count {α : Type} (key : α → κ) (l : List α) (t : HashTable κ UInt64) (k : κ)
    : ((l.foldl (fun t a => t.upsert (key a) fun n => n.getD 0 + 1) t).lookup k).getD 0
        =
      (t.lookup k).getD 0 + UInt64.ofNat (l.countP (key · = k)) := by
  induction l generalizing t with
  | nil => simp
  | cons a l ih =>
    rw [List.foldl_cons, ih, lookup_upsert, List.countP_cons]
    by_cases hk : k = key a
    . rw [if_pos hk, hk]
      simp only [Option.getD_some, decide_true, if_true, UInt64.ofNat_add]
      rw [UInt64.add_assoc, UInt64.add_comm 1]
      rfl
    . rw [if_neg hk]
      simp [Ne.symm hk]

theorem weight_insert (f : ν → Nat) (t : HashTable κ ν) (k : κ) (v : ν)
    : weight f (t.insert k v) + ((t.lookup k).map f).getD 0 = weight f t + f v := by
  unfold weight values
  rw [AList.entries_insert, List.map_cons, List.map_cons, List.sum_cons]
  by_cases hk : k ∈ t
  . obtain ⟨v', l, l', _, hentries, hrest⟩ := List.exists_of_kerase hk
    have hlookup : t.lookup k = some v' := by
      rw [← Option.mem_def, AList.mem_lookup_iff, hentries]
      exact List.mem_append_right _ List.mem_cons_self
    rw [hrest, hlookup, hentries]
    simp only [List.map_append, List.map_cons, List.sum_append, List.sum_cons, Option.map_some,
      Option.getD_some]
    omega
  . rw [List.kerase_of_notMem_keys hk, AList.lookup_eq_none.mpr hk]
    simp only [Option.map_none, Option.getD_none]
    omega

end HashTable

-- A choice of iteration orders, for tables with any contents.
structure IterOrder where
  order {α : Type} : List α → List α
  perm {α : Type} (l : List α) : (order l).Perm l

namespace IterOrder

def id : IterOrder := ⟨fun l => l, fun _ => .refl _⟩

@[simp]
theorem mem_order (o : IterOrder) {α : Type} {l : List α} {a : α} : a ∈ o.order l ↔ a ∈ l :=
  (o.perm l).mem_iff

end IterOrder

-- A table read back from its entries, in whatever order they came.
theorem HashTable.lookup_ofList_items {κ ν : Type} [DecidableEq κ] (o : IterOrder)
    (t : HashTable κ ν) (k : κ)
    : (HashTable.ofList (o.order t.items)).lookup k = t.lookup k := by
  cases hread : (HashTable.ofList (o.order t.items)).lookup k with
  | some v =>
    have hmem := HashTable.mem_of_lookup_ofList hread
    rw [IterOrder.mem_order, HashTable.mem_items] at hmem
    exact hmem.symm
  | none =>
    cases ht : t.lookup k with
    | none => rfl
    | some v =>
      have hmem : k ∈ HashTable.ofList (o.order t.items) := by
        rw [HashTable.mem_ofList, List.mem_map]
        refine ⟨(k, v), ?_, rfl⟩
        rw [IterOrder.mem_order, HashTable.mem_items]
        exact ht
      rw [← AList.lookup_isSome, hread] at hmem
      contradiction
