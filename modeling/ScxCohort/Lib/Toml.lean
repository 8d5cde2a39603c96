import Mathlib.Data.List.Basic
import Mathlib.Data.UInt

/-!
This module contains TOML documents, and how the fields of a record are read: from a table by name,
with or without other keys allowed, or from an array by position, each with a decoder for its type.
What a float is stays open.
-/

namespace Toml

abbrev Key := List Char

inductive Value (F : Type) where
  | string (s : List Char)
  | integer (i : Int)
  | float (x : F)
  | boolean (b : Bool)
  | datetime (text : List Char)
  | array (vs : List (Value F))
  | table (entries : List (Key × Value F))

variable {F : Type}

mutual

-- A table has every key once.
def Value.wellFormed : Value F → Bool
  | .array vs => allWellFormed vs
  | .table entries => decide (entries.map (·.1)).Nodup && entriesWellFormed entries
  | _ => true

def allWellFormed : List (Value F) → Bool
  | [] => true
  | v :: vs => v.wellFormed && allWellFormed vs

def entriesWellFormed : List (Key × Value F) → Bool
  | [] => true
  | (_, v) :: entries => v.wellFormed && entriesWellFormed entries

end

structure Document (F : Type) where
  entries : List (Key × Value F)
  wellFormed : (Value.table entries).wellFormed = true

section Forall₂

variable {α β : Type} {R : α → β → Prop} {as : List α} {bs : List β}

theorem exists_right (h : List.Forall₂ R as bs) {a : α} (ha : a ∈ as) : ∃ b ∈ bs, R a b := by
  induction h with
  | nil => contradiction
  | cons hR _ ih =>
    cases List.mem_cons.mp ha with
    | inl heq =>
      rw [heq]
      exact ⟨_, List.mem_cons_self, hR⟩
    | inr hmem =>
      obtain ⟨b, hb, hR'⟩ := ih hmem
      exact ⟨b, List.mem_cons_of_mem _ hb, hR'⟩

theorem exists_left (h : List.Forall₂ R as bs) {b : β} (hb : b ∈ bs) : ∃ a ∈ as, R a b :=
  exists_right (R := flip R) h.flip hb

end Forall₂

section WellFormed

variable {vs : List (Value F)} {entries : List (Key × Value F)} {v : Value F} {key : Key}

theorem wellFormed_of_mem (h : allWellFormed vs = true) (hv : v ∈ vs) : v.wellFormed = true := by
  induction vs with
  | nil => contradiction
  | cons v' vs ih =>
    rw [allWellFormed, Bool.and_eq_true] at h
    cases List.mem_cons.mp hv with
    | inl heq =>
      rw [heq]
      exact h.1
    | inr hmem => exact ih h.2 hmem

theorem wellFormed_of_entry (h : entriesWellFormed entries = true) (hv : (key, v) ∈ entries)
    : v.wellFormed = true := by
  induction entries with
  | nil => contradiction
  | cons e entries ih =>
    rw [entriesWellFormed, Bool.and_eq_true] at h
    cases List.mem_cons.mp hv with
    | inl heq =>
      rw [← heq] at h
      exact h.1
    | inr hmem => exact ih h.2 hmem

theorem nodup_of_wellFormed (h : (Value.table entries).wellFormed = true)
    : (entries.map (·.1)).Nodup := by
  rw [Value.wellFormed, Bool.and_eq_true, decide_eq_true_eq] at h
  exact h.1

theorem entries_of_wellFormed (h : (Value.table entries).wellFormed = true)
    : entriesWellFormed entries = true := by
  rw [Value.wellFormed, Bool.and_eq_true] at h
  exact h.2

theorem wellFormed_zip {keys : List Key} (h : (Value.array vs).wellFormed = true)
    : entriesWellFormed (keys.zip vs) = true := by
  induction keys generalizing vs with
  | nil => rfl
  | cons key keys ih =>
    cases vs with
    | nil => rfl
    | cons v vs =>
      rw [Value.wellFormed, allWellFormed, Bool.and_eq_true] at h
      rw [List.zip_cons_cons, entriesWellFormed, Bool.and_eq_true]
      exact ⟨h.1, ih h.2⟩

end WellFormed

theorem lookup_eq_some_iff {β : Type} {entries : List (Key × β)} {key : Key} {b : β}
    (h : (entries.map (·.1)).Nodup)
    : entries.lookup key = some b ↔ (key, b) ∈ entries := by
  induction entries with
  | nil => simp
  | cons e entries ih =>
    obtain ⟨key', b'⟩ := e
    rw [List.map_cons, List.nodup_cons] at h
    rw [List.lookup_cons, List.mem_cons, Prod.mk.injEq]
    by_cases heq : key = key'
    . have hnew : (key, b) ∉ entries := by
        intro hmem
        apply h.1
        rw [List.mem_map]
        exact ⟨(key, b), hmem, heq⟩
      rw [heq] at hnew
      simp [heq, eq_comm, hnew]
    . rw [beq_false_of_ne heq]
      simp [heq, ih h.2]

section Decode

def asString : Value F → Option (List Char)
  | .string s => some s
  | _ => none

def asBool : Value F → Option Bool
  | .boolean b => some b
  | _ => none

def asInt (lo hi : Int) : Value F → Option Int
  | .integer i => if lo ≤ i ∧ i < hi then some i else none
  | _ => none

def asU64 (v : Value F) : Option UInt64 := (asInt 0 (2 ^ 64) v).map fun i => .ofNat i.toNat

def asU32 (v : Value F) : Option UInt32 := (asInt 0 (2 ^ 32) v).map fun i => .ofNat i.toNat

def asI32 (v : Value F) : Option Int32 := (asInt (-2 ^ 31) (2 ^ 31) v).map Int32.ofInt

-- An integer is taken for a float if it is one of the 64-bit ones.
def asF64 [IntCast F] : Value F → Option F
  | .float x => some x
  | v => (asInt (-2 ^ 63) (2 ^ 64) v).map Int.cast

def asArray {α : Type} (as : Value F → Option α) : Value F → Option (List α)
  | .array vs => vs.mapM as
  | _ => none

-- A field that may be missing.
def field {α : Type} (entries : List (Key × Value F)) (key : Key) (as : Value F → Option α)
    : Option (Option α) :=
  match entries.lookup key with
  | none => some none
  | some v => (as v).map some

def onlyKeys (keys : List Key) (entries : List (Key × Value F)) : Bool :=
  entries.all fun e => keys.contains e.1

-- A record in an array has all its fields there, in order. What comes after them is not looked at.
def tabled (keys : List Key) : Value F → Value F
  | .array vs => if keys.length ≤ vs.length then .table (keys.zip vs) else .array vs
  | v => v

-- The fields of a record that allows no others.
def fields (keys : List Key) (v : Value F) : Option (List (Key × Value F)) :=
  match tabled keys v with
  | .table entries => if onlyKeys keys entries then some entries else none
  | _ => none

theorem fields_eq_some_iff {keys : List Key} {v : Value F} {entries : List (Key × Value F)}
    : fields keys v = some entries ↔ tabled keys v = .table entries ∧ onlyKeys keys entries = true := by
  unfold fields
  cases tabled keys v with
  | table entries' =>
    simp only [Option.ite_none_right_eq_some, Option.some.injEq, Value.table.injEq]
    constructor
    . rintro ⟨hkeys, rfl⟩
      exact ⟨rfl, hkeys⟩
    . rintro ⟨rfl, hkeys⟩
      exact ⟨hkeys, rfl⟩
  | _ => simp

theorem wellFormed_tabled {keys : List Key} (hkeys : keys.Nodup) {v : Value F} (h : v.wellFormed = true)
    : (tabled keys v).wellFormed = true := by
  cases v with
  | array vs =>
    unfold tabled
    dsimp only
    split
    . next hlen =>
      have hnames : (keys.zip vs).map (·.1) = keys := List.map_fst_zip hlen
      rw [Value.wellFormed, hnames, decide_eq_true hkeys, Bool.true_and]
      exact wellFormed_zip h
    . exact h
  | _ => exact h

variable {α : Type} {as : Value F → Option α} {entries : List (Key × Value F)} {key : Key}

theorem isSome_field_iff (h : (entries.map (·.1)).Nodup)
    : (field entries key as).isSome = true ↔ ∀ v, (key, v) ∈ entries → (as v).isSome = true := by
  unfold field
  split
  . next hnone =>
    simp only [Option.isSome_some, true_iff]
    intro v hv
    rw [← lookup_eq_some_iff h, hnone] at hv
    contradiction
  . next v hv =>
    rw [Option.isSome_map]
    constructor
    . intro hsome v' hv'
      rw [← lookup_eq_some_iff h, hv, Option.some.injEq] at hv'
      rw [← hv']
      exact hsome
    . intro hall
      exact hall v ((lookup_eq_some_iff h).mp hv)

theorem eq_of_field {a : Option α} (h : field entries key as = some a)
    : a = (entries.lookup key).bind as := by
  unfold field at h
  split at h
  . next hnone =>
    rw [hnone]
    exact (Option.some.inj h).symm
  . next v hv =>
    rw [hv, Option.bind_some]
    obtain ⟨b, hb, rfl⟩ := Option.map_eq_some_iff.mp h
    exact hb.symm

theorem asInt_eq_some_iff {lo hi i : Int} {v : Value F}
    : asInt lo hi v = some i ↔ v = .integer i ∧ lo ≤ i ∧ i < hi := by
  cases v with
  | integer j =>
    simp only [asInt, Option.ite_none_right_eq_some, Option.some.injEq, Value.integer.injEq]
    constructor
    . rintro ⟨hrange, rfl⟩
      exact ⟨rfl, hrange⟩
    . rintro ⟨rfl, hrange⟩
      exact ⟨hrange, rfl⟩
  | _ => simp [asInt]

theorem asU64_eq_some_iff {v : Value F} {n : UInt64} : asU64 v = some n ↔ v = .integer n.toNat := by
  unfold asU64
  rw [Option.map_eq_some_iff]
  simp only [asInt_eq_some_iff]
  constructor
  . rintro ⟨i, ⟨rfl, hlo, hhi⟩, rfl⟩
    have hlt : i.toNat < 2 ^ 64 := by omega
    rw [UInt64.toNat_ofNat_of_lt' hlt, Int.toNat_of_nonneg hlo]
  . rintro rfl
    have := n.toNat_lt
    exact ⟨n.toNat, ⟨rfl, by omega, by omega⟩, by simp⟩

theorem asU32_eq_some_iff {v : Value F} {n : UInt32} : asU32 v = some n ↔ v = .integer n.toNat := by
  unfold asU32
  rw [Option.map_eq_some_iff]
  simp only [asInt_eq_some_iff]
  constructor
  . rintro ⟨i, ⟨rfl, hlo, hhi⟩, rfl⟩
    have hlt : i.toNat < 2 ^ 32 := by omega
    rw [UInt32.toNat_ofNat_of_lt' hlt, Int.toNat_of_nonneg hlo]
  . rintro rfl
    have := n.toNat_lt
    exact ⟨n.toNat, ⟨rfl, by omega, by omega⟩, by simp⟩

theorem asString_eq_some_iff {v : Value F} {s : List Char} : asString v = some s ↔ v = .string s := by
  cases v <;> simp [asString]

theorem mapM_eq_some_iff {vs : List (Value F)} {l : List α}
    : vs.mapM as = some l ↔ List.Forall₂ (fun v a => as v = some a) vs l := by
  induction vs generalizing l with
  | nil => cases l <;> simp
  | cons v vs ih =>
    rw [List.mapM_cons, Option.bind_eq_bind, Option.bind_eq_some_iff]
    simp only [Option.bind_eq_bind, Option.bind_eq_some_iff, Option.pure_def, Option.some.injEq, ih]
    constructor
    . rintro ⟨a, ha, l', hl', rfl⟩
      exact .cons ha hl'
    . intro hall
      cases hall with
      | cons ha hl' => exact ⟨_, ha, _, hl', rfl⟩

theorem asArray_asString_eq_some_iff {v : Value F} {l : List (List Char)}
    : asArray asString v = some l ↔ v = .array (l.map .string) := by
  cases v with
  | array vs =>
    rw [asArray, mapM_eq_some_iff, Value.array.injEq]
    simp only [asString_eq_some_iff]
    rw [← List.forall₂_eq_eq_eq, List.forall₂_map_right_iff]
  | _ => simp [asArray]

theorem isSome_asArray_iff {v : Value F}
    : (asArray as v).isSome = true ↔ ∃ vs, v = .array vs ∧ ∀ v ∈ vs, (as v).isSome = true := by
  cases v with
  | array vs =>
    simp only [asArray, Value.array.injEq, exists_eq_left']
    induction vs with
    | nil => simp
    | cons v vs ih =>
      rw [List.mapM_cons]
      simp only [Option.bind_eq_bind, Option.isSome_bind, List.forall_mem_cons, ← ih]
      cases as v <;> simp
  | _ => simp [asArray]

end Decode

end Toml
