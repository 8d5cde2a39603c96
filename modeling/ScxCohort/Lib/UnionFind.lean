import Mathlib.Logic.Relation
import ScxCohort.Lib.HashTable

/-!
This module contains union-find over a hash table of parents, with path compression and without ranks.
The recursion of `find` is bounded by fuel; `Reaches` counts the steps to a root, so that a bound on
the depth of the forest shows that the fuel suffices.
-/

abbrev Forest (κ : Type) := HashTable κ κ

namespace Forest

variable {κ : Type} [DecidableEq κ]

def singletons (xs : List κ) : Forest κ := HashTable.ofList (xs.map fun x => (x, x))

-- A missing key or an empty tank returns the point itself.
def find : Nat → Forest κ → κ → κ × Forest κ
  | 0, parent, x => (x, parent)
  | fuel + 1, parent, x =>
    match parent.lookup x with
    | none => (x, parent)
    | some p =>
      if p = x then
        (x, parent)
      else
        let (root, parent) := find fuel parent p
        (root, parent.insert x root)

def union (fuel : Nat) (parent : Forest κ) (a b : κ) : Forest κ :=
  let (ra, parent) := find fuel parent a
  let (rb, parent) := find fuel parent b
  if ra ≠ rb then parent.insert ra rb else parent

-- `r` is the root of `x`, `n` steps away.
inductive Reaches (parent : Forest κ) : Nat → κ → κ → Prop where
  | root {r : κ} : parent.lookup r = some r → Reaches parent 0 r r
  | step {n : Nat} {x p r : κ} :
    parent.lookup x = some p → p ≠ x → Reaches parent n p r → Reaches parent (n + 1) x r

theorem Reaches.root_lookup {parent : Forest κ} {n : Nat} {x r : κ} (h : Reaches parent n x r)
    : parent.lookup r = some r := by
  induction h with
  | root h => exact h
  | step _ _ _ ih => exact ih

theorem Reaches.unique {parent : Forest κ} {n n' : Nat} {x r r' : κ} (h : Reaches parent n x r)
    (h' : Reaches parent n' x r')
    : n = n' ∧ r = r' := by
  induction h generalizing n' with
  | root hr =>
    cases h' with
    | root _ => exact ⟨rfl, rfl⟩
    | step hp hne _ =>
      rw [hr] at hp
      simp only [Option.some.injEq] at hp
      exact absurd hp.symm hne
  | step hp hne _ ih =>
    cases h' with
    | root hr' =>
      rw [hr'] at hp
      simp only [Option.some.injEq] at hp
      exact absurd hp.symm hne
    | step hp' _ hrest' =>
      rw [hp] at hp'
      simp only [Option.some.injEq] at hp'
      subst hp'
      obtain ⟨rfl, rfl⟩ := ih hrest'
      exact ⟨rfl, rfl⟩

-- Every root is kept, and no point gets further away from its root.
structure Compresses (parent parent' : Forest κ) : Prop where
  reaches : ∀ n x r, Reaches parent n x r → ∃ m, m ≤ n ∧ Reaches parent' m x r
  keys : ∀ x, x ∈ parent' ↔ x ∈ parent

namespace Compresses

theorem refl (parent : Forest κ) : Compresses parent parent :=
  ⟨fun n _ _ h => ⟨n, Nat.le_refl n, h⟩, fun _ => Iff.rfl⟩

theorem trans {a b c : Forest κ} (h : Compresses a b) (h' : Compresses b c) : Compresses a c := by
  constructor
  . intro n x r hr
    obtain ⟨m, hm, hr⟩ := h.reaches n x r hr
    obtain ⟨m', hm', hr⟩ := h'.reaches m x r hr
    exact ⟨m', Nat.le_trans hm' hm, hr⟩
  . intro x
    rw [h'.keys, h.keys]

theorem insert_root {parent : Forest κ} {n : Nat} {x r : κ} (h : Reaches parent (n + 1) x r)
    : Compresses parent (parent.insert x r) := by
  have hroot := h.root_lookup
  have hne : r ≠ x := by
    intro heq
    subst heq
    have := (h.unique (.root hroot)).1
    omega
  have hroot' : (parent.insert x r).lookup r = some r := by
    rw [HashTable.lookup_insert_eq, if_neg hne, hroot]
  have hmem : x ∈ parent := by
    cases h with
    | step hp _ _ => exact AList.lookup_isSome.mp (by simp [hp])
  constructor
  . intro m y s hy
    induction hy with
    | @root s hs =>
      refine ⟨0, Nat.le_refl 0, .root ?_⟩
      have hsx : s ≠ x := by
        intro heq
        subst heq
        have := (h.unique (.root hs)).1
        omega
      rw [HashTable.lookup_insert_eq, if_neg hsx, hs]
    | @step m y p s hp hpne hrest ih =>
      by_cases hyx : y = x
      . subst hyx
        obtain ⟨_, rfl⟩ := h.unique (.step hp hpne hrest)
        refine ⟨1, Nat.le_add_left 1 m, .step ?_ hne (.root hroot')⟩
        rw [HashTable.lookup_insert_eq, if_pos rfl]
      . obtain ⟨m', hm', hrest'⟩ := ih
        refine ⟨m' + 1, Nat.succ_le_succ hm', .step ?_ hpne hrest'⟩
        rw [HashTable.lookup_insert_eq, if_neg hyx, hp]
  . intro y
    rw [AList.mem_insert]
    constructor
    . intro hy
      cases hy with
      | inl heq => rw [heq]; exact hmem
      | inr hy => exact hy
    . exact .inr

end Compresses

theorem find_spec {parent : Forest κ} {n : Nat} {x r : κ} (h : Reaches parent n x r) {fuel : Nat}
    (hfuel : n < fuel)
    : (find fuel parent x).1 = r ∧ Compresses parent (find fuel parent x).2 := by
  induction h generalizing fuel with
  | root hr =>
    cases fuel with
    | zero => omega
    | succ fuel =>
      unfold find
      rw [hr]
      simp only [if_true]
      exact ⟨trivial, .refl parent⟩
  | @step n x p r hp hne hrest ih =>
    cases fuel with
    | zero => omega
    | succ fuel =>
      unfold find
      rw [hp]
      simp only [if_neg hne]
      obtain ⟨hroot, hcomp⟩ := ih (Nat.lt_of_succ_lt_succ hfuel)
      refine ⟨hroot, hcomp.trans ?_⟩
      obtain ⟨m, _, hr⟩ := hcomp.reaches _ _ _ (.step hp hne hrest)
      rw [hroot]
      cases m with
      | zero =>
        -- A root of the compressed forest that is `x` itself was a root before.
        cases hr with
        | root _ =>
          have hx := hrest.root_lookup
          rw [hp, Option.some.injEq] at hx
          exact absurd hx hne
      | succ m => exact .insert_root hr

-- Every point is at most `d` steps away from its root.
def Shallow (d : Nat) (parent : Forest κ) : Prop :=
  ∀ x ∈ parent, ∃ n, n ≤ d ∧ ∃ r, Reaches parent n x r

def SameRoot (parent : Forest κ) (x y : κ) : Prop :=
  ∃ r m n, Reaches parent m x r ∧ Reaches parent n y r

theorem SameRoot.trans {parent : Forest κ} {x y z : κ} (h : SameRoot parent x y)
    (h' : SameRoot parent y z)
    : SameRoot parent x z := by
  obtain ⟨r, m, n, hx, hy⟩ := h
  obtain ⟨r', m', n', hy', hz⟩ := h'
  obtain ⟨_, rfl⟩ := hy.unique hy'
  exact ⟨r, m, n', hx, hz⟩

theorem SameRoot.symm {parent : Forest κ} {x y : κ} (h : SameRoot parent x y)
    : SameRoot parent y x := by
  obtain ⟨r, m, n, hx, hy⟩ := h
  exact ⟨r, n, m, hy, hx⟩

theorem Compresses.shallow {parent parent' : Forest κ} {d : Nat} (h : Compresses parent parent')
    (hd : Shallow d parent)
    : Shallow d parent' := by
  intro x hx
  rw [h.keys] at hx
  obtain ⟨n, hn, r, hr⟩ := hd x hx
  obtain ⟨m, hm, hr⟩ := h.reaches n x r hr
  exact ⟨m, Nat.le_trans hm hn, r, hr⟩

theorem Reaches.mem {parent : Forest κ} {n : Nat} {x r : κ} (h : Reaches parent n x r)
    : x ∈ parent := by
  cases h with
  | root hr => exact AList.lookup_isSome.mp (by simp [hr])
  | step hp _ _ => exact AList.lookup_isSome.mp (by simp [hp])

theorem SameRoot.refl {parent : Forest κ} {d : Nat} {x : κ} (hd : Shallow d parent)
    (hx : x ∈ parent)
    : SameRoot parent x x := by
  obtain ⟨n, _, r, hr⟩ := hd x hx
  exact ⟨r, n, n, hr, hr⟩

theorem Compresses.sameRoot_iff {parent parent' : Forest κ} {d : Nat} {x y : κ}
    (h : Compresses parent parent') (hd : Shallow d parent)
    : SameRoot parent' x y ↔ SameRoot parent x y := by
  constructor
  . intro hxy
    obtain ⟨r, m, n, hx, hy⟩ := hxy
    obtain ⟨m₀, _, rx, hx₀⟩ := hd x ((h.keys x).mp hx.mem)
    obtain ⟨n₀, _, ry, hy₀⟩ := hd y ((h.keys y).mp hy.mem)
    obtain ⟨_, _, hx'⟩ := h.reaches _ _ _ hx₀
    obtain ⟨_, _, hy'⟩ := h.reaches _ _ _ hy₀
    obtain ⟨_, rfl⟩ := hx.unique hx'
    obtain ⟨_, rfl⟩ := hy.unique hy'
    exact ⟨r, m₀, n₀, hx₀, hy₀⟩
  . intro hxy
    obtain ⟨r, m, n, hx, hy⟩ := hxy
    obtain ⟨m', _, hx⟩ := h.reaches m x r hx
    obtain ⟨n', _, hy⟩ := h.reaches n y r hy
    exact ⟨r, m', n', hx, hy⟩

-- Hanging one root under another.
theorem Reaches.insert_root {parent : Forest κ} {ra rb : κ} (ha : parent.lookup ra = some ra)
    (hb : parent.lookup rb = some rb) (hne : ra ≠ rb) {n : Nat} {x r : κ}
    (h : Reaches parent n x r)
    : ∃ m, m ≤ n + 1 ∧ Reaches (parent.insert ra rb) m x (if r = ra then rb else r) := by
  have hb' : (parent.insert ra rb).lookup rb = some rb := by
    rw [HashTable.lookup_insert_eq, if_neg (Ne.symm hne), hb]
  induction h with
  | @root r hr =>
    by_cases heq : r = ra
    . subst heq
      rw [if_pos rfl]
      refine ⟨1, Nat.le_refl 1, .step ?_ (Ne.symm hne) (.root hb')⟩
      rw [HashTable.lookup_insert_eq, if_pos rfl]
    . rw [if_neg heq]
      refine ⟨0, Nat.zero_le 1, .root ?_⟩
      rw [HashTable.lookup_insert_eq, if_neg heq, hr]
  | @step n x p r hp hpne _ ih =>
    obtain ⟨m, hm, hrest⟩ := ih
    have hx : x ≠ ra := by
      intro heq
      subst heq
      rw [ha, Option.some.injEq] at hp
      exact hpne hp.symm
    refine ⟨m + 1, Nat.succ_le_succ hm, .step ?_ hpne hrest⟩
    rw [HashTable.lookup_insert_eq, if_neg hx, hp]

theorem sameRoot_insert_root {parent : Forest κ} {d : Nat} {ra rb : κ}
    (ha : parent.lookup ra = some ra) (hb : parent.lookup rb = some rb) (hne : ra ≠ rb)
    (hd : Shallow d parent) {x y : κ}
    : SameRoot (parent.insert ra rb) x y
        ↔
      SameRoot parent x y ∨ (SameRoot parent x ra ∧ SameRoot parent rb y)
        ∨ (SameRoot parent x rb ∧ SameRoot parent ra y) := by
  have hmem : ∀ z, z ∈ parent.insert ra rb → z ∈ parent := by
    intro z hz
    rw [AList.mem_insert] at hz
    cases hz with
    | inl heq => rw [heq]; exact (Reaches.root ha).mem
    | inr hz => exact hz
  have hra : SameRoot (parent.insert ra rb) ra rb := by
    obtain ⟨m, _, hx⟩ := (Reaches.root ha).insert_root ha hb hne
    obtain ⟨n, _, hy⟩ := (Reaches.root hb).insert_root ha hb hne
    rw [if_pos rfl] at hx
    rw [if_neg (Ne.symm hne)] at hy
    exact ⟨rb, m, n, hx, hy⟩
  have hkeep : ∀ u v, SameRoot parent u v → SameRoot (parent.insert ra rb) u v := by
    intro u v huv
    obtain ⟨r, m, n, hu, hv⟩ := huv
    obtain ⟨m', _, hu⟩ := hu.insert_root ha hb hne
    obtain ⟨n', _, hv⟩ := hv.insert_root ha hb hne
    exact ⟨_, m', n', hu, hv⟩
  constructor
  . intro hxy
    obtain ⟨r, m, n, hx, hy⟩ := hxy
    obtain ⟨m₀, _, rx, hx₀⟩ := hd x (hmem x hx.mem)
    obtain ⟨n₀, _, ry, hy₀⟩ := hd y (hmem y hy.mem)
    obtain ⟨_, _, hx'⟩ := hx₀.insert_root ha hb hne
    obtain ⟨_, _, hy'⟩ := hy₀.insert_root ha hb hne
    have heq : (if rx = ra then rb else rx) = if ry = ra then rb else ry := by
      rw [← (hx.unique hx').2, ← (hy.unique hy').2]
    split at heq
    . next hrx =>
      subst hrx
      split at heq
      . next hry =>
        subst hry
        exact .inl ⟨ry, m₀, n₀, hx₀, hy₀⟩
      . subst heq
        exact .inr (.inl ⟨⟨rx, m₀, 0, hx₀, .root ha⟩, ⟨rb, 0, n₀, .root hb, hy₀⟩⟩)
    . split at heq
      . next hry =>
        subst hry
        subst heq
        exact .inr (.inr ⟨⟨rx, m₀, 0, hx₀, .root hb⟩, ⟨ry, 0, n₀, .root ha, hy₀⟩⟩)
      . subst heq
        exact .inl ⟨rx, m₀, n₀, hx₀, hy₀⟩
  . intro hxy
    rcases hxy with hxy | ⟨hx, hy⟩ | ⟨hx, hy⟩
    . exact hkeep x y hxy
    . exact ((hkeep _ _ hx).trans hra).trans (hkeep _ _ hy)
    . exact ((hkeep _ _ hx).trans hra.symm).trans (hkeep _ _ hy)

-- What a union keeps and what it adds, in a forest that is shallow enough for the fuel.
structure Joins (d : Nat) (parent parent' : Forest κ) (a b : κ) : Prop where
  shallow : Shallow (d + 1) parent'
  keys : ∀ x, x ∈ parent' ↔ x ∈ parent
  sameRoot : ∀ x y, SameRoot parent' x y
    ↔ SameRoot parent x y ∨ (SameRoot parent x a ∧ SameRoot parent b y)
      ∨ (SameRoot parent x b ∧ SameRoot parent a y)

theorem union_spec {parent : Forest κ} {d fuel : Nat} {a b : κ} (hd : Shallow d parent)
    (hfuel : d < fuel) (ha : a ∈ parent) (hb : b ∈ parent)
    : Joins d parent (union fuel parent a b) a b := by
  obtain ⟨n, hn, ra, hra⟩ := hd a ha
  obtain ⟨hfinda, hcompa⟩ := find_spec hra (Nat.lt_of_le_of_lt hn hfuel)
  obtain ⟨n', hn', rb, hrb⟩ := hcompa.shallow hd b ((hcompa.keys b).mpr hb)
  obtain ⟨hfindb, hcompb⟩ := find_spec hrb (Nat.lt_of_le_of_lt hn' hfuel)
  have hcomp := hcompa.trans hcompb
  have hshallow := hcomp.shallow hd
  obtain ⟨m, _, hra'⟩ := hcomp.reaches _ _ _ hra
  obtain ⟨m', _, hrb'⟩ := hcompb.reaches _ _ _ hrb
  have hroota := hra'.root_lookup
  have hrootb := hrb'.root_lookup
  have hsa : ∀ x, SameRoot (find fuel (find fuel parent a).2 b).2 x ra ↔ SameRoot parent x a := by
    intro x
    rw [← hcomp.sameRoot_iff hd]
    have h : SameRoot (find fuel (find fuel parent a).2 b).2 ra a :=
      ⟨ra, 0, m, .root hroota, hra'⟩
    exact ⟨fun hx => hx.trans h, fun hx => hx.trans h.symm⟩
  have hsb : ∀ x, SameRoot (find fuel (find fuel parent a).2 b).2 x rb ↔ SameRoot parent x b := by
    intro x
    rw [← hcomp.sameRoot_iff hd]
    have h : SameRoot (find fuel (find fuel parent a).2 b).2 rb b :=
      ⟨rb, 0, m', .root hrootb, hrb'⟩
    exact ⟨fun hx => hx.trans h, fun hx => hx.trans h.symm⟩
  have hsymm : ∀ (f : Forest κ) u v, SameRoot f u v ↔ SameRoot f v u :=
    fun _ _ _ => ⟨SameRoot.symm, SameRoot.symm⟩
  unfold union
  simp only [hfinda, hfindb]
  split
  . next hne =>
    have hmem : ra ∈ (find fuel (find fuel parent a).2 b).2 := (Reaches.root hroota).mem
    constructor
    . intro x hx
      rw [AList.mem_insert] at hx
      have hx' : x ∈ (find fuel (find fuel parent a).2 b).2 := by
        cases hx with
        | inl heq => rw [heq]; exact hmem
        | inr hx => exact hx
      obtain ⟨k, hk, r, hr⟩ := hshallow x hx'
      obtain ⟨k', hk', hr'⟩ := hr.insert_root hroota hrootb hne
      exact ⟨k', by omega, _, hr'⟩
    . intro x
      rw [AList.mem_insert, ← hcomp.keys]
      constructor
      . intro hx
        cases hx with
        | inl heq => rw [heq]; exact hmem
        | inr hx => exact hx
      . exact .inr
    . intro x y
      rw [sameRoot_insert_root hroota hrootb hne hshallow, hcomp.sameRoot_iff hd, hsa x, hsb x,
        hsymm _ rb y, hsymm _ ra y, hsa y, hsb y, hsymm _ y a, hsymm _ y b]
  . next heq =>
    rw [ne_eq, not_not] at heq
    subst heq
    constructor
    . intro x hx
      obtain ⟨k, hk, r, hr⟩ := hshallow x hx
      exact ⟨k, by omega, r, hr⟩
    . exact hcomp.keys
    . intro x y
      have hab : SameRoot parent a b := by
        rw [← hcomp.sameRoot_iff hd]
        exact ⟨ra, m, m', hra', hrb'⟩
      rw [hcomp.sameRoot_iff hd]
      constructor
      . exact .inl
      . intro hxy
        rcases hxy with hxy | ⟨hx, hy⟩ | ⟨hx, hy⟩
        . exact hxy
        . exact (hx.trans hab).trans hy
        . exact (hx.trans hab.symm).trans hy

theorem lookup_singletons {xs : List κ} {x : κ} (hx : x ∈ singletons xs)
    : (singletons xs).lookup x = some x := by
  obtain ⟨y, hy⟩ := Option.isSome_iff_exists.mp (AList.lookup_isSome.mpr hx)
  have hmem := HashTable.mem_of_lookup_ofList hy
  rw [List.mem_map] at hmem
  obtain ⟨z, _, hz⟩ := hmem
  simp only [Prod.mk.injEq] at hz
  rw [hy, ← hz.1, ← hz.2]

theorem mem_singletons {xs : List κ} {x : κ} : x ∈ singletons xs ↔ x ∈ xs := by
  unfold singletons
  rw [HashTable.mem_ofList]
  simp

theorem shallow_singletons (xs : List κ) : Shallow 0 (singletons xs) := by
  intro x hx
  exact ⟨0, Nat.le_refl 0, x, .root (lookup_singletons hx)⟩

def unions (fuel : Nat) (parent : Forest κ) (links : List (κ × κ)) : Forest κ :=
  links.foldl
    (fun parent e => if e.1 ∈ parent ∧ e.2 ∈ parent then union fuel parent e.1 e.2 else parent)
    parent

def Linked (parent : Forest κ) (links : List (κ × κ)) (x y : κ) : Prop :=
  x ∈ parent ∧ y ∈ parent ∧ ((x, y) ∈ links ∨ (y, x) ∈ links)

def SameOrLinked (parent : Forest κ) (links : List (κ × κ)) (x y : κ) : Prop :=
  SameRoot parent x y ∨ Linked parent links x y

theorem transGen_sameOrLinked_cons {parent : Forest κ} {d fuel : Nat} (hd : Shallow d parent)
    (hfuel : d < fuel) {a b : κ} (ha : a ∈ parent) (hb : b ∈ parent) (links : List (κ × κ)) (x y : κ)
    : Relation.TransGen (SameOrLinked (union fuel parent a b) links) x y
        ↔
      Relation.TransGen (SameOrLinked parent ((a, b) :: links)) x y := by
  have hjoin := union_spec hd hfuel ha hb
  constructor
  . have hab : SameOrLinked parent ((a, b) :: links) a b :=
      .inr ⟨ha, hb, .inl List.mem_cons_self⟩
    have hba : SameOrLinked parent ((a, b) :: links) b a :=
      .inr ⟨hb, ha, .inr List.mem_cons_self⟩
    have hstep : ∀ u v, SameOrLinked (union fuel parent a b) links u v
        → Relation.TransGen (SameOrLinked parent ((a, b) :: links)) u v := by
      intro u v huv
      cases huv with
      | inl hsame =>
        rcases (hjoin.sameRoot u v).mp hsame with h | ⟨hu, hv⟩ | ⟨hu, hv⟩
        . exact .single (.inl h)
        . exact ((Relation.TransGen.single (.inl hu)).tail hab).tail (.inl hv)
        . exact ((Relation.TransGen.single (.inl hu)).tail hba).tail (.inl hv)
      | inr hlink =>
        obtain ⟨hu, hv, hmem⟩ := hlink
        refine .single (.inr ⟨(hjoin.keys u).mp hu, (hjoin.keys v).mp hv, ?_⟩)
        exact hmem.imp (List.mem_cons_of_mem _) (List.mem_cons_of_mem _)
    intro h
    induction h with
    | single h => exact hstep _ _ h
    | tail _ h ih => exact ih.trans (hstep _ _ h)
  . apply Relation.TransGen.mono
    intro u v huv
    cases huv with
    | inl hsame => exact .inl ((hjoin.sameRoot u v).mpr (.inl hsame))
    | inr hlink =>
      obtain ⟨hu, hv, hmem⟩ := hlink
      rw [List.mem_cons, List.mem_cons, Prod.mk.injEq, Prod.mk.injEq] at hmem
      rcases hmem with (⟨rfl, rfl⟩ | hmem) | (⟨rfl, rfl⟩ | hmem)
      . exact .inl ((hjoin.sameRoot u v).mpr (.inr (.inl ⟨.refl hd hu, .refl hd hv⟩)))
      . exact .inr ⟨(hjoin.keys u).mpr hu, (hjoin.keys v).mpr hv, .inl hmem⟩
      . exact .inl ((hjoin.sameRoot u v).mpr (.inr (.inr ⟨.refl hd hu, .refl hd hv⟩)))
      . exact .inr ⟨(hjoin.keys u).mpr hu, (hjoin.keys v).mpr hv, .inr hmem⟩

-- Each union makes the forest at most one step deeper, so fuel for their number suffices.
theorem unions_spec (links : List (κ × κ)) {parent : Forest κ} {d fuel : Nat}
    (hd : Shallow d parent) (hfuel : d + links.length < fuel)
    : Shallow (d + links.length) (unions fuel parent links)
      ∧ (∀ x, x ∈ unions fuel parent links ↔ x ∈ parent)
      ∧ ∀ x y, SameRoot (unions fuel parent links) x y
          ↔ Relation.TransGen (SameOrLinked parent links) x y := by
  induction links generalizing parent d with
  | nil =>
    refine ⟨hd, fun _ => Iff.rfl, ?_⟩
    intro x y
    constructor
    . intro h
      exact .single (.inl h)
    . have hstep : ∀ u v, SameOrLinked parent [] u v → SameRoot parent u v := by
        intro u v huv
        simpa [SameOrLinked, Linked] using huv
      intro h
      induction h with
      | single h => exact hstep _ _ h
      | tail _ h ih => exact SameRoot.trans ih (hstep _ _ h)
  | cons e links ih =>
    rw [List.length_cons] at hfuel ⊢
    simp only [unions, List.foldl_cons]
    split
    . next hmem =>
      have hfuel' : d < fuel := by omega
      have hjoin := union_spec hd hfuel' hmem.1 hmem.2
      obtain ⟨hshallow, hkeys, hsame⟩ := ih (d := d + 1) hjoin.shallow (by omega)
      refine ⟨?_, ?_, ?_⟩
      . intro x hx
        obtain ⟨n, hn, hr⟩ := hshallow x hx
        exact ⟨n, by omega, hr⟩
      . intro x
        exact (hkeys x).trans (hjoin.keys x)
      . intro x y
        exact (hsame x y).trans (transGen_sameOrLinked_cons hd hfuel' hmem.1 hmem.2 links x y)
    . next hmem =>
      obtain ⟨hshallow, hkeys, hsame⟩ := ih (d := d) hd (by omega)
      refine ⟨?_, hkeys, ?_⟩
      . intro x hx
        obtain ⟨n, hn, hr⟩ := hshallow x hx
        exact ⟨n, by omega, hr⟩
      . intro x y
        refine (hsame x y).trans ?_
        have heq : SameOrLinked parent (e :: links) = SameOrLinked parent links := by
          funext u v
          apply propext
          unfold SameOrLinked Linked
          rw [List.mem_cons, List.mem_cons]
          have h₁ : u ∈ parent → v ∈ parent → (u, v) ≠ e := by
            rintro hu hv rfl
            exact hmem ⟨hu, hv⟩
          have h₂ : u ∈ parent → v ∈ parent → (v, u) ≠ e := by
            rintro hu hv rfl
            exact hmem ⟨hv, hu⟩
          tauto
        rw [heq]

theorem eq_of_sameRoot_singletons {xs : List κ} {x y : κ} (h : SameRoot (singletons xs) x y)
    : x = y := by
  obtain ⟨r, m, n, hx, hy⟩ := h
  have h₁ := hx.unique (.root (lookup_singletons hx.mem))
  have h₂ := hy.unique (.root (lookup_singletons hy.mem))
  rw [← h₁.2, ← h₂.2]

-- After all the unions, two points have one root exactly if a path of links joins them.
theorem sameRoot_unions_singletons (xs : List κ) (links : List (κ × κ)) {fuel : Nat}
    (hfuel : links.length < fuel) (x y : κ)
    : SameRoot (unions fuel (singletons xs) links) x y
        ↔
      x ∈ xs ∧ Relation.ReflTransGen (Linked (singletons xs) links) x y := by
  obtain ⟨_, _, hsame⟩ := unions_spec links (shallow_singletons xs) (by rw [Nat.zero_add]; exact hfuel)
  rw [hsame]
  constructor
  . intro h
    induction h with
    | single h =>
      cases h with
      | inl h =>
        have heq := eq_of_sameRoot_singletons h
        obtain ⟨r, m, n, hx, hy⟩ := h
        rw [← heq]
        exact ⟨mem_singletons.mp hx.mem, .refl⟩
      | inr h => exact ⟨mem_singletons.mp h.1, .single h⟩
    | tail _ h ih =>
      refine ⟨ih.1, ?_⟩
      cases h with
      | inl h =>
        rw [← eq_of_sameRoot_singletons h]
        exact ih.2
      | inr h => exact ih.2.tail h
  . intro h
    obtain ⟨hx, hpath⟩ := h
    have hself : Relation.TransGen (SameOrLinked (singletons xs) links) x x :=
      .single (.inl (.refl (shallow_singletons xs) (mem_singletons.mpr hx)))
    induction hpath with
    | refl => exact hself
    | tail _ h ih => exact ih.tail (.inr h)

section Checked

-- `find` as it stands, with nothing made up for a missing key or an empty tank.
def find? : Nat → Forest κ → κ → Option (κ × Forest κ)
  | 0, _, _ => none
  | fuel + 1, parent, x =>
    match parent.lookup x with
    | none => none
    | some p =>
      if p = x then
        some (x, parent)
      else
        (find? fuel parent p).map fun r => (r.1, r.2.insert x r.1)

def union? (fuel : Nat) (parent : Forest κ) (a b : κ) : Option (Forest κ) := do
  let (ra, parent) ← find? fuel parent a
  let (rb, parent) ← find? fuel parent b
  return if ra ≠ rb then parent.insert ra rb else parent

def unions? (fuel : Nat) (parent : Forest κ) (links : List (κ × κ)) : Option (Forest κ) :=
  links.foldlM
    (fun parent e =>
      if e.1 ∈ parent ∧ e.2 ∈ parent then union? fuel parent e.1 e.2 else some parent)
    parent

theorem find?_eq_some {parent : Forest κ} {n : Nat} {x r : κ} (h : Reaches parent n x r) {fuel : Nat}
    (hfuel : n < fuel)
    : find? fuel parent x = some (find fuel parent x) := by
  induction h generalizing fuel with
  | root hr =>
    cases fuel with
    | zero => omega
    | succ fuel =>
      unfold find? find
      rw [hr]
      simp only [if_true]
  | step hp hne _ ih =>
    cases fuel with
    | zero => omega
    | succ fuel =>
      unfold find? find
      rw [hp]
      simp only [if_neg hne]
      rw [ih (Nat.lt_of_succ_lt_succ hfuel), Option.map_some]

theorem union?_eq_some {parent : Forest κ} {d fuel : Nat} {a b : κ} (hd : Shallow d parent)
    (hfuel : d < fuel) (ha : a ∈ parent) (hb : b ∈ parent)
    : union? fuel parent a b = some (union fuel parent a b) := by
  obtain ⟨n, hn, ra, hra⟩ := hd a ha
  have hfinda := find?_eq_some hra (Nat.lt_of_le_of_lt hn hfuel)
  obtain ⟨_, hcomp⟩ := find_spec hra (Nat.lt_of_le_of_lt hn hfuel)
  obtain ⟨n', hn', rb, hrb⟩ := hcomp.shallow hd b ((hcomp.keys b).mpr hb)
  have hfindb := find?_eq_some hrb (Nat.lt_of_le_of_lt hn' hfuel)
  unfold union? union
  rw [hfinda]
  simp only [Option.bind_eq_bind, Option.bind_some]
  rw [hfindb]
  rfl

theorem unions?_eq_some (links : List (κ × κ)) {parent : Forest κ} {d fuel : Nat}
    (hd : Shallow d parent) (hfuel : d + links.length < fuel)
    : unions? fuel parent links = some (unions fuel parent links) := by
  induction links generalizing parent d with
  | nil => rfl
  | cons e links ih =>
    rw [List.length_cons] at hfuel
    have hfuel' : d < fuel := by omega
    unfold unions? unions
    rw [List.foldlM_cons, List.foldl_cons]
    by_cases hmem : e.1 ∈ parent ∧ e.2 ∈ parent
    . have hjoin := union_spec hd hfuel' hmem.1 hmem.2
      rw [if_pos hmem, if_pos hmem, union?_eq_some hd hfuel' hmem.1 hmem.2]
      exact ih hjoin.shallow (by omega)
    . rw [if_neg hmem, if_neg hmem]
      exact ih hd (by omega)

end Checked

end Forest
