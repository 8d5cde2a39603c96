import Mathlib.Logic.Basic
import Mathlib.Order.Defs.Unbundled

/-!
This module contains programs as sequences of atomic actions on a shared state. One program has two
readings: `Proc.run` executes all of its actions at once, `Proc.step?` executes the next one only, so
that the actions of other programs can fall in between. `Proc.Keeps` bounds what any action of a
program does, `Proc.Returns` what it ends with, and `Proc.Safe` is a rely-guarantee judgement about a
program that others interfere with.
-/

inductive Proc (ℓ σ α : Type) : Type 1 where
  | ret (a : α)
  | act {β : Type} (l : ℓ) (f : σ → β × σ) (k : β → Proc ℓ σ α)

namespace Proc

variable {ℓ σ α β γ : Type}

protected def bind : Proc ℓ σ α → (α → Proc ℓ σ β) → Proc ℓ σ β
  | .ret a, g => g a
  | .act l f k, g => .act l f (fun b => (k b).bind g)

instance : Monad (Proc ℓ σ) where
  pure := .ret
  bind := Proc.bind

def atomic (l : ℓ) (f : σ → β × σ) : Proc ℓ σ β := .act l f .ret

protected theorem bind_ret (p : Proc ℓ σ α) : p.bind .ret = p := by
  induction p with
  | ret a => rfl
  | act l f k ih =>
    simp only [Proc.bind]
    congr 1
    funext b
    exact ih b

protected theorem bind_assoc (p : Proc ℓ σ α) (g : α → Proc ℓ σ β) (h : β → Proc ℓ σ γ)
    : (p.bind g).bind h = p.bind (fun a => (g a).bind h) := by
  induction p with
  | ret a => rfl
  | act l f k ih =>
    simp only [Proc.bind]
    congr 1
    funext b
    exact ih b

instance : LawfulMonad (Proc ℓ σ) :=
  LawfulMonad.mk' _ Proc.bind_ret (fun _ _ => rfl) Proc.bind_assoc

section Run

def run : Proc ℓ σ α → σ → α × σ
  | .ret a, s => (a, s)
  | .act _ f k, s => (k (f s).1).run (f s).2

@[simp]
theorem run_pure (a : α) (s : σ) : run (pure a : Proc ℓ σ α) s = (a, s) := rfl

@[simp]
theorem run_atomic (l : ℓ) (f : σ → β × σ) (s : σ) : (atomic l f).run s = f s := rfl

@[simp]
theorem run_bind (p : Proc ℓ σ α) (g : α → Proc ℓ σ β) (s : σ)
    : (p >>= g).run s = (g (p.run s).1).run (p.run s).2 := by
  show (p.bind g).run s = _
  induction p generalizing s with
  | ret a => rfl
  | act l f k ih =>
    simp only [Proc.bind, run]
    rw [ih]

@[simp]
theorem run_map (g : α → β) (p : Proc ℓ σ α) (s : σ)
    : (g <$> p).run s = (g (p.run s).1, (p.run s).2) := by
  rw [map_eq_pure_bind, run_bind]
  rfl

end Run

section Step

def step? : Proc ℓ σ α → σ → Option (ℓ × Proc ℓ σ α × σ)
  | .ret _, _ => none
  | .act l f k, s => some (l, k (f s).1, (f s).2)

def isDone : Proc ℓ σ α → Bool
  | .ret _ => true
  | .act _ _ _ => false

end Step

section Keeps

variable {G : σ → σ → Prop}

-- Every action relates the state it finds, whichever that is, to the state it leaves.
def Keeps (G : σ → σ → Prop) : Proc ℓ σ α → Prop
  | .ret _ => True
  | .act _ f k => ∀ s, G s (f s).2 ∧ (k (f s).1).Keeps G

@[simp]
theorem keeps_pure (a : α) : Keeps G (pure a : Proc ℓ σ α) := trivial

theorem keeps_atomic {l : ℓ} {f : σ → β × σ} (h : ∀ s, G s (f s).2) : (atomic l f).Keeps G :=
  fun s => ⟨h s, trivial⟩

theorem keeps_bind {p : Proc ℓ σ α} {g : α → Proc ℓ σ β} (hp : p.Keeps G)
    (hg : ∀ a, (g a).Keeps G)
    : (p >>= g).Keeps G := by
  show (p.bind g).Keeps G
  induction p with
  | ret a => exact hg a
  | act l f k ih =>
    intro s
    constructor
    . exact (hp s).1
    . apply ih
      exact (hp s).2

-- The continuation of an action only has to be looked at for the results the action has.
theorem keeps_atomic_bind {l : ℓ} {f : σ → β × σ} {g : β → Proc ℓ σ α} (hf : ∀ s, G s (f s).2)
    (hg : ∀ s, (g (f s).1).Keeps G)
    : (atomic l f >>= g).Keeps G :=
  fun s => ⟨hf s, hg s⟩

-- What every action keeps, an uninterrupted run keeps.
theorem Keeps.run {p : Proc ℓ σ α} (hp : p.Keeps G) (hrefl : ∀ s, G s s)
    (htrans : ∀ a b c, G a b → G b c → G a c) (s : σ)
    : G s (p.run s).2 := by
  induction p generalizing s with
  | ret a => exact hrefl s
  | act l f k ih =>
    apply htrans
    . exact (hp s).1
    . apply ih
      exact (hp s).2

theorem Keeps.step {p p' : Proc ℓ σ α} {s s' : σ} {l : ℓ} (hp : p.Keeps G)
    (h : p.step? s = some (l, p', s'))
    : G s s' ∧ p'.Keeps G := by
  cases p with
  | ret a => simp [step?] at h
  | act l f k =>
    simp only [step?, Option.some.injEq, Prod.mk.injEq] at h
    obtain ⟨_, rfl, rfl⟩ := h
    exact hp s

theorem Keeps.mono {G' : σ → σ → Prop} {p : Proc ℓ σ α} (hp : p.Keeps G)
    (h : ∀ s s', G s s' → G' s s')
    : p.Keeps G' := by
  induction p with
  | ret a => trivial
  | act l f k ih =>
    intro s
    constructor
    . apply h
      exact (hp s).1
    . apply ih
      exact (hp s).2

end Keeps

section Returns

variable {Q : α → Prop}

-- Whatever the actions find, the result satisfies `Q`.
def Returns (Q : α → Prop) : Proc ℓ σ α → Prop
  | .ret a => Q a
  | .act _ f k => ∀ s, (k (f s).1).Returns Q

theorem returns_bind {R : β → Prop} {p : Proc ℓ σ α} {g : α → Proc ℓ σ β}
    (hg : ∀ a, (g a).Returns R)
    : (p >>= g).Returns R := by
  show (p.bind g).Returns R
  induction p with
  | ret a => exact hg a
  | act l f k ih =>
    intro s
    exact ih _

theorem Returns.step {p p' : Proc ℓ σ α} {s s' : σ} {l : ℓ} (hp : p.Returns Q)
    (h : p.step? s = some (l, p', s'))
    : p'.Returns Q := by
  cases p with
  | ret a => simp [step?] at h
  | act l f k =>
    simp only [step?, Option.some.injEq, Prod.mk.injEq] at h
    obtain ⟨_, rfl, _⟩ := h
    exact hp s

theorem Returns.run {p : Proc ℓ σ α} (hp : p.Returns Q) (s : σ) : Q (p.run s).1 := by
  induction p generalizing s with
  | ret a => exact hp
  | act l f k ih => exact ih _ (hp s) _

end Returns

-- The terms on which a program shares its state: what others may do to it, what the program's own
-- actions are allowed to do, what they then guarantee, and how they change a history `γ`.
structure Terms (ℓ σ γ : Type) where
  rely : σ → γ → σ → γ → Prop
  allows : ℓ → σ → γ → σ → Prop
  guar : σ → σ → Prop
  note : ℓ → σ → σ → γ → γ
  refl : ∀ s c, rely s c s c
  trans : ∀ s₁ c₁ s₂ c₂ s₃ c₃, rely s₁ c₁ s₂ c₂ → rely s₂ c₂ s₃ c₃ → rely s₁ c₁ s₃ c₃

section Safe

variable {γ : Type} {T : Terms ℓ σ γ} {Q : α → σ → γ → Prop}

-- However the others interfere, the actions that are allowed keep the guarantee, and the result
-- satisfies `Q`.
def Safe (T : Terms ℓ σ γ) (Q : α → σ → γ → Prop) : Proc ℓ σ α → σ → γ → Prop
  | .ret a, s, c => ∀ s' c', T.rely s c s' c' → Q a s' c'
  | .act l f k, s, c => ∀ s' c', T.rely s c s' c' → T.allows l s' c' (f s').2
    → T.guar s' (f s').2 ∧ (k (f s').1).Safe T Q (f s').2 (T.note l s' (f s').2 c')

theorem Safe.rely {p : Proc ℓ σ α} {s s' : σ} {c c' : γ} (h : p.Safe T Q s c)
    (hrely : T.rely s c s' c')
    : p.Safe T Q s' c' := by
  cases p with
  | ret a =>
    intro s'' c'' hrely'
    exact h s'' c'' (T.trans _ _ _ _ _ _ hrely hrely')
  | act l f k =>
    intro s'' c'' hrely'
    exact h s'' c'' (T.trans _ _ _ _ _ _ hrely hrely')

theorem Safe.mono {Q' : α → σ → γ → Prop} {p : Proc ℓ σ α} {s : σ} {c : γ} (h : p.Safe T Q s c)
    (hQ : ∀ a s c, Q a s c → Q' a s c)
    : p.Safe T Q' s c := by
  induction p generalizing s c with
  | ret a =>
    intro s' c' hrely
    exact hQ a s' c' (h s' c' hrely)
  | act l f k ih =>
    intro s' c' hrely hallows
    obtain ⟨hguar, hk⟩ := h s' c' hrely hallows
    exact ⟨hguar, ih _ hk⟩

theorem Safe.bind {p : Proc ℓ σ α} {g : α → Proc ℓ σ β} {R : β → σ → γ → Prop} {s : σ} {c : γ}
    (hp : p.Safe T Q s c) (hg : ∀ a s c, Q a s c → (g a).Safe T R s c)
    : (p >>= g).Safe T R s c := by
  show (p.bind g).Safe T R s c
  induction p generalizing s c with
  | ret a => exact hg a s c (hp s c (T.refl s c))
  | act l f k ih =>
    intro s' c' hrely hallows
    obtain ⟨hguar, hk⟩ := hp s' c' hrely hallows
    exact ⟨hguar, ih _ hk⟩

theorem Safe.step {p p' : Proc ℓ σ α} {s s' : σ} {c : γ} {l : ℓ} (h : p.Safe T Q s c)
    (hstep : p.step? s = some (l, p', s')) (hallows : T.allows l s c s')
    : T.guar s s' ∧ p'.Safe T Q s' (T.note l s s' c) := by
  cases p with
  | ret a => simp [step?] at hstep
  | act l f k =>
    simp only [step?, Option.some.injEq, Prod.mk.injEq] at hstep
    obtain ⟨rfl, rfl, rfl⟩ := hstep
    exact h s c (T.refl s c) hallows

-- Left to itself, and with a history that it does not change, a safe program ends with what it ensures.
theorem Safe.run {p : Proc ℓ σ α} {s : σ} {c : γ} (h : p.Safe T Q s c)
    (hallows : ∀ l s s', T.allows l s c s') (hnote : ∀ l s s', T.note l s s' c = c)
    : Q (p.run s).1 (p.run s).2 c := by
  induction p generalizing s with
  | ret a => exact h s c (T.refl s c)
  | act l f k ih =>
    obtain ⟨_, hk⟩ := h s c (T.refl s c) (hallows _ _ _)
    rw [hnote] at hk
    exact ih _ hk

-- What others do not break.
def Terms.Stable (T : Terms ℓ σ γ) (A : σ → γ → Prop) : Prop :=
  ∀ s c s' c', T.rely s c s' c' → A s c → A s' c'

theorem safe_pure {a : α} {A : σ → γ → Prop} (hA : T.Stable A) (hQ : ∀ s c, A s c → Q a s c) {s : σ}
    {c : γ} (h : A s c)
    : Safe T Q (pure a : Proc ℓ σ α) s c := by
  intro s' c' hrely
  exact hQ s' c' (hA s c s' c' hrely h)

theorem safe_atomic {l : ℓ} {f : σ → α × σ} {A : σ → γ → Prop} (hA : T.Stable A)
    (hQ : ∀ a, T.Stable (Q a))
    (hf : ∀ s c, A s c → T.allows l s c (f s).2
      → T.guar s (f s).2 ∧ Q (f s).1 (f s).2 (T.note l s (f s).2 c))
    {s : σ} {c : γ} (h : A s c)
    : (atomic l f).Safe T Q s c := by
  intro s' c' hrely hallows
  obtain ⟨hguar, hpost⟩ := hf s' c' (hA s c s' c' hrely h) hallows
  refine ⟨hguar, ?_⟩
  intro s'' c'' hrely'
  exact hQ _ _ _ _ _ hrely' hpost

theorem safe_of_keeps {G : σ → σ → Prop} {A : σ → γ → Prop} {p : Proc ℓ σ α} (hp : p.Keeps G)
    (hA : T.Stable A)
    (hG : ∀ l s c s', G s s' → A s c → T.guar s s' ∧ A s' (T.note l s s' c)) {s : σ} {c : γ}
    (h : A s c)
    : p.Safe T (fun _ => A) s c := by
  induction p generalizing s c with
  | ret a =>
    intro s' c' hrely
    exact hA s c s' c' hrely h
  | act l f k ih =>
    intro s' c' hrely _
    obtain ⟨hguar, hs'⟩ := hG l s' c' (f s').2 (hp s').1 (hA s c s' c' hrely h)
    exact ⟨hguar, ih _ (hp s').2 hs'⟩

end Safe

end Proc
