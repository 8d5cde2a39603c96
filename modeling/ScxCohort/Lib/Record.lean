import ScxCohort.Lib.Proc

/-!
This module contains programs whose actions are entered into a history. The history is part of the state
of such a program, so that what its actions guarantee may depend on everything that was done before.
-/

namespace Proc

variable {ℓ σ α β γ : Type}

def record (note : ℓ → σ → σ → γ → γ) : Proc ℓ σ α → Proc ℓ (σ × γ) α
  | .ret a => .ret a
  | .act l f k =>
    .act l (fun x => ((f x.1).1, (f x.1).2, note l x.1 (f x.1).2 x.2)) fun b => (k b).record note

variable {note : ℓ → σ → σ → γ → γ}

@[simp]
theorem record_pure (a : α) : record note (pure a : Proc ℓ σ α) = pure a := rfl

@[simp]
theorem record_atomic (l : ℓ) (f : σ → β × σ)
    : record note (atomic l f)
        =
      atomic l fun x => ((f x.1).1, (f x.1).2, note l x.1 (f x.1).2 x.2) := rfl

theorem record_bind (p : Proc ℓ σ α) (g : α → Proc ℓ σ β)
    : record note (p >>= g) = record note p >>= fun a => record note (g a) := by
  show record note (p.bind g) = (record note p).bind fun a => record note (g a)
  induction p with
  | ret a => rfl
  | act l f k ih =>
    simp only [Proc.bind, record]
    congr 1
    funext b
    exact ih b

theorem step?_record {p p' : Proc ℓ σ α} {l : ℓ} {s s' : σ} (h : p.step? s = some (l, p', s')) (c : γ)
    : (record note p).step? (s, c) = some (l, record note p', (s', note l s s' c)) := by
  cases p with
  | ret a => simp [step?] at h
  | act l f k =>
    simp only [step?, Option.some.injEq, Prod.mk.injEq] at h
    obtain ⟨rfl, rfl, rfl⟩ := h
    rfl

-- What an action does to the state of the program itself, and what is entered for it.
def Recorded (note : ℓ → σ → σ → γ → γ) (G : σ → σ → Prop) (x x' : σ × γ) : Prop :=
  ∃ l, G x.1 x'.1 ∧ x'.2 = note l x.1 x'.1 x.2

theorem Keeps.record {G : σ → σ → Prop} {p : Proc ℓ σ α} (h : p.Keeps G)
    : (record note p).Keeps (Recorded note G) := by
  induction p with
  | ret a => trivial
  | act l f k ih =>
    intro x
    constructor
    . exact ⟨l, (h x.1).1, rfl⟩
    . apply ih
      exact (h x.1).2

theorem Returns.record {Q : α → Prop} {p : Proc ℓ σ α} (h : p.Returns Q)
    : (record note p).Returns Q := by
  induction p with
  | ret a => exact h
  | act l f k ih =>
    intro x
    apply ih
    exact h x.1

theorem Returns.bind {Q : α → Prop} {R : β → Prop} {p : Proc ℓ σ α} {g : α → Proc ℓ σ β}
    (h : p.Returns Q)
    (hg : ∀ a, Q a → (g a).Returns R)
    : (p >>= g).Returns R := by
  show (p.bind g).Returns R
  induction p with
  | ret a => exact hg a h
  | act l f k ih =>
    intro s
    exact ih _ (h s)

theorem Safe.returns {T : Terms ℓ σ γ} {Q : α → σ → γ → Prop} {R : α → Prop} {p : Proc ℓ σ α} {s : σ}
    {c : γ} (h : p.Safe T Q s c) (hp : p.Returns R)
    : p.Safe T (fun a s c => R a ∧ Q a s c) s c := by
  induction p generalizing s c with
  | ret a =>
    intro s' c' hrely
    exact ⟨hp, h s' c' hrely⟩
  | act l f k ih =>
    intro s' c' hrely hallows
    obtain ⟨hguar, hk⟩ := h s' c' hrely hallows
    exact ⟨hguar, ih _ hk (hp s')⟩

end Proc
