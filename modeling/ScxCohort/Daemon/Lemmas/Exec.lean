import ScxCohort.Daemon.Scheduler

/-!
This module contains the daemon's programs as functions of its state and the maps, for ticks that
nothing interferes with.
-/

namespace Daemon

def exec {α : Type} (p : DaemonM α) (d : Scheduler) (s : Maps)
    : Except MapErr (α × Scheduler) × Maps :=
  (p d).run.run s

variable {α β : Type} (d : Scheduler) (s : Maps)

@[simp]
theorem exec_pure (a : α) : exec (pure a) d s = (.ok (a, d), s) := rfl

@[simp]
theorem exec_get : exec get d s = (.ok (d, d), s) := rfl

@[simp]
theorem exec_set (d' : Scheduler) : exec (set d') d s = (.ok (⟨⟩, d'), s) := rfl

@[simp]
theorem exec_modify (f : Scheduler → Scheduler) : exec (modify f) d s = (.ok (⟨⟩, f d), s) := rfl

@[simp]
theorem exec_attempt (p : BpfM α) : exec (attempt p) d s = (.ok ((p.run s).1, d), (p.run s).2) := by
  unfold exec attempt
  simp

@[simp]
theorem exec_require (p : BpfM (Except MapErr α))
    : exec (require p) d s = ((p.run s).1.map fun a => (a, d), (p.run s).2) := by
  unfold exec require
  simp

theorem exec_bind (p : DaemonM α) (f : α → DaemonM β)
    : exec (p >>= f) d s
        =
      match exec p d s with
      | (.ok (a, d'), s') => exec (f a) d' s'
      | (.error e, s') => (.error e, s') := by
  have hbind : (p >>= f) d = p d >>= fun r => f r.1 r.2 := rfl
  unfold exec
  rw [hbind, ExceptT.run_bind, Proc.run_bind]
  generalize (p d).run.run s = r
  obtain ⟨r, s'⟩ := r
  cases r with
  | ok r => rfl
  | error e => rfl

theorem exec_bind_ok {p : DaemonM α} {f : α → DaemonM β} {d d' : Scheduler} {s s' : Maps} {a : α}
    (h : exec p d s = (.ok (a, d'), s'))
    : exec (p >>= f) d s = exec (f a) d' s' := by
  rw [exec_bind, h]

theorem exec_forM_cons_ok {f : α → DaemonM PUnit} {a : α} {l : List α} {d d' : Scheduler}
    {s s' : Maps} (h : exec (f a) d s = (.ok (⟨⟩, d'), s'))
    : exec ((a :: l).forM f) d s = exec (l.forM f) d' s' :=
  exec_bind_ok h

section Inversion

variable {d d' : Scheduler} {s s' : Maps} {p : DaemonM α}

theorem exec_inj {a b : α} {d₁ d₂ : Scheduler} {s₁ s₂ : Maps} (h : exec p d s = (.ok (a, d₁), s₁))
    (h' : exec p d s = (.ok (b, d₂), s₂)) : b = a ∧ d₂ = d₁ ∧ s₂ = s₁ := by
  rw [h', Prod.mk.injEq, Except.ok.injEq, Prod.mk.injEq, and_assoc] at h
  exact h

theorem exec_bind_inv {f : α → DaemonM β} {b : β} (h : exec (p >>= f) d s = (.ok (b, d'), s'))
    : ∃ a d₁ s₁, exec p d s = (.ok (a, d₁), s₁) ∧ exec (f a) d₁ s₁ = (.ok (b, d'), s') := by
  rw [exec_bind] at h
  split at h
  . next a d₁ s₁ heq => exact ⟨a, d₁, s₁, heq, h⟩
  . next e s₁ heq =>
    simp only [Prod.mk.injEq, reduceCtorEq, false_and] at h

theorem exec_require_inv {q : BpfM (Except MapErr α)} {a : α}
    (h : exec (require q) d s = (.ok (a, d'), s'))
    : d' = d ∧ q.run s = (.ok a, s') := by
  rw [exec_require, Prod.mk.injEq] at h
  obtain ⟨hr, hs⟩ := h
  cases hq : (q.run s).1 with
  | error e =>
    rw [hq] at hr
    contradiction
  | ok b =>
    rw [hq] at hr
    simp only [Except.map, Except.ok.injEq, Prod.mk.injEq] at hr
    refine ⟨hr.2.symm, ?_⟩
    rw [← hr.1, ← hq, ← hs]

-- Whatever a program does when it returns.
def Carries (G : Scheduler → Maps → Scheduler → Maps → Prop) (p : DaemonM α) : Prop :=
  ∀ d s a d' s', exec p d s = (.ok (a, d'), s') → G d s d' s'

end Inversion

section Carries

variable {G : Scheduler → Maps → Scheduler → Maps → Prop} {p : DaemonM α}

theorem carries_pure {a : α} (hrefl : ∀ d s, G d s d s) : Carries G (pure a : DaemonM α) := by
  intro d s a' d' s' h
  simp only [exec_pure, Prod.mk.injEq, Except.ok.injEq] at h
  obtain ⟨⟨_, rfl⟩, rfl⟩ := h
  apply hrefl

theorem carries_get (hrefl : ∀ d s, G d s d s) : Carries G (get : DaemonM Scheduler) := by
  intro d s a' d' s' h
  simp only [exec_get, Prod.mk.injEq, Except.ok.injEq] at h
  obtain ⟨⟨_, rfl⟩, rfl⟩ := h
  apply hrefl

theorem carries_modify {f : Scheduler → Scheduler} (h : ∀ d s, G d s (f d) s)
    : Carries G (modify f : DaemonM PUnit) := by
  intro d s a' d' s' hexec
  simp only [exec_modify, Prod.mk.injEq, Except.ok.injEq] at hexec
  obtain ⟨⟨_, rfl⟩, rfl⟩ := hexec
  apply h

theorem carries_attempt {q : BpfM α} (h : ∀ d s, G d s d (q.run s).2) : Carries G (attempt q) := by
  intro d s a d' s' hexec
  simp only [exec_attempt, Prod.mk.injEq, Except.ok.injEq] at hexec
  obtain ⟨⟨_, rfl⟩, rfl⟩ := hexec
  apply h

theorem carries_require {q : BpfM (Except MapErr α)} (h : ∀ d s, G d s d (q.run s).2)
    : Carries G (require q) := by
  intro d s a d' s' hexec
  obtain ⟨rfl, hrun⟩ := exec_require_inv hexec
  have := h d' s
  rw [hrun] at this
  exact this

-- A state that was read may be written back changed.
theorem carries_get_bind {f : Scheduler → DaemonM β}
    (hf : ∀ d s b d' s', exec (f d) d s = (.ok (b, d'), s') → G d s d' s')
    : Carries G (get >>= f) := by
  intro d s b d' s' h
  rw [exec_bind_ok (exec_get d s)] at h
  exact hf d s b d' s' h

variable (htrans : ∀ d₁ s₁ d₂ s₂ d₃ s₃, G d₁ s₁ d₂ s₂ → G d₂ s₂ d₃ s₃ → G d₁ s₁ d₃ s₃)

include htrans

theorem carries_bind {f : α → DaemonM β} (hp : Carries G p) (hf : ∀ a, Carries G (f a))
    : Carries G (p >>= f) := by
  intro d s b d' s' h
  obtain ⟨a, d₁, s₁, h₁, h₂⟩ := exec_bind_inv h
  exact htrans _ _ _ _ _ _ (hp _ _ _ _ _ h₁) (hf a _ _ _ _ _ h₂)

theorem carries_forM {f : α → DaemonM PUnit} {l : List α} (hrefl : ∀ d s, G d s d s)
    (hf : ∀ a ∈ l, Carries G (f a))
    : Carries G (l.forM f) := by
  induction l with
  | nil => exact carries_pure hrefl
  | cons a l ih =>
    apply carries_bind htrans (hf a List.mem_cons_self)
    intro _
    apply ih
    intro a' ha'
    exact hf a' (List.mem_cons_of_mem _ ha')

end Carries

end Daemon
