import ScxCohort.Daemon.Lemmas.Exec

/-!
This module contains triples about the daemon's programs while callbacks interfere with them. A program
that ends in an error has no postcondition, only its operations count.
-/

namespace Daemon

variable {α β γ : Type} (T : Proc.Terms Op Maps γ)

def Holds (P : Maps → γ → Prop) (p : DaemonM α) (Q : α → Maps → γ → Prop) : Prop :=
  ∀ d s c, P s c → (p d).run.Safe T (fun r s c => ∀ a d', r = .ok (a, d') → Q a s c) s c

variable {T} {P : Maps → γ → Prop} {Q : α → Maps → γ → Prop}

theorem holds_return {p : DaemonM α} (hP : T.Stable P)
    (h : ∀ d, ∃ a d', (p d).run = pure (.ok (a, d')) ∧ ∀ s c, P s c → Q a s c)
    : Holds T P p Q := by
  intro d s c hs
  obtain ⟨a, d', hrun, hQ⟩ := h d
  rw [hrun]
  refine Proc.safe_pure hP ?_ hs
  intro s' c' hs' b d'' heq
  simp only [Except.ok.injEq, Prod.mk.injEq] at heq
  rw [← heq.1]
  exact hQ s' c' hs'

theorem holds_pure {a : α} (hP : T.Stable P) (h : ∀ s c, P s c → Q a s c)
    : Holds T P (pure a) Q :=
  holds_return hP fun d => ⟨a, d, rfl, h⟩

theorem holds_get (hP : T.Stable P) : Holds T P get (fun _ => P) :=
  holds_return hP fun d => ⟨d, d, rfl, fun _ _ h => h⟩

theorem holds_set {d' : Scheduler} (hP : T.Stable P) : Holds T P (set d') (fun _ => P) :=
  holds_return hP fun _ => ⟨⟨⟩, d', rfl, fun _ _ h => h⟩

theorem holds_modify {f : Scheduler → Scheduler} (hP : T.Stable P)
    : Holds T P (modify f) (fun _ => P) :=
  holds_return hP fun d => ⟨⟨⟩, f d, rfl, fun _ _ h => h⟩

theorem holds_bind {p : DaemonM α} {f : α → DaemonM β} {R : β → Maps → γ → Prop}
    (hp : Holds T P p Q) (hf : ∀ a, Holds T (Q a) (f a) R)
    : Holds T P (p >>= f) R := by
  intro d s c hs
  have hbind : (p >>= f) d = p d >>= fun r => f r.1 r.2 := rfl
  rw [hbind, ExceptT.run_bind]
  apply (hp d s c hs).bind
  intro r s' c' hr
  cases r with
  | ok r => exact hf r.1 r.2 s' c' (hr r.1 r.2 rfl)
  | error e =>
    intro s'' c'' _ b d' heq
    contradiction

theorem Holds.mono {p : DaemonM α} {P' : Maps → γ → Prop} {Q' : α → Maps → γ → Prop}
    (h : Holds T P p Q) (hP : ∀ s c, P' s c → P s c) (hQ : ∀ a s c, Q a s c → Q' a s c)
    : Holds T P' p Q' := by
  intro d s c hs
  apply (h d s c (hP s c hs)).mono
  intro r s' c' hr a d' heq
  exact hQ a s' c' (hr a d' heq)

theorem Holds.exec {p : DaemonM α} (h : Holds T P p Q) {d d' : Scheduler} {s s' : Maps} {c : γ} {a : α}
    (hs : P s c) (hallows : ∀ l s s', T.allows l s c s') (hnote : ∀ l s s', T.note l s s' c = c)
    (hexec : exec p d s = (.ok (a, d'), s'))
    : Q a s' c := by
  have hrun := (h d s c hs).run hallows hnote
  unfold Daemon.exec at hexec
  rw [hexec] at hrun
  exact hrun a d' rfl

theorem stable_given {φ : Prop} (hP : T.Stable P) : T.Stable (fun s c => φ ∧ P s c) := by
  intro s c s' c' hrely h
  exact ⟨h.1, hP s c s' c' hrely h.2⟩

theorem holds_given {φ : Prop} {p : DaemonM α} (h : φ → Holds T P p Q)
    : Holds T (fun s c => φ ∧ P s c) p Q := by
  intro d s c hs
  exact h hs.1 d s c hs.2

theorem holds_attempt {l : Op} {f : Maps → α × Maps} (hP : T.Stable P) (hQ : ∀ a, T.Stable (Q a))
    (h : ∀ s c, P s c → T.allows l s c (f s).2
      → T.guar s (f s).2 ∧ Q (f s).1 (f s).2 (T.note l s (f s).2 c))
    : Holds T P (attempt (.atomic l f)) Q := by
  intro d s c hs
  show Proc.Safe T _ (Proc.atomic l f >>= fun a => pure (Except.ok (a, d))) s c
  apply (Proc.safe_atomic hP hQ h hs).bind
  intro a s' c' ha s'' c'' hrely b d' heq
  simp only [Except.ok.injEq, Prod.mk.injEq] at heq
  rw [← heq.1]
  exact hQ a _ _ _ _ hrely ha

theorem holds_require {l : Op} {f : Maps → Except MapErr α × Maps} (hP : T.Stable P)
    (hQ : ∀ a, T.Stable (Q a))
    (h : ∀ s c, P s c → T.allows l s c (f s).2
      → T.guar s (f s).2 ∧ ∀ a, (f s).1 = .ok a → Q a (f s).2 (T.note l s (f s).2 c))
    : Holds T P (require (.atomic l f)) Q := by
  intro d s c hs
  show Proc.Safe T _ (Proc.atomic l f >>= fun r => pure (r.map fun a => (a, d))) s c
  have hstable : ∀ r : Except MapErr α, T.Stable fun s c => ∀ a, r = .ok a → Q a s c := by
    intro r s c s' c' hrely hr a heq
    exact hQ a _ _ _ _ hrely (hr a heq)
  apply (Proc.safe_atomic hP hstable h hs).bind
  intro r s' c' hr s'' c'' hrely b d' heq
  cases r with
  | error e => contradiction
  | ok a =>
    simp only [Except.map, Except.ok.injEq, Prod.mk.injEq] at heq
    rw [← heq.1]
    exact hQ a _ _ _ _ hrely (hr a rfl)

section Update

variable {m : MapName} {upd : Maps → Except MapErr Maps}

theorem holds_attemptUpdate {f : Maps → Maps} {Q : Maps → γ → Prop}
    (hrun : ∀ s, ((Bpf.tryUpdate m upd).run s).2 = f s) (hP : T.Stable P) (hQ : T.Stable Q)
    (h : ∀ s c, P s c → T.allows (m, .update) s c (f s)
      → T.guar s (f s) ∧ Q (f s) (T.note (m, .update) s (f s) c))
    : Holds T P (attempt (Bpf.tryUpdate m upd)) (fun _ => Q) := by
  apply holds_attempt hP (fun _ => hQ)
  intro s c hs hallows
  have hrun := hrun s
  unfold Bpf.tryUpdate at hrun
  rw [Proc.run_atomic] at hrun
  rw [hrun] at hallows ⊢
  exact h s c hs hallows

theorem holds_requireUpdate {Q : Maps → γ → Prop} (hP : T.Stable P) (hQ : T.Stable Q)
    (hrefl : ∀ s c, P s c → T.guar s s)
    (h : ∀ s s' c, P s c → upd s = .ok s' → T.allows (m, .update) s c s'
      → T.guar s s' ∧ Q s' (T.note (m, .update) s s' c))
    : Holds T P (require (Bpf.tryUpdate m upd)) (fun _ => Q) := by
  apply holds_require hP (fun _ => hQ)
  intro s c hs hallows
  cases hupd : upd s with
  | error e =>
    refine ⟨hrefl s c hs, ?_⟩
    intro a ha
    contradiction
  | ok s' =>
    simp only [hupd] at hallows ⊢
    obtain ⟨hguar, hpost⟩ := h s s' c hs hupd hallows
    exact ⟨hguar, fun _ _ => hpost⟩

end Update

-- The assertion may change with the items that are left.
theorem holds_forM {I : List β → Maps → γ → Prop} {f : β → DaemonM PUnit} (l : List β)
    (hnil : T.Stable (I []))
    (hf : ∀ b rest, Holds T (I (b :: rest)) (f b) (fun _ => I rest))
    : Holds T (I l) (l.forM f) (fun _ => I []) := by
  induction l with
  | nil =>
    refine holds_pure hnil ?_
    intro s c hs
    exact hs
  | cons b rest ih =>
    apply holds_bind (hf b rest)
    intro _
    exact ih

theorem holds_forM_inv {f : β → DaemonM PUnit} {l : List β} (hP : T.Stable P)
    (hf : ∀ b ∈ l, Holds T P (f b) (fun _ => P))
    : Holds T P (l.forM f) (fun _ => P) := by
  induction l with
  | nil =>
    refine holds_pure hP ?_
    intro s c hs
    exact hs
  | cons b rest ih =>
    apply holds_bind (hf b List.mem_cons_self)
    intro _
    apply ih
    intro b' hb'
    exact hf b' (List.mem_cons_of_mem _ hb')

end Daemon
