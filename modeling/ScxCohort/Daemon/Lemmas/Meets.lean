import ScxCohort.Daemon.Lemmas.Exec
import ScxCohort.Lib.Record

/-!
This module contains triples about the daemon's programs that speak of its own state, of the maps and
of a history of its operations, while callbacks interfere. An error has a postcondition as well.
-/

namespace Daemon

-- What the daemon relies on and owes, what it may assume when an operation of its is due, and what holds
-- when a tick fails.
structure Pact (γ : Type) where
  note : Op → Maps → Maps → γ → γ
  rely : Maps × γ → Maps × γ → Prop
  allows : Maps × γ → Prop
  guar : Maps × γ → Maps × γ → Prop
  err : MapErr → Maps × γ → Prop
  refl : ∀ x, rely x x
  trans : ∀ x y z, rely x y → rely y z → rely x z
  errStable : ∀ e x y, rely x y → err e x → err e y

namespace Pact

variable {γ : Type} (T : Pact γ)

def terms : Proc.Terms Op (Maps × γ) Unit where
  rely := fun x _ y _ => T.rely x y
  allows := fun _ x _ _ => T.allows x
  guar := T.guar
  note := fun _ _ _ _ => ()
  refl := fun x _ => T.refl x
  trans := fun x _ y _ z _ => T.trans x y z

def Stable (P : Maps × γ → Prop) : Prop := ∀ x y, T.rely x y → P x → P y

def Ends {α : Type} (Q : α → Scheduler → Maps × γ → Prop) (x : Maps × γ)
    : Except MapErr (α × Scheduler) → Prop
  | .ok (a, d) => Q a d x
  | .error e => T.err e x

def Meets {α : Type} (P : Scheduler → Maps × γ → Prop) (p : DaemonM α)
    (Q : α → Scheduler → Maps × γ → Prop) : Prop :=
  ∀ d x, P d x → (Proc.record T.note (p d).run).Safe T.terms (fun r x _ => T.Ends Q x r) x ()

variable {T} {α β : Type} {P : Scheduler → Maps × γ → Prop} {Q : α → Scheduler → Maps × γ → Prop}

theorem stable_ends (hQ : ∀ a d, T.Stable (Q a d)) (r : Except MapErr (α × Scheduler))
    : T.Stable fun x => T.Ends Q x r := by
  intro x y hrely h
  cases r with
  | ok r => exact hQ r.1 r.2 x y hrely h
  | error e => exact T.errStable e x y hrely h

theorem meets_return {p : DaemonM α} (hQ : ∀ a d, T.Stable (Q a d))
    (h : ∀ d x, P d x → ∃ a d', (p d).run = pure (.ok (a, d')) ∧ Q a d' x)
    : T.Meets P p Q := by
  intro d x hx
  obtain ⟨a, d', hrun, hpost⟩ := h d x hx
  rw [hrun]
  intro y _ hrely
  exact hQ a d' x y hrely hpost

theorem meets_pure {a : α} (hQ : ∀ a d, T.Stable (Q a d)) (h : ∀ d x, P d x → Q a d x)
    : T.Meets P (pure a) Q :=
  meets_return hQ fun d x hx => ⟨a, d, rfl, h d x hx⟩

theorem meets_set {Q : PUnit → Scheduler → Maps × γ → Prop} {d' : Scheduler}
    (hQ : ∀ a d, T.Stable (Q a d)) (h : ∀ d x, P d x → Q ⟨⟩ d' x)
    : T.Meets P (set d') Q :=
  meets_return hQ fun d x hx => ⟨⟨⟩, d', rfl, h d x hx⟩

theorem meets_modify {Q : PUnit → Scheduler → Maps × γ → Prop} {f : Scheduler → Scheduler}
    (hQ : ∀ a d, T.Stable (Q a d)) (h : ∀ d x, P d x → Q ⟨⟩ (f d) x)
    : T.Meets P (modify f) Q :=
  meets_return hQ fun d x hx => ⟨⟨⟩, f d, rfl, h d x hx⟩

theorem Meets.mono {p : DaemonM α} {P' : Scheduler → Maps × γ → Prop}
    {Q' : α → Scheduler → Maps × γ → Prop} (h : T.Meets P p Q) (hP : ∀ d x, P' d x → P d x)
    (hQ : ∀ a d x, Q a d x → Q' a d x)
    : T.Meets P' p Q' := by
  intro d x hx
  apply (h d x (hP d x hx)).mono
  intro r y _ hr
  cases r with
  | ok r => exact hQ r.1 r.2 y hr
  | error e => exact hr

theorem meets_bind {p : DaemonM α} {f : α → DaemonM β} {R : β → Scheduler → Maps × γ → Prop}
    (hp : T.Meets P p Q) (hf : ∀ a, T.Meets (Q a) (f a) R)
    : T.Meets P (p >>= f) R := by
  intro d x hx
  have hbind : (p >>= f) d = p d >>= fun r => f r.1 r.2 := rfl
  rw [hbind, ExceptT.run_bind, Proc.record_bind]
  apply (hp d x hx).bind
  intro r y _ hr
  cases r with
  | ok r => exact hf r.1 r.2 y hr
  | error e =>
    intro z _ hrely
    exact T.errStable e y z hrely hr

-- A program that reads the daemon's state is looked at for each state there can be.
theorem meets_get_bind {f : Scheduler → DaemonM β} {R : β → Scheduler → Maps × γ → Prop}
    (hP : ∀ d, T.Stable (P d)) (hf : ∀ d, T.Meets (fun d' x => d' = d ∧ P d x) (f d) R)
    : T.Meets P (get >>= f) R := by
  apply meets_bind (Q := fun d d' x => d' = d ∧ P d x)
  . apply meets_return
    . intro a d x y hrely h
      exact ⟨h.1, hP a x y hrely h.2⟩
    . intro d x hx
      exact ⟨d, d, rfl, rfl, hx⟩
  . exact hf

theorem meets_attempt {l : Op} {f : Maps → α × Maps} (hP : ∀ d, T.Stable (P d))
    (hQ : ∀ a d, T.Stable (Q a d))
    (h : ∀ d x, P d x → T.allows x
      → T.guar x ((f x.1).2, T.note l x.1 (f x.1).2 x.2)
        ∧ Q (f x.1).1 d ((f x.1).2, T.note l x.1 (f x.1).2 x.2))
    : T.Meets P (attempt (.atomic l f)) Q := by
  intro d x hx
  have hrun : (attempt (.atomic l f) d).run = Proc.atomic l f >>= fun a => pure (.ok (a, d)) := rfl
  rw [hrun, Proc.record_bind, Proc.record_atomic]
  have hatomic : (Proc.atomic l fun x => ((f x.1).1, (f x.1).2, T.note l x.1 (f x.1).2 x.2)).Safe T.terms
      (fun a x _ => Q a d x) x () :=
    Proc.safe_atomic (A := fun x _ => P d x) (fun x _ y _ => hP d x y) (fun a x _ y _ => hQ a d x y)
      (fun x _ => h d x) hx
  apply hatomic.bind
  intro a y _ ha z _ hrely
  exact hQ a d y z hrely ha

theorem meets_require {l : Op} {f : Maps → Except MapErr α × Maps} (hP : ∀ d, T.Stable (P d))
    (hQ : ∀ a d, T.Stable (Q a d))
    (h : ∀ d x, P d x → T.allows x
      → T.guar x ((f x.1).2, T.note l x.1 (f x.1).2 x.2)
        ∧ T.Ends Q ((f x.1).2, T.note l x.1 (f x.1).2 x.2) ((f x.1).1.map fun a => (a, d)))
    : T.Meets P (require (.atomic l f)) Q := by
  intro d x hx
  have hrun : (require (.atomic l f) d).run
      = Proc.atomic l f >>= fun r => pure (r.map fun a => (a, d)) := rfl
  rw [hrun, Proc.record_bind, Proc.record_atomic]
  let R := fun (r : Except MapErr α) (x : Maps × γ) (_ : Unit) => T.Ends Q x (r.map fun a => (a, d))
  have hatomic : (Proc.atomic l fun x =>
      ((f x.1).1, (f x.1).2, T.note l x.1 (f x.1).2 x.2)).Safe T.terms R x
      () := by
    apply Proc.safe_atomic (A := fun x _ => P d x) (fun x _ y _ => hP d x y) _ (fun x _ => h d x) hx
    intro r x _ y _
    exact stable_ends hQ _ x y
  apply hatomic.bind
  intro r y _ hr z _ hrely
  exact stable_ends hQ _ y z hrely hr

theorem meets_requireUpdate {cap : Nat} {κ ν : Type} [DecidableEq κ] {name : MapName}
    {k : κ} {v : ν} {flag : UpdateFlag}
    {Q : PUnit → Scheduler → Maps × γ → Prop} (get : Maps → BoundedMap cap κ ν)
    (set : Maps → BoundedMap cap κ ν → Maps) (hP : ∀ d, T.Stable (P d))
    (hQ : ∀ a d, T.Stable (Q a d))
    (hok : ∀ d x m, P d x → T.allows x → (get x.1).update k v flag = .ok m
      → T.guar x (set x.1 m, T.note (name, .update) x.1 (set x.1 m) x.2)
        ∧ Q ⟨⟩ d (set x.1 m, T.note (name, .update) x.1 (set x.1 m) x.2))
    (herr : ∀ d x e, P d x → T.allows x → (get x.1).update k v flag = .error e
      → T.guar x (x.1, T.note (name, .update) x.1 x.1 x.2)
        ∧ T.err e (x.1, T.note (name, .update) x.1 x.1 x.2))
    : T.Meets P (require (Bpf.tryUpdate name fun s => return set s (← (get s).update k v flag))) Q := by
  apply meets_require hP hQ
  intro d x hx hallows
  dsimp only
  cases hupd : (get x.1).update k v flag with
  | ok m => exact hok d x m hx hallows hupd
  | error e => exact herr d x e hx hallows hupd

theorem meets_forM {f : β → DaemonM PUnit} {l : List β} (hP : ∀ d, T.Stable (P d))
    (hf : ∀ b ∈ l, T.Meets P (f b) (fun _ => P))
    : T.Meets P (l.forM f) (fun _ => P) := by
  induction l with
  | nil => exact meets_pure (fun _ => hP) fun _ _ hx => hx
  | cons b rest ih =>
    apply meets_bind (hf b List.mem_cons_self)
    intro _
    apply ih
    intro b' hb'
    exact hf b' (List.mem_cons_of_mem _ hb')

theorem meets_given {φ : Prop} {p : DaemonM α} (h : φ → T.Meets P p Q)
    : T.Meets (fun d x => φ ∧ P d x) p Q := by
  intro d x hx
  exact h hx.1 d x hx.2

end Pact

end Daemon
