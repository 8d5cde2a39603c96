import ScxCohort.Daemon.Lemmas.Frame
import ScxCohort.Daemon.System

/-!
This module contains what a turn of a callback, of a tick and of the daemon does, and how turns compose.
-/

namespace World

variable {g : Globals} {w : World}

theorem run_append (ts ts' : List Turn) : run g w (ts ++ ts') = run g (run g w ts) ts' :=
  List.foldl_append

theorem along_append (P : World → Turn → Bool) (ts ts' : List Turn)
    : along g P w (ts ++ ts') = (along g P w ts && along g P (run g w ts) ts') := by
  induction ts generalizing w with
  | nil => rfl
  | cons t ts ih =>
    rw [List.cons_append, along, along, ih, Bool.and_assoc]
    rfl

theorem next_callback_cases (g : Globals) (w : World) (i : Nat)
    : next g w (.callback i) = w
        ∨ ∃ cb op p s, w.callbacks[i]? = some cb ∧ cb.prog.step? w.maps = some (op, p, s)
          ∧ next g w (.callback i)
              =
            { w with
              maps := s
              entered := w.entered ++ enteredBy w.maps s
              callbacks := w.callbacks.set i
                { cb with held := noteTaken cb.event op w.maps s cb.held, prog := p } } := by
  unfold next
  dsimp only
  cases hcb : w.callbacks[i]? with
  | none => exact .inl rfl
  | some cb =>
    dsimp only
    cases hstep : cb.prog.step? w.maps with
    | none => exact .inl rfl
    | some after =>
      obtain ⟨op, p, s⟩ := after
      exact .inr ⟨cb, op, p, s, rfl, hstep, rfl⟩

theorem next_daemon_cases (g : Globals) (w : World)
    : next g w .daemon = w ∧ w.daemon.isDone = true
        ∨ ∃ op p s, w.daemon.step? w.maps = some (op, p, s)
          ∧ next g w .daemon = { w with maps := s, entered := noteRead op w.entered, daemon := p } := by
  unfold next
  dsimp only
  cases hd : w.daemon with
  | ret r => exact .inl ⟨rfl, rfl⟩
  | act l f k => exact .inr ⟨l, _, _, rfl, rfl⟩

theorem next_beginTick_cases (g : Globals) (w : World) (env : TickEnv)
    : next g w (.beginTick env) = w
        ∨ ∃ view d, w.daemon = .ret (.ok (view, d))
          ∧ next g w (.beginTick env) = { w with daemon := (Daemon.tick env d).run } := by
  unfold next
  dsimp only
  split
  . next view d hdone => exact .inr ⟨view, d, hdone, rfl⟩
  . exact .inl rfl

theorem next_call_cases (g : Globals) (w : World) (e : Bpf.Event)
    : next g w (.call e) = w
        ∨ e.isCallback = true
          ∧ next g w (.call e)
            = { w with callbacks := w.callbacks ++ [{ event := e, prog := e.prog g }] } := by
  unfold next
  dsimp only
  split
  . next he => exact .inr ⟨he, rfl⟩
  . exact .inl rfl

section Kept

-- The operations that are yet to come keep `C` if a callback takes them, and `D` if the daemon does.
structure Kept (C D : Maps → Maps → Prop) (w : World) : Prop where
  callbacks : ∀ cb ∈ w.callbacks, cb.prog.Keeps C
  daemon : w.daemon.Keeps D

-- What a turn does to the maps.
def Moves (C D : Maps → Maps → Prop) (s s' : Maps) : Turn → Prop
  | .callback _ => C s s'
  | .daemon => D s s'
  | _ => s' = s

variable {C D : Maps → Maps → Prop}

theorem kept_start (d : Scheduler) : Kept C D (start g d) := by
  constructor
  . intro cb hcb
    contradiction
  . trivial

variable (hC : ∀ e : Bpf.Event, e.isCallback = true → (e.prog g).Keeps C)
  (hD : ∀ env d, (Daemon.tick env d).run.Keeps D) (hCrefl : ∀ s, C s s) (hDrefl : ∀ s, D s s)

include hC hD hCrefl hDrefl

theorem Kept.next (h : Kept C D w) (t : Turn)
    : Kept C D (next g w t) ∧ Moves C D w.maps (World.next g w t).maps t := by
  cases t with
  | call e =>
    cases next_call_cases g w e with
    | inl hsame =>
      rw [hsame]
      exact ⟨h, rfl⟩
    | inr hcall =>
      rw [hcall.2]
      refine ⟨⟨?_, h.daemon⟩, rfl⟩
      intro cb hcb
      rw [List.mem_append, List.mem_singleton] at hcb
      cases hcb with
      | inl hcb => exact h.callbacks cb hcb
      | inr heq =>
        rw [heq]
        exact hC e hcall.1
  | callback i =>
    cases next_callback_cases g w i with
    | inl hsame =>
      rw [hsame]
      exact ⟨h, hCrefl _⟩
    | inr hstep =>
      obtain ⟨cb, op, p, s, hcb, hstep, hnext⟩ := hstep
      obtain ⟨hkeeps, hrest⟩ := (h.callbacks cb (List.mem_of_getElem? hcb)).step hstep
      rw [hnext]
      refine ⟨⟨?_, h.daemon⟩, hkeeps⟩
      intro cb' hcb'
      cases List.mem_or_eq_of_mem_set hcb' with
      | inl hcb' => exact h.callbacks cb' hcb'
      | inr heq =>
        rw [heq]
        exact hrest
  | beginTick env =>
    cases next_beginTick_cases g w env with
    | inl hsame =>
      rw [hsame]
      exact ⟨h, rfl⟩
    | inr hbegin =>
      obtain ⟨view, d, _, hbegin⟩ := hbegin
      rw [hbegin]
      exact ⟨⟨h.callbacks, hD env d⟩, rfl⟩
  | daemon =>
    cases next_daemon_cases g w with
    | inl hsame =>
      rw [hsame.1]
      exact ⟨h, hDrefl _⟩
    | inr hstep =>
      obtain ⟨op, p, s, hstep, hnext⟩ := hstep
      obtain ⟨hkeeps, hrest⟩ := h.daemon.step hstep
      rw [hnext]
      exact ⟨⟨h.callbacks, hrest⟩, hkeeps⟩

end Kept

end World
