import Mathlib.Data.List.Basic

/-!
# Runs of a labelled transition system

A step relation `step : σ → ε → σ → Prop` over states `σ` with event labels `ε`.  A `Run`
from `s₀` is a finite sequence of steps, recorded as the list of its events (oldest first)
and the state it ends in.  Nothing here is specific to one system.

* `Run.inv` / `Run.inv_trace` — the induction rules for an invariant of the state, and for an
  invariant that relates the state to the events that led to it (counting lemmas).
* `Run.refines` — the refinement rule: steps matched by an abstract system through a map of
  the states, from states where an invariant holds, give runs matched by abstract runs.
* `Run.append`, `Run.cons` — gluing runs; `Reachable` — some run ends in the state.
* `ActStep`, `replay` — the system of a partial step function, and the runs found by evaluating
  a schedule of its actions (`exists_run_of_replayEndsIn`).
* `Divergent` — a set of states that no step leaves and from which some step is always
  possible; `Divergent.runs` shows that every bound on the number of steps is exceeded there,
  so a system in such a set never gets out (a loop that does not terminate).
* `runCalls`, `runCalls_sim` — a component driven by a list of calls, each returning a value,
  and the simulation rule: two components that answer every admitted call alike from related
  states answer every run of such calls alike.
-/

set_option autoImplicit false

namespace Lts

variable {σ ε : Type} {step : σ → ε → σ → Prop}

/-- Finite runs of `step` from `s₀`: the events in order and the state reached. -/
inductive Run (step : σ → ε → σ → Prop) (s₀ : σ) : List ε → σ → Prop
  | nil : Run step s₀ [] s₀
  | snoc {evs : List ε} {s : σ} {e : ε} {s' : σ} :
      Run step s₀ evs s → step s e s' → Run step s₀ (evs ++ [e]) s'

/-- Some run from `s₀` ends in `s`. -/
def Reachable (step : σ → ε → σ → Prop) (s₀ s : σ) : Prop := ∃ evs, Run step s₀ evs s

theorem Run.single {s₀ s : σ} {e : ε} (h : step s₀ e s) : Run step s₀ [e] s := by
  simpa using Run.snoc Run.nil h

theorem Run.append {s₀ s₁ s₂ : σ} {evs₁ evs₂ : List ε} (h₁ : Run step s₀ evs₁ s₁)
    (h₂ : Run step s₁ evs₂ s₂) : Run step s₀ (evs₁ ++ evs₂) s₂ := by
  induction h₂ with
  | nil => simpa using h₁
  | snoc _ hs ih => rw [← List.append_assoc]; exact Run.snoc ih hs

theorem Run.cons {s₀ s₁ s₂ : σ} {e : ε} {evs : List ε} (h₁ : step s₀ e s₁)
    (h₂ : Run step s₁ evs s₂) : Run step s₀ (e :: evs) s₂ :=
  Run.append (Run.single h₁) h₂

theorem Run.reachable {s₀ s : σ} {evs : List ε} (h : Run step s₀ evs s) : Reachable step s₀ s :=
  ⟨evs, h⟩

/-- **Invariant rule**: a property of the start preserved by every step holds after every run. -/
theorem Run.inv (I : σ → Prop) {s₀ s : σ} {evs : List ε} (h0 : I s₀)
    (hstep : ∀ s e s', I s → step s e s' → I s') (h : Run step s₀ evs s) : I s := by
  induction h with
  | nil => exact h0
  | snoc _ hs ih => exact hstep _ _ _ ih hs

/-- **Trace invariant rule**: a relation between the events so far and the state, kept by every
step of a run from `s₀` (the step may use that the state is reached by that run). -/
theorem Run.inv_trace {s₀ : σ} (I : List ε → σ → Prop) (h0 : I [] s₀)
    (hstep : ∀ evs s e s', Run step s₀ evs s → I evs s → step s e s' → I (evs ++ [e]) s')
    {evs : List ε} {s : σ} (h : Run step s₀ evs s) : I evs s := by
  induction h with
  | nil => exact h0
  | snoc hr hs ih => exact hstep _ _ _ _ hr ih hs

/-- **Refinement rule**: if every step from a state where `I` holds keeps `I` and is matched,
through `abs`, by a step of `astep` with the same event, then every run from such a state is
matched by a run of `astep` with the same events. -/
theorem Run.refines {τ : Type} {astep : τ → ε → τ → Prop} (abs : σ → τ) (I : σ → Prop)
    (hinv : ∀ s e s', I s → step s e s' → I s')
    (hsim : ∀ s e s', I s → step s e s' → astep (abs s) e (abs s'))
    {s₀ s : σ} {evs : List ε} (h0 : I s₀) (h : Run step s₀ evs s) :
    Run astep (abs s₀) evs (abs s) := by
  induction h with
  | nil => exact Run.nil
  | snoc hr hs ih => exact Run.snoc ih (hsim _ _ _ (Run.inv I h0 hinv hr) hs)

/-- A set of states that every step maps into itself and in which a step is always enabled:
once there, the system runs forever without leaving it. -/
structure Divergent (step : σ → ε → σ → Prop) (S : σ → Prop) : Prop where
  closed : ∀ s e s', S s → step s e s' → S s'
  live : ∀ s, S s → ∃ e s', step s e s'

/-- Every run from a divergent set stays in it. -/
theorem Divergent.stays {S : σ → Prop} (hd : Divergent step S) {s s' : σ} {evs : List ε}
    (hs : S s) (h : Run step s evs s') : S s' :=
  Run.inv S hs hd.closed h

/-- From a divergent set there are runs of every length, all inside the set. -/
theorem Divergent.runs {S : σ → Prop} (hd : Divergent step S) :
    ∀ (n : Nat) (s : σ), S s → ∃ evs s', evs.length = n ∧ Run step s evs s' ∧ S s'
  | 0, s, hs => ⟨[], s, rfl, Run.nil, hs⟩
  | n + 1, s, hs => by
    obtain ⟨e, s₁, h₁⟩ := hd.live s hs
    obtain ⟨evs, s', hlen, hr, hs'⟩ := Divergent.runs hd n s₁ (hd.closed _ _ _ hs h₁)
    exact ⟨e :: evs, s', by simp [hlen], Run.cons h₁ hr, hs'⟩

/-! ## Systems given by a step function

A partial function `act : σ → α → Option (ε × σ)` says what each action does when it is enabled.
Its step relation is `ActStep act`; a schedule of actions is replayed by `replay`, and a
schedule that replays is a run (`replay_run`), so a state found by evaluating a schedule is
reachable (`exists_run_of_replayEndsIn`). -/

section Act

variable {α : Type} (act : σ → α → Option (ε × σ))

/-- Some action is enabled in `s` and leads to `s'` with event `e`. -/
def ActStep (s : σ) (e : ε) (s' : σ) : Prop := ∃ a, act s a = some (e, s')

/-- Replay a schedule of actions; `none` if one of them is not enabled. -/
def replay : σ → List α → Option (List ε × σ)
  | s, [] => some ([], s)
  | s, a :: as =>
    match act s a with
    | none => none
    | some (e, s₁) =>
      match replay s₁ as with
      | none => none
      | some (evs, s₂) => some (e :: evs, s₂)

variable {act}

/-- A schedule that replays is a run. -/
theorem replay_run : ∀ {s s' : σ} {as : List α} {evs : List ε},
    replay act s as = some (evs, s') → Run (ActStep act) s evs s'
  | s, s', [], evs, h => by
    simp only [replay, Option.some.injEq, Prod.mk.injEq] at h
    obtain ⟨rfl, rfl⟩ := h
    exact Run.nil
  | s, s', a :: as, evs, h => by
    simp only [replay] at h
    split at h
    · cases h
    · rename_i e s₁ ha
      split at h
      · cases h
      · rename_i evs' s₂ hr
        simp only [Option.some.injEq, Prod.mk.injEq] at h
        obtain ⟨rfl, rfl⟩ := h
        exact Run.cons ⟨a, ha⟩ (replay_run hr)

variable (act)

/-- The schedule replays and its events and final state satisfy `P`. -/
def replayEndsIn (s₀ : σ) (as : List α) (P : List ε → σ → Prop) [∀ evs s, Decidable (P evs s)] :
    Bool :=
  match replay act s₀ as with
  | some (evs, s) => decide (P evs s)
  | none => false

variable {act}

/-- A property of the events and the final state of a replayed schedule holds of a run. -/
theorem exists_run_of_replayEndsIn {s₀ : σ} {as : List α} {P : List ε → σ → Prop}
    [∀ evs s, Decidable (P evs s)] (h : replayEndsIn act s₀ as P = true) :
    ∃ evs s, Run (ActStep act) s₀ evs s ∧ P evs s := by
  unfold replayEndsIn at h
  split at h
  · rename_i evs s hr
    exact ⟨evs, s, replay_run hr, of_decide_eq_true h⟩
  · cases h

end Act

/-! ## Runs of calls -/

section Calls

variable {ι ο σ τ : Type}

/-- Run the calls `cs` from `s` through `step`: what each returns, and the last state. -/
def runCalls (step : ι → σ → ο × σ) : List ι → σ → List ο × σ
  | [], s => ([], s)
  | c :: cs, s =>
    let rest := runCalls step cs (step c s).2
    ((step c s).1 :: rest.1, rest.2)

/-- **Simulation rule.**  If on every call that `P` admits the two components return the same
from related states and step to related states, they return the same on every run of such
calls and end related. -/
theorem runCalls_sim (R : σ → τ → Prop) (P : ι → Prop) {step₁ : ι → σ → ο × σ}
    {step₂ : ι → τ → ο × τ}
    (hstep : ∀ c s t, P c → R s t →
      (step₁ c s).1 = (step₂ c t).1 ∧ R (step₁ c s).2 (step₂ c t).2) :
    ∀ (cs : List ι) (s : σ) (t : τ), (∀ c ∈ cs, P c) → R s t →
      (runCalls step₁ cs s).1 = (runCalls step₂ cs t).1 ∧
        R (runCalls step₁ cs s).2 (runCalls step₂ cs t).2
  | [], _, _, _, hR => ⟨rfl, hR⟩
  | c :: cs, s, t, hP, hR => by
    obtain ⟨h1, h2⟩ := hstep c s t (hP c (.head _)) hR
    have ih := runCalls_sim R P hstep cs _ _ (fun c' h => hP c' (.tail _ h)) h2
    simp only [runCalls]
    rw [h1, ih.1]
    exact ⟨rfl, ih.2⟩

end Calls

end Lts
