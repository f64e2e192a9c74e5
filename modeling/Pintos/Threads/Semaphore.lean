import Mathlib.Data.Finset.Card
import Pintos.Threads.Frame

/-!
# Semaphores: counting and wake-ups (`sema_down`, `sema_try_down`, `sema_up`)

`value` is an `unsigned`, and `sema_up` increments it without a bound: along every run it is
the initial value plus the completed `sema_up`s minus the completed downs, **modulo 2^32**
(`KRun.sema_count`).  A semaphore initialised to `UINT_MAX` wraps to 0 on its first `sema_up`
(`sema_up_wraps`), so the value is not that sum as a number.

Wake-ups are Mesa-style: `sema_up` unblocks one waiter and increments `value`, and the woken
thread re-tests `value` in `sema_down`'s loop when it runs.  Whenever threads wait, `value` is
at most the number of woken threads that have not re-tested (`KRun.value_le_woken`), so a
unit is never left behind waiting threads with nobody about to take it.

* `Kernel.touches` — the semaphore a block changes; `exec_semas_of_ne` is the frame rule and
  `exec_event_sema` says a semaphore event reports that semaphore.
* `SemaEffect` — what a step does to `value` and the event it reports (`Step.semaEffect`).
* `WaiterFresh` — the semaphores `cond_wait` has not yet handed out are untouched; it holds on
  every run (`KRun.waiterFresh`) and gives `cond_wait`'s `sema_init (&waiter.semaphore, 0)` its
  place in the count.
* `Woken`, `wokenSet` — threads taken off the waiters and not yet past the re-test.
-/

set_option autoImplicit false

namespace Pintos

/-- The value `sema_init` gives a semaphore: `semaInit n` to a free-standing one, 1 to a lock's
(`lock_init`), 0 to the one of a `cond_wait`. -/
def initValue (semaInit : Nat → UInt32) : SemaRef → UInt32
  | .sema n => semaInit n
  | .lock _ => 1
  | .waiter _ => 0

/-- Completed `sema_up`s on `s` in a trace. -/
def semaUps (s : SemaRef) (evs : List Event) : Nat := evs.count (.semaUp s)

/-- Completed `sema_down`s and successful `sema_try_down`s on `s` in a trace. -/
def semaDowns (s : SemaRef) (evs : List Event) : Nat :=
  evs.count (.semaDown s) + evs.count (.semaTryDown s)

/-- The semaphore an event reports on. -/
def Event.sema? : Event → Option SemaRef
  | .semaUp s | .semaDown s | .semaTryDown s => some s
  | _ => none

/-- The `cond_wait` semaphore a block names. -/
def Instr.waiterRef : Instr → Option Nat
  | .semaDown (.waiter w) | .semaDownLoop (.waiter w) | .semaTryDown (.waiter w)
  | .semaUp (.waiter w) => some w
  | _ => none

section
-- the equation lemmas, generated once here rather than by each proof below that unfolds
-- these definitions
attribute [local simp] Event.sema? Instr.waiterRef
end

/-- How an event changes the value of `s`: `sema_up` adds one, a completed `sema_down` or a
successful `sema_try_down` takes one from a nonzero value, anything else leaves it. -/
def SemaEffect (s : SemaRef) (e : Event) (v v' : UInt32) : Prop :=
  if e = .semaUp s then v' = v + 1
  else if e = .semaDown s ∨ e = .semaTryDown s then v ≠ 0 ∧ v' = v - 1
  else v' = v

theorem semaEffect_of_ne {s : SemaRef} {e : Event} {v : UInt32} (he : e.sema? ≠ some s) :
    SemaEffect s e v v := by
  unfold SemaEffect
  rw [if_neg, if_neg]
  · rintro (rfl | rfl) <;> simp [Event.sema?] at he
  · rintro rfl
    simp [Event.sema?] at he

theorem toNat_sub_one_of_ne_zero {v : UInt32} (h : v ≠ 0) : (v - 1).toNat = v.toNat - 1 := by
  have h1 : v.toNat ≠ 0 := fun h' => h (UInt32.toNat_inj.mp (by simpa using h'))
  rw [UInt32.toNat_sub_of_le _ _ (UInt32.le_iff_toNat_le.mpr (by simp; omega))]
  simp

theorem toNat_add_one_le (v : UInt32) : (v + 1).toNat ≤ v.toNat + 1 := by
  rw [UInt32.toNat_add]
  exact (Nat.mod_le _ _).trans (by simp)

namespace Kernel

/-- The semaphore a block changes. -/
def touches (k : Kernel) : Instr → Option SemaRef
  | .semaDown s | .semaDownLoop s | .semaTryDown s | .semaUp s => some s
  | .lockTryAcquire l => some (.lock l)
  | .condWait _ _ => some (.waiter k.nextWaiter)
  | _ => none

section
-- the equation lemmas, generated once here rather than by each proof below that unfolds
-- these definitions
attribute [local simp] touches
end

theorem touches_eq_none {k : Kernel} {i : Instr} (h : i.touchesSema = false) : k.touches i = none := by
  cases i <;> simp_all [Instr.touchesSema, touches]

section Frame

variable {k : Kernel} (rest : List Instr)

theorem semaUpWake_semas_of_ne {s s' : SemaRef} (h : s' ≠ s) :
    (k.semaUpWake s).1.semas s' = k.semas s' := by
  unfold semaUpWake
  split <;> split <;> simp [modifySema_semas_of_ne _ h]

theorem semaUp_semas_of_ne {s s' : SemaRef} (h : s' ≠ s) : (k.semaUp s).1.semas s' = k.semas s' := by
  simp [semaUp, modifySema_semas_of_ne _ h, semaUpWake_semas_of_ne h]

/-- **A block changes no semaphore but the one it touches.** -/
theorem exec_semas_of_ne {i : Instr} {s : SemaRef} (h : k.touches i ≠ some s) :
    (k.exec i rest).1.semas s = k.semas s := by
  cases i with
  | semaDown s' | semaDownLoop s' =>
    have hne : s ≠ s' := fun he => h (by rw [he]; rfl)
    simp only [exec, semaDownTest]
    split <;> simp [modifySema_semas_of_ne _ hne]
  | semaTryDown s' =>
    have hne : s ≠ s' := fun he => h (by rw [he]; rfl)
    simp only [exec]
    split <;> simp [modifySema_semas_of_ne _ hne]
  | semaUp s' =>
    have hne : s ≠ s' := fun he => h (by rw [he]; rfl)
    simp [exec, semaUp_semas_of_ne hne]
  | lockTryAcquire l =>
    have hne : s ≠ .lock l := fun he => h (by rw [he]; rfl)
    simp only [exec]
    split <;> simp [modifySema_semas_of_ne _ hne]
  | condWait c l =>
    have hne : s ≠ .waiter k.nextWaiter := fun he => h (by rw [he]; rfl)
    simp [exec, condWait, Function.update_of_ne hne]
  | _ => exact congrFun (exec_semas rest rfl) s

/-- **A semaphore event reports the semaphore the block touches.** -/
theorem exec_event_sema (i : Instr) :
    (k.exec i rest).2.sema? = none ∨ (k.exec i rest).2.sema? = k.touches i := by
  cases i with
  | semaDown s | semaDownLoop s =>
    simp only [exec, semaDownTest]
    split <;> simp [Event.sema?, touches]
  | semaTryDown s =>
    simp only [exec]
    split <;> simp [Event.sema?, touches]
  | lockTryAcquire l =>
    simp only [exec]
    split <;> simp [Event.sema?, touches]
  | _ => simp [exec, Event.sema?, touches, apply_ite Prod.snd]

theorem irqSemaUp_semas (n : Nat) : (k.irqSemaUp n).semas = (k.semaUp (.sema n)).1.semas := by
  unfold irqSemaUp; split <;> simp

theorem semaUp_value (s : SemaRef) : ((k.semaUp s).1.semas s).value = (k.semas s).value + 1 := by
  simp [semaUp]

end Frame

end Kernel

/-! ## The semaphores `cond_wait` hands out -/

theorem acquireCode_waiterRef (p : SchedPolicy) (l : Nat) :
    ∀ x ∈ acquireCode p l, x.waiterRef = none := by
  unfold acquireCode; split <;> simp [Instr.waiterRef]

theorem releaseCode_waiterRef (p : SchedPolicy) (l : Nat) :
    ∀ x ∈ releaseCode p l, x.waiterRef = none := by
  unfold releaseCode; split <;> simp [Instr.waiterRef]

theorem Call.code_waiterRef (p : SchedPolicy) (c : Call) : ∀ x ∈ c.code p, x.waiterRef = none := by
  cases c <;> simp only [Call.code] <;>
    first
    | exact acquireCode_waiterRef _ _
    | exact releaseCode_waiterRef _ _
    | simp [Instr.waiterRef]

namespace Kernel

/-- The semaphores `cond_wait` has not yet handed out are untouched: value 0 and no waiter,
and no block and no condition queue names them. -/
structure WaiterFresh (k : Kernel) : Prop where
  unused : ∀ w, k.nextWaiter ≤ w → k.semas (.waiter w) = ⟨0, []⟩
  code : ∀ t, ∀ i ∈ (k.threads t).code, ∀ w, i.waiterRef = some w → w < k.nextWaiter
  conds : ∀ c, ∀ e ∈ k.conds c, e.sema < k.nextWaiter

theorem boot_waiterFresh (policy : SchedPolicy) (semaInit : Nat → UInt32) :
    (boot policy semaInit).WaiterFresh where
  unused _ _ := rfl
  code t i hi w hw := by
    simp only [boot] at hi
    split_ifs at hi <;> simp_all [Instr.waiterRef, Thread.unused]
  conds _ e he := by simp [boot] at he

variable {k : Kernel}

/-- The `cond_wait` semaphores named by the blocks a block produces: the block's own, the
fresh one of `cond_wait`, or one on a condition's queue (`cond_signal`). -/
theorem Produces.waiterRef {i : Instr} {X : List Instr} (h : k.Produces i X) {x : Instr}
    (hx : x ∈ X) {w : Nat} (hw : x.waiterRef = some w) :
    i.waiterRef = some w ∨ (∃ c l, i = .condWait c l ∧ w = k.nextWaiter) ∨
      ∃ c, ∃ e ∈ k.conds c, e.sema = w := by
  cases i with
  | semaDown s | semaDownLoop s =>
    rcases h with rfl | rfl
    · cases hx
    · rw [List.mem_singleton.mp hx] at hw
      cases s <;> simp_all [Instr.waiterRef]
  | condWait c l =>
    subst h
    simp only [List.mem_append, List.mem_singleton] at hx
    rcases hx with (hx | rfl) | hx
    · simp [releaseCode_waiterRef _ _ x hx] at hw
    · simp_all [Instr.waiterRef]
    · simp [acquireCode_waiterRef _ _ x hx] at hw
  | condSignal c =>
    rcases h with rfl | ⟨e, he, rfl⟩
    · cases hx
    · rw [List.mem_singleton.mp hx] at hw
      simp only [Instr.waiterRef, Option.some.injEq] at hw
      exact .inr (.inr ⟨c, e, he, hw⟩)
  | createAlloc p =>
    subst h
    simp only [List.mem_append, List.mem_cons, List.not_mem_nil, or_false] at hx
    rcases hx with ((hx | rfl) | hx) | (rfl | rfl)
    · simp [acquireCode_waiterRef _ _ x hx] at hw
    · simp [Instr.waiterRef] at hw
    · simp [releaseCode_waiterRef _ _ x hx] at hw
    · simp [Instr.waiterRef] at hw
    · simp [Instr.waiterRef] at hw
  | _ =>
    -- the other blocks produce no block that names a semaphore of `cond_wait`
    exfalso
    simp only [Produces] at h
    simp only [Instr.waiterRef] at hw
    aesop

/-- A block that changes a semaphore of `cond_wait` names it, or is `cond_wait` handing it
out. -/
theorem touches_waiter {i : Instr} {w : Nat} (h : k.touches i = some (.waiter w)) :
    i.waiterRef = some w ∨ ∃ c l, i = .condWait c l := by
  cases i <;> simp_all [touches, Instr.waiterRef]

theorem condSignal_conds_subset (c : Nat) (rest : List Instr) {c' : Nat} {e : SemaElem}
    (he : e ∈ (k.condSignal c rest).conds c') : e ∈ k.conds c' := by
  unfold condSignal at he
  split at he
  · exact he
  · rename_i e₀ es _ hcs
    simp only [setCode_conds, Function.update_apply] at he
    split at he
    · subst c'; rw [hcs]; exact (List.dropLast_sublist _).subset he
    · exact he
  · rename_i e₀ es _ hcs
    simp only [setCode_conds, Function.update_apply] at he
    split at he
    · subst c'; rw [hcs]; exact List.mem_cons_of_mem _ he
    · exact he

theorem condWait_conds_mem (c l : Nat) (rest : List Instr) {c' : Nat} {e : SemaElem}
    (he : e ∈ (k.condWait c l rest).conds c') : e ∈ k.conds c' ∨ e = ⟨k.nextWaiter, k.current⟩ := by
  simp only [condWait, setCode_conds, Function.update_apply] at he
  split at he
  · subst c'
    split at he
    · rcases mem_listInsertOrdered.mp he with h | h
      · exact .inr h
      · exact .inl h
    · rcases List.mem_append.mp he with h | h
      · exact .inl h
      · exact .inr (List.mem_singleton.mp h)
  · exact .inl he

/-- **Executing a block hands out `cond_wait` semaphores only through `nextWaiter`.** -/
theorem WaiterFresh.exec (hf : k.WaiterFresh) (hw : k.Wf) {i : Instr} {rest : List Instr}
    (hc : k.code = i :: rest) : (k.exec i rest).1.WaiterFresh := by
  have hfr := hw.core.fresh k.nextThread le_rfl
  have hm := moves_exec rest hfr.1 hfr.2 i
  obtain ⟨X, hX, hcode⟩ := exec_code_current hc
  have hcur : (k.threads k.current).code = i :: rest := hc
  have hi : i ∈ (k.threads k.current).code := by rw [hcur]; exact List.mem_cons_self
  -- the new continuation of the running thread names semaphores handed out before, or the
  -- one `cond_wait` hands out
  have hnew : ∀ x ∈ (((k.exec i rest).1).threads k.current).code, ∀ w, x.waiterRef = some w →
      w < k.nextWaiter ∨ ∃ c l, i = .condWait c l ∧ w = k.nextWaiter := by
    intro x hx w hxw
    rw [hcode] at hx
    rcases List.mem_append.mp hx with hx | hx
    · rcases hX.waiterRef hx hxw with h | h | ⟨c, e, he, rfl⟩
      · exact .inl (hf.code _ i hi w h)
      · exact .inr h
      · exact .inl (hf.conds c e he)
    · exact .inl (hf.code _ x (by rw [hcur]; exact List.mem_cons_of_mem _ hx) w hxw)
  by_cases hcw : ∃ c l, i = .condWait c l
  · obtain ⟨c, l, rfl⟩ := hcw
    have hnw : (k.exec (.condWait c l) rest).1.nextWaiter = k.nextWaiter + 1 := rfl
    refine ⟨fun w hle => ?_, fun t x hx w hxw => ?_, fun c' e he => ?_⟩
    · rw [hnw] at hle
      have hne : SemaRef.waiter w ≠ .waiter k.nextWaiter := fun h => by
        injection h with h
        omega
      simp only [Kernel.exec, condWait, setCode_semas, Function.update_of_ne hne]
      exact hf.unused w (by omega)
    · rw [hnw]
      by_cases ht : t = k.current
      · subst ht
        rcases hnew x hx w hxw with h | ⟨_, _, _, rfl⟩ <;> omega
      · rw [hm.code t ht] at hx
        have := hf.code t x hx w hxw
        omega
    · rw [hnw]
      rcases condWait_conds_mem c l rest he with h | rfl
      · have := hf.conds c' e h
        omega
      · exact Nat.lt_succ_self _
  · simp only [not_exists] at hcw
    have hnw := exec_nextWaiter (k := k) rest hcw
    refine ⟨fun w hle => ?_, fun t x hx w hxw => ?_, fun c' e he => ?_⟩
    · rw [hnw] at hle
      have ht : k.touches i ≠ some (.waiter w) := by
        intro ht
        rcases touches_waiter ht with h | ⟨c, l, h⟩
        · have := hf.code _ i hi w h
          omega
        · exact hcw c l h
      rw [exec_semas_of_ne rest ht]
      exact hf.unused w hle
    · rw [hnw]
      by_cases ht : t = k.current
      · subst ht
        rcases hnew x hx w hxw with h | ⟨c, l, h, _⟩
        · exact h
        · exact absurd h (hcw c l)
      · rw [hm.code t ht] at hx
        exact hf.code t x hx w hxw
    · rw [hnw]
      by_cases hcs : ∃ c, i = .condSignal c
      · obtain ⟨c, rfl⟩ := hcs
        exact hf.conds c' e (condSignal_conds_subset c rest he)
      · simp only [not_exists] at hcs
        rw [exec_conds (k := k) rest hcw hcs] at he
        exact hf.conds c' e he

/-- **Every step hands out `cond_wait` semaphores only through `nextWaiter`.** -/
theorem WaiterFresh.step (hf : k.WaiterFresh) (hw : k.Wf) {e : Event} {k' : Kernel}
    (h : Step k e k') : k'.WaiterFresh := by
  have hm := h.moves hw.core
  cases h with
  | call c _ _ hnil =>
    refine ⟨fun w hle => hf.unused w hle, fun t x hx w hxw => ?_, fun c' e he => hf.conds c' e he⟩
    by_cases ht : t = k.current
    · subst ht
      simp only [setCode_threads_code] at hx
      simp [Call.code_waiterRef _ c x hx] at hxw
    · exact hf.code t x (by rw [← hm.code t ht]; exact hx) w hxw
  | exec _ hc => exact hf.exec hw hc
  | createFail _ hc =>
    refine ⟨fun w hle => hf.unused w hle, fun t x hx w hxw => ?_, fun c' e he => hf.conds c' e he⟩
    by_cases ht : t = k.current
    · subst ht
      simp only [setCode_threads_code] at hx
      exact hf.code _ x (by rw [show (k.threads k.current).code = _ from hc]; exact
        List.mem_cons_of_mem _ hx) w hxw
    · exact hf.code t x (by rw [← hm.code t ht]; exact hx) w hxw
  | timer _ _ =>
    exact ⟨fun w hle => by simpa using hf.unused w (by simpa using hle),
      fun t x hx w hxw => by simpa using hf.code t x (by simpa using hx) w hxw,
      fun c' e he => by simpa using hf.conds c' e (by simpa using he)⟩
  | irqSemaUp n _ _ =>
    refine ⟨fun w hle => ?_, fun t x hx w hxw => by simpa using hf.code t x (by simpa using hx) w hxw,
      fun c' e he => by simpa using hf.conds c' e (by simpa using he)⟩
    rw [irqSemaUp_semas, semaUp_semas_of_ne (by simp)]
    exact hf.unused w (by simpa using hle)

/-! ## The value of a semaphore -/

/-- **What a block does to a semaphore's value**, and the event that reports it. -/
theorem exec_semaEffect (hf : k.WaiterFresh) (s : SemaRef) (i : Instr) (rest : List Instr) :
    SemaEffect s (k.exec i rest).2 (k.semas s).value ((k.exec i rest).1.semas s).value := by
  by_cases ht : k.touches i = some s
  · cases i with
    | semaDown s' | semaDownLoop s' =>
      cases ht
      simp only [Kernel.exec, semaDownTest]
      split
      · rename_i h0
        simp [SemaEffect]
      · rename_i h0
        simp [SemaEffect, h0]
    | semaTryDown s' =>
      cases ht
      simp only [Kernel.exec]
      split
      · rename_i h0
        have h0' : (k.semas s).value ≠ 0 := fun h => by simp [h] at h0
        simp [SemaEffect, h0']
      · simp [SemaEffect]
    | semaUp s' =>
      cases ht
      simp [SemaEffect, Kernel.exec, semaUp_value]
    | lockTryAcquire l =>
      cases ht
      simp only [Kernel.exec]
      split
      · rename_i h0
        have h0' : (k.semas (.lock l)).value ≠ 0 := fun h => by simp [h] at h0
        simp [SemaEffect, h0']
      · simp [SemaEffect]
    | condWait c l =>
      cases ht
      -- `sema_init (&waiter.semaphore, 0)` on a semaphore that is still 0
      simp [SemaEffect, Kernel.exec, condWait, hf.unused k.nextWaiter le_rfl]
    | _ => simp [touches] at ht
  · rw [exec_semas_of_ne rest ht]
    apply semaEffect_of_ne
    rcases exec_event_sema rest i with h | h <;> rw [h]
    · simp
    · exact ht

end Kernel

/-- The semaphores `cond_wait` has not handed out are untouched on every run. -/
theorem KRun.waiterFresh {policy : SchedPolicy} {semaInit : Nat → UInt32} {evs : List Event}
    {k : Kernel} (h : KRun policy semaInit evs k) : k.WaiterFresh :=
  (Lts.Run.inv (fun k => k.Wf ∧ k.WaiterFresh) ⟨Kernel.boot_wf policy semaInit, Kernel.boot_waiterFresh _ _⟩
    (fun _ _ _ hk hs => ⟨hk.1.step hs, hk.2.step hk.1 hs⟩) h).2

/-- **What a step does to a semaphore's value**, and the event that reports it. -/
theorem Step.semaEffect {k : Kernel} (hf : k.WaiterFresh) {e : Event} {k' : Kernel} (h : Step k e k')
    (s : SemaRef) : SemaEffect s e (k.semas s).value (k'.semas s).value := by
  cases h with
  | call c => exact semaEffect_of_ne (by simp [Event.sema?])
  | exec _ _ => exact Kernel.exec_semaEffect hf s _ _
  | createFail _ _ => exact semaEffect_of_ne (by simp [Event.sema?])
  | timer _ _ =>
    rw [Kernel.timerInterrupt_semas]
    exact semaEffect_of_ne (by simp [Event.sema?])
  | irqSemaUp n _ _ =>
    rw [Kernel.irqSemaUp_semas]
    by_cases hs : s = .sema n
    · subst hs
      simp [SemaEffect, Kernel.semaUp_value]
    · rw [Kernel.semaUp_semas_of_ne hs]
      exact semaEffect_of_ne (by simp [Event.sema?, Ne.symm hs])

theorem semaUps_snoc (s : SemaRef) (evs : List Event) (e : Event) :
    semaUps s (evs ++ [e]) = semaUps s evs + if e = .semaUp s then 1 else 0 := by
  simp [semaUps, List.count_singleton, beq_iff_eq]

theorem semaDowns_snoc (s : SemaRef) (evs : List Event) (e : Event) :
    semaDowns s (evs ++ [e]) = semaDowns s evs + if e = .semaDown s ∨ e = .semaTryDown s then 1 else 0 := by
  unfold semaDowns
  by_cases h₁ : e = .semaDown s
  · subst h₁; simp; omega
  · by_cases h₂ : e = .semaTryDown s
    · subst h₂; simp; omega
    · simp [h₁, h₂]

/-- One step of the count: the value stays `init + ups - downs` modulo 2^32, and no down
happens at 0. -/
theorem sema_count_step {s : SemaRef} {e : Event} {v v' : UInt32} (he : SemaEffect s e v v')
    {init ups downs : Nat} (hd : downs ≤ init + ups) (hv : v.toNat = (init + ups - downs) % 2 ^ 32) :
    let ups' := ups + if e = .semaUp s then 1 else 0
    let downs' := downs + if e = .semaDown s ∨ e = .semaTryDown s then 1 else 0
    downs' ≤ init + ups' ∧ v'.toNat = (init + ups' - downs') % 2 ^ 32 := by
  unfold SemaEffect at he
  split_ifs at he with hup hdown
  · subst hup
    simp only [reduceCtorEq, or_self, if_false, if_true, Nat.add_zero]
    rw [he, UInt32.toNat_add, hv]
    simp
    omega
  · obtain ⟨hne, rfl⟩ := he
    have hv0 : v.toNat ≠ 0 := fun h => hne (UInt32.toNat_inj.mp (by simpa using h))
    simp only [hup, if_false, if_true, Nat.add_zero, hdown]
    rw [UInt32.toNat_sub_of_le _ _ (UInt32.le_iff_toNat_le.mpr (by simp; omega))]
    simp
    omega
  · subst he
    simp only [hup, hdown, if_false, Nat.add_zero]
    exact ⟨hd, hv⟩

/-! ## Woken threads -/

namespace Kernel

/-- A thread that `sema_up` has taken off the waiters of `s` and unblocked, and that has not
yet re-tested `value` in `sema_down`'s loop. -/
def Woken (k : Kernel) (s : SemaRef) (t : Nat) : Prop :=
  ((k.threads t).status = .ready ∨ (k.threads t).status = .running) ∧
    (k.threads t).code.head? = some (.semaDownLoop s)

instance (k : Kernel) (s : SemaRef) : DecidablePred (k.Woken s) :=
  fun _ => inferInstanceAs (Decidable (_ ∧ _))

/-- The woken threads of `s`. -/
def wokenSet (k : Kernel) (s : SemaRef) : Finset Nat :=
  (Finset.range k.nextThread).filter (k.Woken s)

variable {k k' : Kernel} {s : SemaRef}

theorem mem_wokenSet (hc : k.Core) {t : Nat} : t ∈ k.wokenSet s ↔ k.Woken s t := by
  simp only [wokenSet, Finset.mem_filter, Finset.mem_range, and_iff_right_iff_imp]
  intro hw
  exact hc.lt_of_status (by rcases hw.1 with h | h <;> simp [h])

/-- A woken thread other than the running one stays woken. -/
theorem Moves.woken {cur t : Nat} (hm : Moves cur k k') (ht : t ≠ cur) (hw : k.Woken s t) :
    k'.Woken s t := by
  have hd : (k.threads t).status ≠ .dying := by rcases hw.1 with h | h <;> simp [h]
  refine ⟨?_, by rw [hm.code t ht]; exact hw.2⟩
  rcases hm.status t ht hd with h | h | h
  · rw [h]; exact hw.1
  · exact .inl h
  · exact .inr h

theorem Moves.wokenSet_erase {cur : Nat} (hm : Moves cur k k') (hc : k.Core) (hc' : k'.Core) :
    (k.wokenSet s).erase cur ⊆ k'.wokenSet s := by
  intro t ht
  obtain ⟨hne, ht⟩ := Finset.mem_erase.mp ht
  exact (mem_wokenSet hc').mpr (hm.woken hne ((mem_wokenSet hc).mp ht))

/-- `sema_up` either finds no waiter, or removes one and unblocks it. -/
theorem semaUpWake_cases (s : SemaRef) :
    ((k.semas s).waiters = [] ∧ (k.semaUpWake s).1 = k) ∨
      ∃ w ∈ (k.semas s).waiters, (k.semaUpWake s).1 =
        (k.modifySema s fun sm => { sm with waiters := sm.waiters.erase w }).threadUnblock w := by
  unfold semaUpWake
  split
  · split
    · rename_i hm
      exact .inl ⟨listMax_eq_none.mp hm, rfl⟩
    · rename_i w hm
      have hm' : listMax (fun a b => decide (k.threadGetPriorityOf a < k.threadGetPriorityOf b))
          (k.semas s).waiters = some w := hm
      exact .inr ⟨w, listMax_mem hm', rfl⟩
  · split
    · rename_i hw
      exact .inl ⟨hw, rfl⟩
    · rename_i w ws hw
      refine .inr ⟨w, by rw [hw]; exact List.mem_cons_self, ?_⟩
      simp [modifySema, hw]

theorem semaUp_waiters_sub (s : SemaRef) :
    ((k.semaUp s).1.semas s).waiters ⊆ (k.semas s).waiters := by
  have hw : ((k.semaUp s).1.semas s).waiters = ((k.semaUpWake s).1.semas s).waiters := by
    simp [semaUp]
  rw [hw]
  rcases semaUpWake_cases (k := k) s with ⟨_, h⟩ | ⟨w, _, h⟩ <;> rw [h]
  · exact List.Subset.refl _
  · simpa using List.erase_subset

/-- **`sema_up` on a semaphore with waiters wakes one of them.** -/
theorem Wf.semaUp_wakes (hw : k.Wf) (hne : (k.semas s).waiters ≠ []) :
    ∃ w ∈ (k.semas s).waiters, ¬ k.Woken s w ∧ (k.semaUp s).1.Woken s w := by
  rcases semaUpWake_cases (k := k) s with ⟨h, _⟩ | ⟨w, hmem, h⟩
  · exact absurd h hne
  · obtain ⟨hb, hhead⟩ := hw.core.waiting s w hmem
    refine ⟨w, hmem, fun hwk => by rcases hwk.1 with h' | h' <;> simp [hb] at h', ?_⟩
    have hthr : (k.semaUp s).1.threads = (k.semaUpWake s).1.threads := rfl
    unfold Woken
    rw [hthr, h]
    simp [threadUnblock_status, hhead]

/-- **A block either adds no waiter, or leaves the value at 0.** -/
theorem exec_waiters (s : SemaRef) (i : Instr) (rest : List Instr) :
    ((k.exec i rest).1.semas s).waiters ⊆ (k.semas s).waiters ∨
      ((k.exec i rest).1.semas s).value = 0 := by
  by_cases ht : k.touches i = some s
  · cases i with
    | semaDown s' | semaDownLoop s' =>
      cases ht
      simp only [Kernel.exec, semaDownTest]
      split
      · rename_i h0
        exact .inr (by simp [h0])
      · exact .inl (by simp)
    | semaTryDown s' =>
      cases ht
      simp only [Kernel.exec]
      split <;> exact .inl (by simp)
    | lockTryAcquire l =>
      cases ht
      simp only [Kernel.exec]
      split <;> exact .inl (by simp)
    | semaUp s' =>
      cases ht
      exact .inl (by simpa [Kernel.exec] using semaUp_waiters_sub _)
    | condWait c l =>
      cases ht
      exact .inl (by simp [Kernel.exec, condWait])
    | _ => simp [touches] at ht
  · rw [exec_semas_of_ne rest ht]
    exact .inl (List.Subset.refl _)

/-- Only the `sema_up` block reports a `sema_up`. -/
theorem exec_event_semaUp {i : Instr} {rest : List Instr} (h : (k.exec i rest).2 = .semaUp s) :
    i = .semaUp s := by
  cases i with
  | semaDown s' | semaDownLoop s' =>
    simp only [Kernel.exec, semaDownTest] at h
    split at h <;> simp at h
  | semaTryDown s' | lockTryAcquire s' =>
    simp only [Kernel.exec] at h
    split at h <;> simp at h
  | semaUp s' => simp_all [Kernel.exec]
  | _ => simp [Kernel.exec, apply_ite Prod.snd] at h

end Kernel

section Steps

variable {k k' : Kernel} {e : Event} {s : SemaRef}

/-- **A step either adds no waiter to a semaphore, or leaves its value at 0.** -/
theorem Step.waiters_sub (h : Step k e k') (s : SemaRef) :
    (k'.semas s).waiters ⊆ (k.semas s).waiters ∨ (k'.semas s).value = 0 := by
  cases h with
  | call c => exact .inl (List.Subset.refl _)
  | exec _ _ => exact Kernel.exec_waiters s _ _
  | createFail _ _ => exact .inl (List.Subset.refl _)
  | timer _ _ => exact .inl (by simp)
  | irqSemaUp n _ _ =>
    rw [Kernel.irqSemaUp_semas]
    by_cases hs : s = .sema n
    · subst hs
      exact .inl (Kernel.semaUp_waiters_sub _)
    · rw [Kernel.semaUp_semas_of_ne hs]
      exact .inl (List.Subset.refl _)

/-- **A `sema_up` on a semaphore with waiters leaves a newly woken thread.** -/
theorem Step.semaUp_wakes (hw : k.Wf) (h : Step k e k') (he : e = .semaUp s)
    (hne : (k.semas s).waiters ≠ []) : ∃ w, ¬ k.Woken s w ∧ k'.Woken s w := by
  -- the woken thread was a waiter, so it is not the running thread
  have hother : ∀ w ∈ (k.semas s).waiters, k.panicked = false → w ≠ k.current :=
    fun w hmem hp hwc => hw.current_not_mem_waiters hp s (hwc ▸ hmem)
  cases h with
  | call c => cases he
  | exec hp _ =>
    cases Kernel.exec_event_semaUp he
    obtain ⟨w, hmem, hnw, hwk⟩ := hw.semaUp_wakes hne
    refine ⟨w, hnw, Kernel.Moves.woken ?_ (hother w hmem hp) hwk⟩
    exact (Kernel.Moves.refl _ _).setCode (by simp) _
  | createFail _ _ => cases he
  | timer _ _ => cases he
  | irqSemaUp n hp _ =>
    cases he
    obtain ⟨w, hmem, hnw, hwk⟩ := hw.semaUp_wakes hne
    refine ⟨w, hnw, ?_⟩
    unfold Kernel.irqSemaUp
    split
    · refine Kernel.Moves.woken ?_ (hother w hmem hp) hwk
      exact (Kernel.Moves.refl _ _).threadYield (by simp)
    · exact hwk

/-- **One step keeps `value` below the number of woken threads while threads wait.** -/
theorem Step.value_le_woken (hw : k.Wf) (hf : k.WaiterFresh) (h : Step k e k') (s : SemaRef)
    (hI : (k.semas s).waiters ≠ [] → (k.semas s).value.toNat ≤ (k.wokenSet s).card)
    (hne : (k'.semas s).waiters ≠ []) : (k'.semas s).value.toNat ≤ (k'.wokenSet s).card := by
  have hw' := hw.step h
  have hsub := (h.moves hw.core).wokenSet_erase (s := s) hw.core hw'.core
  by_cases hcw : k.Woken s k.current
  · -- the running thread is about to re-test `value` with interrupts off: the step is that test
    obtain ⟨rest, hc⟩ := List.head?_eq_some_iff.mp hcw.2
    obtain ⟨rfl, rfl⟩ := Step.of_intrOff hc rfl h
    have hcard : (k.wokenSet s).card - 1 ≤ _ :=
      (Finset.pred_card_le_card_erase).trans (Finset.card_le_card hsub)
    revert hne hcard
    simp only [Kernel.exec, Kernel.semaDownTest]
    split
    · rename_i h0
      simp [h0]
    · rename_i h0
      intro hne hcard
      dsimp only at hne hcard ⊢
      simp only [Kernel.setCode_semas, Kernel.modifySema_semas_self] at hne ⊢
      rw [toNat_sub_one_of_ne_zero h0]
      have := hI hne
      omega
  · -- otherwise every woken thread stays woken
    have hsub' : k.wokenSet s ⊆ k'.wokenSet s := by
      refine fun t ht => hsub (Finset.mem_erase.mpr ⟨?_, ht⟩)
      rintro rfl
      exact hcw ((Kernel.mem_wokenSet hw.core).mp ht)
    have hle := Finset.card_le_card hsub'
    rcases h.waiters_sub s with hws | h0
    swap
    · simp [h0]
    have hne₀ : (k.semas s).waiters ≠ [] := fun h' => hne (List.eq_nil_of_subset_nil (h' ▸ hws))
    have hv := hI hne₀
    have heff := h.semaEffect hf s
    unfold SemaEffect at heff
    split_ifs at heff with hup hdown
    · -- `sema_up` wakes a waiter: one more woken thread for one more unit
      obtain ⟨w, hnw, hw'w⟩ := h.semaUp_wakes hw hup hne₀
      have hins : insert w (k.wokenSet s) ⊆ k'.wokenSet s := by
        intro t ht
        rcases Finset.mem_insert.mp ht with rfl | ht
        · exact (Kernel.mem_wokenSet hw'.core).mpr hw'w
        · exact hsub' ht
      have hcard := Finset.card_le_card hins
      rw [Finset.card_insert_of_notMem (mt (Kernel.mem_wokenSet hw.core).mp hnw)] at hcard
      rw [heff]
      have := toNat_add_one_le (k.semas s).value
      omega
    · obtain ⟨hne0, hv'⟩ := heff
      rw [hv', toNat_sub_one_of_ne_zero hne0]
      omega
    · rw [heff]
      omega

end Steps

/-- **Whenever threads wait on a semaphore, its value is at most the number of woken threads
that have not yet re-tested it.** -/
theorem KRun.value_le_woken {policy : SchedPolicy} {semaInit : Nat → UInt32} {evs : List Event}
    {k : Kernel} (h : KRun policy semaInit evs k) (s : SemaRef) :
    (k.semas s).waiters ≠ [] → (k.semas s).value.toNat ≤ (k.wokenSet s).card := by
  induction h with
  | nil => cases s <;> simp [Kernel.boot]
  | snoc hr hs ih => exact hs.value_le_woken (KRun.wf hr) (KRun.waiterFresh hr) s ih

/-- **The value of a semaphore is its initial value plus the completed `sema_up`s minus the
completed downs, modulo 2^32**, and there are never more downs than that sum. -/
theorem KRun.sema_count {policy : SchedPolicy} {semaInit : Nat → UInt32} {evs : List Event}
    {k : Kernel} (h : KRun policy semaInit evs k) (s : SemaRef) :
    semaDowns s evs ≤ (initValue semaInit s).toNat + semaUps s evs ∧
      (k.semas s).value.toNat =
        ((initValue semaInit s).toNat + semaUps s evs - semaDowns s evs) % 2 ^ 32 := by
  induction h with
  | nil =>
    refine ⟨by simp [semaDowns], ?_⟩
    cases s <;> simp [Kernel.boot, initValue, semaUps, semaDowns]
  | snoc hr hs ih =>
    have := sema_count_step (hs.semaEffect (KRun.waiterFresh hr) s) ih.1 ih.2
    rw [semaUps_snoc, semaDowns_snoc]
    exact this

/-- A semaphore's accounting along every run, under either policy and with `sema_up` from
interrupt handlers: downs never outnumber the initial value plus the `sema_up`s, the value is
that difference modulo 2^32, and while threads wait every unit of the value has a woken thread
on its way to the re-test, so a positive value with waiters has such a thread. -/
theorem sema_no_lost_wakeup {policy : SchedPolicy} {semaInit : Nat → UInt32} {evs : List Event}
    {k : Kernel} (h : KRun policy semaInit evs k) (s : SemaRef) :
    semaDowns s evs ≤ (initValue semaInit s).toNat + semaUps s evs ∧
      (k.semas s).value.toNat =
        ((initValue semaInit s).toNat + semaUps s evs - semaDowns s evs) % 2 ^ 32 ∧
      ((k.semas s).waiters ≠ [] → (k.semas s).value.toNat ≤ (k.wokenSet s).card) ∧
      ((k.semas s).waiters ≠ [] → (k.semas s).value ≠ 0 → ∃ t, k.Woken s t) := by
  obtain ⟨hd, hv⟩ := h.sema_count s
  have hb := h.value_le_woken s
  refine ⟨hd, hv, hb, fun hne h0 => ?_⟩
  have hpos : 0 < (k.wokenSet s).card := by
    have : (k.semas s).value.toNat ≠ 0 := fun h' => h0 (UInt32.toNat_inj.mp (by simpa using h'))
    have := hb hne
    omega
  obtain ⟨t, ht⟩ := Finset.card_pos.mp hpos
  exact ⟨t, (Kernel.mem_wokenSet (KRun.wf h).core).mp ht⟩

/-- Under `SCHED_PRIO`, threads 2 and 3 (priority 40) block in `sema_down` on semaphore 0,
initially 0; `main` calls `sema_up` once.  It unblocks thread 2, which has not run yet: thread 3
still waits while the value is 1. -/
def semaUpOneOfTwo : List Action :=
  createRun 40 ++ [.call (.semaDown 0), .exec] ++ createRun 40 ++ [.call (.semaDown 0), .exec] ++
    [.call (.semaUp 0), .exec]

theorem sema_no_lost_wakeup_two_waiters :
    ∃ evs k, KRun .prio (fun _ => 0) evs k ∧ semaUps (.sema 0) evs = 1 ∧
      (k.semas (.sema 0)).waiters = [3] ∧ (k.semas (.sema 0)).value = 1 ∧
      (semaDowns (.sema 0) evs ≤ (initValue (fun _ => 0) (.sema 0)).toNat + semaUps (.sema 0) evs ∧
        (k.semas (.sema 0)).value.toNat =
          ((initValue (fun _ => 0) (.sema 0)).toNat + semaUps (.sema 0) evs -
            semaDowns (.sema 0) evs) % 2 ^ 32 ∧
        ((k.semas (.sema 0)).waiters ≠ [] →
          (k.semas (.sema 0)).value.toNat ≤ (k.wokenSet (.sema 0)).card) ∧
        ((k.semas (.sema 0)).waiters ≠ [] → (k.semas (.sema 0)).value ≠ 0 →
          ∃ t, k.Woken (.sema 0) t)) := by
  obtain ⟨evs, k, hrun, hu, hw, hv⟩ := Kernel.exists_run_of_replayTraceEndsIn
    (Kernel.boot .prio fun _ => 0) semaUpOneOfTwo
    (fun evs k => semaUps (.sema 0) evs = 1 ∧ (k.semas (.sema 0)).waiters = [3] ∧
      (k.semas (.sema 0)).value = 1) (by decide +kernel)
  exact ⟨evs, k, hrun, hu, hw, hv, sema_no_lost_wakeup hrun (.sema 0)⟩

/-- `sema_init (&s, UINT_MAX)` then one `sema_up`: the value wraps to 0, not the initial value
plus one. -/
theorem sema_up_wraps : ∃ evs k, KRun .fifo (fun _ => 0xFFFFFFFF) evs k ∧
    (k.semas (.sema 0)).value.toNat ≠
      (initValue (fun _ => 0xFFFFFFFF) (.sema 0)).toNat + semaUps (.sema 0) evs -
        semaDowns (.sema 0) evs :=
  Kernel.exists_run_of_replayTraceEndsIn _ [.call (.semaUp 0), .exec] _ (by decide +kernel)

end Pintos
