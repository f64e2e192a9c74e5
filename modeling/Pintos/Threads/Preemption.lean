import Mathlib.Data.List.TakeWhile
import Pintos.Threads.Machine
import Pintos.LibKernel.Ordered

/-!
# Preemption under `SCHED_PRIO` (`next_thread_to_run`, `timer_interrupt`)

* `nextThreadToRun_prio` — `thread_schedule_prio` picks a ready thread of maximal effective
  priority, the earliest enqueued among equals, and removes exactly that one from the ready
  list;
* `schedule_prio_max` — after `schedule` the running thread's effective priority is at least
  that of every thread left on the ready list.

`timer_wake_sleeping_threads` unblocks sleepers with `thread_unblock` and never requests a
yield, whereas `sema_up` called from an interrupt handler requests `intr_yield_on_return` when
it wakes a thread of higher priority: a woken sleeper of higher priority waits for the end of
the running thread's time slice (`timer_wakeup_not_preempted`).

`cond_wait` under `SCHED_PRIO` inserts its element with `list_insert_ordered`, behind every
waiter of no higher priority (`condWait_conds_of_not_less`), and `cond_signal` pops the back
(`condSignal_prio`): of waiters of equal priority the last to wait is signalled first, where
`sema_up` wakes the first (`cond_signal_wakes_last_waiter`).
-/

set_option autoImplicit false

namespace Pintos

namespace Kernel

variable (k : Kernel)

theorem threadPriorityLess_eq :
    k.threadPriorityLess = fun a b => decide (k.threadGetPriorityOf a < k.threadGetPriorityOf b) :=
  rfl

/-- **`thread_schedule_prio`**: on a non-empty ready list it returns a thread of maximal
effective priority, the earliest among equals, and the list without it. -/
theorem nextThreadToRun_prio (hp : k.policy = .prio) (hne : k.readyList ≠ []) :
    k.nextThreadToRun.1 ∈ k.readyList ∧
      k.nextThreadToRun.2 = k.readyList.erase k.nextThreadToRun.1 ∧
      (∀ u ∈ k.readyList, k.threadGetPriorityOf u ≤ k.threadGetPriorityOf k.nextThreadToRun.1) ∧
      ∀ u ∈ k.readyList, k.threadGetPriorityOf k.nextThreadToRun.1 ≤ k.threadGetPriorityOf u →
        k.readyList.idxOf k.nextThreadToRun.1 ≤ k.readyList.idxOf u := by
  obtain ⟨m, hm⟩ : ∃ m, listMax (fun a b => decide (k.threadGetPriorityOf a <
      k.threadGetPriorityOf b)) k.readyList = some m := listMax_isSome hne
  have hnext : k.nextThreadToRun = (m, k.readyList.erase m) := by
    unfold nextThreadToRun
    rw [hp, threadPriorityLess_eq]
    simp only [hm]
  rw [hnext]
  exact ⟨listMax_mem hm, rfl, fun u hu => le_listMax hm hu,
    fun u hu hle => idxOf_listMax_le hm hu hle⟩

/-- `schedule` changes the status of the thread it switches to and nothing a priority reads. -/
@[simp] theorem schedule_threadGetPriorityOf (t : Nat) :
    k.schedule.threadGetPriorityOf t = k.threadGetPriorityOf t := by
  unfold schedule
  apply threadGetPriorityOf_congr <;>
  · rw [modifyThread_threads]
    split <;> simp_all

/-- **After `schedule` under `SCHED_PRIO`** no ready thread has a higher effective priority than
the running one. -/
theorem schedule_prio_max (hp : k.policy = .prio) {t : Nat} (ht : t ∈ k.schedule.readyList) :
    k.schedule.threadGetPriorityOf t ≤ k.schedule.threadGetPriorityOf k.schedule.current := by
  have hrl : k.schedule.readyList = k.nextThreadToRun.2 := rfl
  have hcur : k.schedule.current = k.nextThreadToRun.1 := rfl
  rw [schedule_threadGetPriorityOf, schedule_threadGetPriorityOf, hcur]
  rw [hrl] at ht
  by_cases hne : k.readyList = []
  · -- an empty ready list stays empty: the idle thread runs
    simp [nextThreadToRun, hp, hne] at ht
  · obtain ⟨-, herase, hmax, -⟩ := k.nextThreadToRun_prio hp hne
    rw [herase] at ht
    exact hmax t (List.mem_of_mem_erase ht)

/-- Under `SCHED_PRIO`, `cond_wait` puts the caller's element behind the waiters it is not
`less` than. -/
theorem condWait_conds_of_not_less (hp : k.policy = .prio) {c l : Nat} {rest : List Instr}
    (hle : ∀ e ∈ k.conds c, k.semaElemLess ⟨k.nextWaiter, k.current⟩ e = false) :
    (k.condWait c l rest).conds c = k.conds c ++ [⟨k.nextWaiter, k.current⟩] := by
  have htake : (k.conds c).takeWhile (fun e => !k.semaElemLess ⟨k.nextWaiter, k.current⟩ e) =
      k.conds c := List.takeWhile_eq_self_iff.mpr fun e he => by simp [hle e he]
  have hdrop : (k.conds c).dropWhile (fun e => !k.semaElemLess ⟨k.nextWaiter, k.current⟩ e) =
      [] := List.dropWhile_eq_nil_iff.mpr fun e he => by simp [hle e he]
  simp only [condWait, hp, setCode_conds, Function.update_self]
  rw [listInsertOrdered_eq_takeWhile, htake, hdrop]

/-- Under `SCHED_PRIO`, `cond_signal` ups the semaphore of the last waiter. -/
theorem condSignal_prio (hp : k.policy = .prio) {c : Nat} {es : List SemaElem} {e : SemaElem}
    (hc : k.conds c = es ++ [e]) (rest : List Instr) :
    (k.condSignal c rest).code = .semaUp (.waiter e.sema) :: rest ∧
      (k.condSignal c rest).conds c = es := by
  obtain ⟨e₀, es₀, h₀⟩ : ∃ e₀ es₀, es ++ [e] = e₀ :: es₀ := by
    cases es with
    | nil => exact ⟨e, [], rfl⟩
    | cons x es => exact ⟨x, es ++ [e], rfl⟩
  have hlast : (e₀ :: es₀).getLast (List.cons_ne_nil e₀ es₀) = e := by simp [← h₀]
  have hdrop : (e₀ :: es₀).dropLast = es := by simp [← h₀]
  unfold condSignal
  rw [hp, hc, h₀]
  simp [hlast, hdrop]

end Kernel

/-! ## A woken sleeper waits for the time slice -/

/-- `main` (priority 31) creates a thread of priority 40, which runs at once and sleeps for one
tick; `main` runs again, back in its own code. -/
def sleeperSchedule : List Action := createRun 40 ++ [.call (.sleep 1), .exec]

theorem timer_wakeup_not_preempted :
    ∃ evs k, KRun .prio (fun _ => 0) evs k ∧ k.panicked = false ∧ k.intrOn = true ∧
      -- the timer interrupt returns to the interrupted thread, in its own code,
      k.timerInterrupt.current = k.current ∧ k.timerInterrupt.code = [] ∧
      -- while the sleeper it woke is ready with a higher effective priority
      ∃ t ∈ k.timerInterrupt.readyList,
        k.timerInterrupt.threadGetPriorityOf k.current < k.timerInterrupt.threadGetPriorityOf t :=
  Kernel.exists_run_of_replayEndsIn _ sleeperSchedule _ (by decide +kernel)

/-! ## `cond_signal` wakes the last of equal waiters -/

/-- Under `SCHED_PRIO`, threads 2 and 3 (priority 31, like `main`) each take lock 1 and wait on
condition 0, thread 2 first; `main` takes lock 1 and calls `cond_signal`. -/
def condSignalSchedule : List Action :=
  createRun 31 ++ [.call (.lockAcquire 1)] ++ execs 4 ++ [.call (.condWait 0 1)] ++ execs 6 ++
  createRun 31 ++ [.call (.lockAcquire 1)] ++ execs 4 ++ [.call (.condWait 0 1)] ++ execs 6 ++
  [.call (.lockAcquire 1)] ++ execs 4 ++ [.call (.condSignal 0 1)]

theorem cond_signal_wakes_last_waiter :
    ∃ evs k, KRun .prio (fun _ => 0) evs k ∧ k.current = 1 ∧ k.code = [.condSignal 0] ∧
      -- thread 2 waited first, on semaphore 0, then thread 3 on semaphore 1, at equal priority
      k.conds 0 = [⟨0, 2⟩, ⟨1, 3⟩] ∧ k.threadGetPriorityOf 2 = k.threadGetPriorityOf 3 ∧
      -- `cond_signal` ups thread 3's semaphore and leaves thread 2 waiting
      (k.condSignal 0 []).code = [.semaUp (.waiter 1)] ∧ (k.condSignal 0 []).conds 0 = [⟨0, 2⟩] :=
  Kernel.exists_run_of_replayEndsIn _ condSignalSchedule _ (by decide +kernel)

end Pintos
