import Pintos.Threads.Machine

/-!
# `devices/timer.c`: the alarm clock

`timer_sleep (ticks)` stores `wake_time = timer_ticks () + ticks` in the running thread, inserts
it in `sleep_list` by `wake_time_less` and blocks it; `timer_interrupt` increments `ticks`, and
`timer_wake_sleeping_threads` unblocks the sleepers at the front of `sleep_list` whose
`wake_time` is not after `ticks`.

`wake_time` is an `int64_t` and the sum is not checked.  Once `timer_ticks () + ticks` passes
`INT64_MAX` it wraps to a negative wake time (`int64Add_of_lt`, `timerSleep_wakeTime`), which
`ticks` already exceeds: the next timer interrupt wakes the thread, `INT64_MAX` ticks early
(`timer_sleep_overflow_wakes_early`).
-/

set_option autoImplicit false

namespace Pintos

/-- An `int64_t` sum past `INT64_MAX` wraps by `2^64`. -/
theorem int64Add_of_lt {a b : Int} (ha : 0 ≤ a) (ha' : a ≤ INT64_MAX) (hb : b ≤ INT64_MAX)
    (hov : INT64_MAX < a + b) : int64Add a b = a + b - 2 ^ 64 := by
  have hmax : INT64_MAX = 9223372036854775807 := rfl
  have hm : ((2 ^ 64 : Nat) : Int) = 18446744073709551616 := rfl
  have hm' : (2 : Int) ^ 64 = 18446744073709551616 := rfl
  rw [hmax] at ha' hb hov
  rw [int64Add, Int.bmod, hm, hm']
  -- the sum lies in `[2^63, 2^64)`, the upper half of the residues
  split <;> omega

namespace Kernel

variable (k : Kernel)

/-- `timer_sleep (n)` for `n > 0` sets the running thread's `wake_time` to the `int64_t` sum of
the tick count and `n`. -/
theorem timerSleep_wakeTime {n : Int} (hn : 0 < n) (rest : List Instr) :
    ((k.timerSleep n rest).threads k.current).wakeTime = int64Add k.ticks n := by
  unfold timerSleep threadBlock
  rw [if_neg (by omega), schedule_threads]
  simp only [setCode_current, modifyThread_current, modifyThread_threads_self, setCode_threads]
  split <;> simp

end Kernel

/-! ## A long sleep wakes at the next tick -/

/-- `main` takes one timer interrupt, then calls `timer_sleep (INT64_MAX)`. -/
def oversleepSchedule : List Action := [.timer, .call (.sleep INT64_MAX)]

theorem timer_sleep_overflow_wakes_early :
    ∃ evs k, KRun .fifo (fun _ => 0) evs k ∧ k.current = 1 ∧ k.ticks = 1 ∧
      k.code = [.timerSleep INT64_MAX] ∧
      -- `timer_sleep` puts `main` to sleep, and the idle thread runs with interrupts on,
      (k.timerSleep INT64_MAX []).sleepList = [1] ∧
      ((k.timerSleep INT64_MAX []).threads 1).status = .blocked ∧
      (k.timerSleep INT64_MAX []).intrOn = true ∧
      -- but the next timer interrupt, at tick 2, already makes it ready
      (k.timerSleep INT64_MAX []).timerInterrupt.ticks = 2 ∧
      ((k.timerSleep INT64_MAX []).timerInterrupt.threads 1).status = .ready ∧
      (k.timerSleep INT64_MAX []).timerInterrupt.sleepList = [] :=
  Kernel.exists_run_of_replayEndsIn _ oversleepSchedule _ (by decide +kernel)

end Pintos
