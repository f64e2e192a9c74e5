import Pintos.Threads.State

/-!
# Scheduling (`thread.c`) and the timer interrupt (`timer.c`)

* `threadEnqueue`, `threadUnblock`, `threadBlock`, `threadYield` — `thread_enqueue`,
  `thread_unblock`, `thread_block`, `thread_yield`;
* `nextThreadToRun` — `thread_schedule_fifo` (pop the front) and `thread_schedule_prio`
  (`list_max` by effective priority, then `list_remove`); the idle thread when the ready list
  is empty;
* `schedule` — `schedule` and `thread_switch_tail`: the chosen thread runs and a new time
  slice starts;
* `threadHasHighestPriority` — `thread_has_highest_priority`;
* `timerInterrupt` — `timer_interrupt`: `ticks++`, `timer_wake_sleeping_threads`, and
  `thread_tick`, whose `intr_yield_on_return` makes the interrupted thread yield when its
  slice is used up.

The statistics counters of `thread_tick` are not modelled: no modelled function reads them.
-/

set_option autoImplicit false

namespace Pintos

namespace Kernel

variable (k : Kernel)

/-- `thread_enqueue`: both implemented policies append to `fifo_ready_list`. -/
def threadEnqueue (t : Nat) : Kernel := { k with readyList := k.readyList ++ [t] }

/-- `thread_unblock`. -/
def threadUnblock (t : Nat) : Kernel :=
  (k.threadEnqueue t).modifyThread t fun th => { th with status := .ready }

/-- `next_thread_to_run`: the thread chosen by the active policy, and the ready list without
it. -/
def nextThreadToRun : Nat × List Nat :=
  match k.policy with
  | .fifo =>
    match k.readyList with
    | [] => (k.idle, [])
    | t :: l => (t, l)
  | .prio =>
    match listMax k.threadPriorityLess k.readyList with
    | none => (k.idle, k.readyList)
    | some t => (t, k.readyList.erase t)

/-- `schedule` followed by `thread_switch_tail`. -/
def schedule : Kernel :=
  ({ k with current := k.nextThreadToRun.1, readyList := k.nextThreadToRun.2, threadTicks := 0 }
    ).modifyThread k.nextThreadToRun.1 fun th => { th with status := .running }

/-- `thread_block`. -/
def threadBlock : Kernel :=
  (k.modifyThread k.current fun th => { th with status := .blocked }).schedule

/-- `thread_yield`: the idle thread is never put on the ready list. -/
def threadYield : Kernel :=
  ((if k.current ≠ k.idle then k.threadEnqueue k.current else k).modifyThread k.current
    fun th => { th with status := .ready }).schedule

/-- `thread_has_highest_priority`. -/
def threadHasHighestPriority : Bool :=
  match listMax k.threadPriorityLess k.readyList with
  | none => true
  | some h => !decide (k.threadGetPriorityOf h > k.threadGetPriorityOf k.current)

/-- `wake_time_less`. -/
def wakeTimeLess (a b : Nat) : Bool := decide ((k.threads a).wakeTime < (k.threads b).wakeTime)

end Kernel

/-- The loop of `timer_wake_sleeping_threads`: unblock sleepers from the front of `sleep_list`
while their `wake_time` has passed. -/
def wakeSleeping (now : Int) : List Nat → Kernel → Kernel
  | [], k => { k with sleepList := [] }
  | t :: l, k =>
    if (k.threads t).wakeTime > now then { k with sleepList := t :: l }
    else wakeSleeping now l (k.threadUnblock t)

section
-- the equation lemmas, generated once here rather than by each proof below that unfolds
-- these definitions
attribute [local simp] wakeSleeping
end

namespace Kernel

variable (k : Kernel)

/-- `timer_wake_sleeping_threads`. -/
def timerWakeSleepingThreads : Kernel := wakeSleeping k.ticks k.sleepList k

/-- `timer_interrupt`, including the `thread_yield` that `intr_yield_on_return` requests. -/
def timerInterrupt : Kernel :=
  let k₁ := ({ k with ticks := k.ticks + 1 } : Kernel).timerWakeSleepingThreads
  let k₂ := { k₁ with threadTicks := k₁.threadTicks + 1 }
  if k₂.threadTicks ≥ TIME_SLICE then k₂.threadYield else k₂

end Kernel

/-! ## Field lemmas -/

namespace Kernel

variable {k : Kernel}

section Enqueue

variable (t u : Nat)

@[simp] theorem threadEnqueue_readyList : (k.threadEnqueue t).readyList = k.readyList ++ [t] := rfl
@[simp] theorem threadEnqueue_threads : (k.threadEnqueue t).threads = k.threads := rfl
@[simp] theorem threadEnqueue_current : (k.threadEnqueue t).current = k.current := rfl
@[simp] theorem threadEnqueue_idle : (k.threadEnqueue t).idle = k.idle := rfl
@[simp] theorem threadEnqueue_sleepList : (k.threadEnqueue t).sleepList = k.sleepList := rfl
@[simp] theorem threadEnqueue_semas : (k.threadEnqueue t).semas = k.semas := rfl
@[simp] theorem threadEnqueue_nextThread : (k.threadEnqueue t).nextThread = k.nextThread := rfl

@[simp] theorem threadUnblock_readyList : (k.threadUnblock t).readyList = k.readyList ++ [t] :=
  rfl
@[simp] theorem threadUnblock_current : (k.threadUnblock t).current = k.current := rfl
@[simp] theorem threadUnblock_idle : (k.threadUnblock t).idle = k.idle := rfl
@[simp] theorem threadUnblock_sleepList : (k.threadUnblock t).sleepList = k.sleepList := rfl
@[simp] theorem threadUnblock_semas : (k.threadUnblock t).semas = k.semas := rfl
@[simp] theorem threadUnblock_holder : (k.threadUnblock t).holder = k.holder := rfl
@[simp] theorem threadUnblock_nextThread : (k.threadUnblock t).nextThread = k.nextThread := rfl
@[simp] theorem threadUnblock_panicked : (k.threadUnblock t).panicked = k.panicked := rfl
@[simp] theorem threadUnblock_policy : (k.threadUnblock t).policy = k.policy := rfl
@[simp] theorem threadUnblock_conds : (k.threadUnblock t).conds = k.conds := rfl
@[simp] theorem threadUnblock_nextWaiter : (k.threadUnblock t).nextWaiter = k.nextWaiter := rfl

theorem threadUnblock_threads :
    (k.threadUnblock t).threads u =
      if u = t then { k.threads t with status := .ready } else k.threads u :=
  modifyThread_threads _ _ _

theorem threadUnblock_status :
    ((k.threadUnblock t).threads u).status = if u = t then .ready else (k.threads u).status := by
  rw [threadUnblock_threads]
  split <;> rfl

@[simp] theorem threadUnblock_code : ((k.threadUnblock t).threads u).code = (k.threads u).code := by
  rw [threadUnblock_threads]
  split <;> simp_all

end Enqueue

section Schedule

variable (u : Nat)

@[simp] theorem schedule_current : k.schedule.current = k.nextThreadToRun.1 := rfl
@[simp] theorem schedule_readyList : k.schedule.readyList = k.nextThreadToRun.2 := rfl
@[simp] theorem schedule_idle : k.schedule.idle = k.idle := rfl
@[simp] theorem schedule_sleepList : k.schedule.sleepList = k.sleepList := rfl
@[simp] theorem schedule_semas : k.schedule.semas = k.semas := rfl
@[simp] theorem schedule_holder : k.schedule.holder = k.holder := rfl
@[simp] theorem schedule_nextThread : k.schedule.nextThread = k.nextThread := rfl
@[simp] theorem schedule_panicked : k.schedule.panicked = k.panicked := rfl
@[simp] theorem schedule_policy : k.schedule.policy = k.policy := rfl

theorem schedule_threads :
    k.schedule.threads u =
      if u = k.nextThreadToRun.1 then { k.threads u with status := .running } else k.threads u := by
  unfold schedule
  rw [modifyThread_threads]
  split <;> simp_all

theorem schedule_status :
    (k.schedule.threads u).status =
      if u = k.nextThreadToRun.1 then .running else (k.threads u).status := by
  rw [schedule_threads]
  split <;> rfl

@[simp] theorem schedule_code : (k.schedule.threads u).code = (k.threads u).code := by
  rw [schedule_threads]
  split <;> rfl

@[simp] theorem schedule_conds : k.schedule.conds = k.conds := rfl
@[simp] theorem schedule_nextWaiter : k.schedule.nextWaiter = k.nextWaiter := rfl

/-- `next_thread_to_run` either finds the ready list empty and returns the idle thread, or
removes one of its members. -/
theorem nextThreadToRun_cases :
    (k.readyList = [] ∧ k.nextThreadToRun = (k.idle, [])) ∨
      (k.nextThreadToRun.1 ∈ k.readyList ∧
        k.nextThreadToRun.2 = k.readyList.erase k.nextThreadToRun.1) := by
  unfold nextThreadToRun
  cases k.policy with
  | fifo =>
    cases hr : k.readyList with
    | nil => exact Or.inl ⟨rfl, rfl⟩
    | cons t l => exact Or.inr ⟨List.mem_cons_self, by simp⟩
  | prio =>
    cases hm : listMax k.threadPriorityLess k.readyList with
    | none =>
      have hnil : k.readyList = [] := listMax_eq_none.mp hm
      exact Or.inl ⟨hnil, by simp [hnil]⟩
    | some t =>
      have hm' : listMax (fun a b => decide (k.threadGetPriorityOf a < k.threadGetPriorityOf b))
          k.readyList = some t := hm
      exact Or.inr ⟨listMax_mem hm', rfl⟩

end Schedule

end Kernel

section Block

variable {k : Kernel}

@[simp] theorem threadBlock_semas : k.threadBlock.semas = k.semas := rfl
@[simp] theorem threadBlock_holder : k.threadBlock.holder = k.holder := rfl
@[simp] theorem threadBlock_conds : k.threadBlock.conds = k.conds := rfl
@[simp] theorem threadBlock_nextWaiter : k.threadBlock.nextWaiter = k.nextWaiter := rfl
@[simp] theorem threadBlock_panicked : k.threadBlock.panicked = k.panicked := rfl
@[simp] theorem threadBlock_policy : k.threadBlock.policy = k.policy := rfl

@[simp] theorem threadYield_semas : k.threadYield.semas = k.semas := by
  unfold Kernel.threadYield; split <;> rfl
@[simp] theorem threadYield_holder : k.threadYield.holder = k.holder := by
  unfold Kernel.threadYield; split <;> rfl
@[simp] theorem threadYield_conds : k.threadYield.conds = k.conds := by
  unfold Kernel.threadYield; split <;> rfl
@[simp] theorem threadYield_nextWaiter : k.threadYield.nextWaiter = k.nextWaiter := by
  unfold Kernel.threadYield; split <;> rfl
@[simp] theorem threadYield_panicked : k.threadYield.panicked = k.panicked := by
  unfold Kernel.threadYield; split <;> rfl
@[simp] theorem threadYield_policy : k.threadYield.policy = k.policy := by
  unfold Kernel.threadYield; split <;> rfl

@[simp] theorem threadBlock_code (u : Nat) : (k.threadBlock.threads u).code = (k.threads u).code := by
  simp [Kernel.threadBlock]
@[simp] theorem threadYield_code (u : Nat) : (k.threadYield.threads u).code = (k.threads u).code := by
  unfold Kernel.threadYield; split <;> simp

end Block

section Wake

variable (now : Int)

/-- The fields `timer_wake_sleeping_threads` leaves alone. -/
theorem wakeSleeping_fields :
    ∀ (l : List Nat) (k : Kernel), (wakeSleeping now l k).semas = k.semas ∧
      (wakeSleeping now l k).holder = k.holder ∧ (wakeSleeping now l k).conds = k.conds ∧
      (wakeSleeping now l k).nextWaiter = k.nextWaiter ∧ (wakeSleeping now l k).policy = k.policy
  | [], _ => ⟨rfl, rfl, rfl, rfl, rfl⟩
  | t :: l, k => by
    simp only [wakeSleeping]
    split
    · exact ⟨rfl, rfl, rfl, rfl, rfl⟩
    · exact wakeSleeping_fields l (k.threadUnblock t)

@[simp] theorem wakeSleeping_semas (l : List Nat) (k : Kernel) :
    (wakeSleeping now l k).semas = k.semas := (wakeSleeping_fields now l k).1
@[simp] theorem wakeSleeping_holder (l : List Nat) (k : Kernel) :
    (wakeSleeping now l k).holder = k.holder := (wakeSleeping_fields now l k).2.1
@[simp] theorem wakeSleeping_conds (l : List Nat) (k : Kernel) :
    (wakeSleeping now l k).conds = k.conds := (wakeSleeping_fields now l k).2.2.1
@[simp] theorem wakeSleeping_nextWaiter (l : List Nat) (k : Kernel) :
    (wakeSleeping now l k).nextWaiter = k.nextWaiter := (wakeSleeping_fields now l k).2.2.2.1
@[simp] theorem wakeSleeping_policy (l : List Nat) (k : Kernel) :
    (wakeSleeping now l k).policy = k.policy := (wakeSleeping_fields now l k).2.2.2.2

@[simp] theorem wakeSleeping_panicked :
    ∀ (l : List Nat) (k : Kernel), (wakeSleeping now l k).panicked = k.panicked
  | [], _ => rfl
  | t :: l, k => by
    simp only [wakeSleeping]
    split
    · rfl
    · rw [wakeSleeping_panicked l]; rfl

@[simp] theorem wakeSleeping_current :
    ∀ (l : List Nat) (k : Kernel), (wakeSleeping now l k).current = k.current
  | [], _ => rfl
  | t :: l, k => by
    simp only [wakeSleeping]
    split
    · rfl
    · rw [wakeSleeping_current l]; rfl

@[simp] theorem wakeSleeping_code (u : Nat) :
    ∀ (l : List Nat) (k : Kernel), ((wakeSleeping now l k).threads u).code = (k.threads u).code
  | [], _ => rfl
  | t :: l, k => by
    simp only [wakeSleeping]
    split
    · rfl
    · rw [wakeSleeping_code u l]; simp

end Wake

namespace Kernel

variable {k : Kernel}

@[simp] theorem timerInterrupt_semas : k.timerInterrupt.semas = k.semas := by
  unfold timerInterrupt timerWakeSleepingThreads; dsimp only; split <;> simp
@[simp] theorem timerInterrupt_holder : k.timerInterrupt.holder = k.holder := by
  unfold timerInterrupt timerWakeSleepingThreads; dsimp only; split <;> simp
@[simp] theorem timerInterrupt_conds : k.timerInterrupt.conds = k.conds := by
  unfold timerInterrupt timerWakeSleepingThreads; dsimp only; split <;> simp
@[simp] theorem timerInterrupt_nextWaiter : k.timerInterrupt.nextWaiter = k.nextWaiter := by
  unfold timerInterrupt timerWakeSleepingThreads; dsimp only; split <;> simp
@[simp] theorem timerInterrupt_policy : k.timerInterrupt.policy = k.policy := by
  unfold timerInterrupt timerWakeSleepingThreads; dsimp only; split <;> simp
@[simp] theorem timerInterrupt_code (u : Nat) :
    (k.timerInterrupt.threads u).code = (k.threads u).code := by
  unfold timerInterrupt timerWakeSleepingThreads; dsimp only; split <;> simp

end Kernel

end Pintos
