import Pintos.Threads.Sched
import Pintos.Lib.Run

/-!
# The kernel machine: `synch.c` and the thread operations as steps

Every atomic block of `Instr` is executed by `Kernel.exec` for the running thread, which
replaces the block by what follows it in the thread's continuation (loops put themselves
back, calls put the callee's blocks in front).  `Step` is the machine:

* `call` — a thread back in its own code calls an operation whose entry assertions hold
  (`lock_release` only by the holder, `lock_acquire` not by it, …): its blocks become the
  continuation (`Call.code`);
* `exec` — the running thread executes its next block;
* `createFail` — `palloc_get_page` fails in `thread_create`, which returns `TID_ERROR`;
* `timer` — the timer interrupt, whenever interrupts are on;
* `irqSemaUp` — a device interrupt handler calls `sema_up` on a free-standing semaphore
  (as `ide.c` does), yielding on return if it woke a thread of higher priority.

Events label the steps that complete a semaphore operation and those that open and close a
lock's critical section, so that properties can count them along a run.

`thread_revoke_made_donations_recurse` either returns at one of its three early exits or runs
its `while (e != NULL)` loop, which calls `list_next` on the list's tail and fails that
function's assertion: `revokeMadeDonationsPanics` says which, and the machine stops
(`panicked`) in the second case.
-/

set_option autoImplicit false

namespace Pintos

/-- Events of a step. -/
inductive Event where
  | tau
  /-- `sema_up` incremented `value`. -/
  | semaUp (s : SemaRef)
  /-- `sema_down` decremented `value` and returns. -/
  | semaDown (s : SemaRef)
  /-- `sema_try_down` decremented `value`. -/
  | semaTryDown (s : SemaRef)
  /-- `lock_acquire` or `lock_try_acquire` returns with the lock. -/
  | acquired (t : Nat) (l : Nat)
  /-- `lock_release` starts. -/
  | releasing (t : Nat) (l : Nat)
  deriving DecidableEq, Repr

/-- The blocks of `lock_acquire`. -/
def acquireCode (p : SchedPolicy) (l : Nat) : List Instr :=
  (if p = .prio then [.lockDonate l] else []) ++
    [.semaDown (.lock l), .lockSetHolder l, .lockClearDonatingTo l]

/-- The blocks of `lock_release`. -/
def releaseCode (p : SchedPolicy) (l : Nat) : List Instr :=
  [.lockClearHolder l, .semaUp (.lock l)] ++ (if p = .prio then [.lockRevoke l] else [])

namespace Kernel

variable (k : Kernel)

/-- The interrupts-off part of `sema_up` up to `value++`: the waiter chosen by the policy is
removed and unblocked; the second component is `max_waiter_prio`. -/
def semaUpWake (s : SemaRef) : Kernel × Int :=
  match k.policy with
  | .prio =>
    match listMax k.threadPriorityLess (k.semas s).waiters with
    | none => (k, PRI_MIN)
    | some t =>
      let k₁ := (k.modifySema s fun sm => { sm with waiters := sm.waiters.erase t }).threadUnblock t
      (k₁, k₁.threadGetPriorityOf t)
  | .fifo =>
    match (k.semas s).waiters with
    | [] => (k, PRI_MIN)
    | t :: ws => ((k.modifySema s fun sm => { sm with waiters := ws }).threadUnblock t, PRI_MIN)

/-- The interrupts-off part of `sema_up`. -/
def semaUp (s : SemaRef) : Kernel × Int :=
  ((k.semaUpWake s).1.modifySema s (fun sm => { sm with value := sm.value + 1 }), (k.semaUpWake s).2)

section
-- the equation lemmas, generated once here rather than by each proof below that unfolds
-- these definitions
attribute [local simp] semaUp
end

section SemaUp

variable {k : Kernel} (s : SemaRef)

/-- Under either policy, `sema_up` before `value++` changes nothing, or changes the waiters of
`s` (and nothing else of it) and unblocks one thread. -/
theorem semaUpWake_self_or_unblock :
    (k.semaUpWake s).1 = k ∨ ∃ t f, (∀ sm, (f sm).value = sm.value) ∧
      (k.semaUpWake s).1 = (k.modifySema s f).threadUnblock t := by
  unfold semaUpWake
  split
  · split
    · exact .inl rfl
    · exact .inr ⟨_, _, by intro; rfl, rfl⟩
  · split
    · exact .inl rfl
    · exact .inr ⟨_, _, by intro; rfl, rfl⟩

/-- A part of the kernel that neither `modify_sema` nor `thread_unblock` changes is one that
`sema_up` keeps before `value++`. -/
theorem semaUpWake_keeps {β : Type} (g : Kernel → β)
    (hg : ∀ t f, g ((k.modifySema s f).threadUnblock t) = g k) : g (k.semaUpWake s).1 = g k := by
  rcases semaUpWake_self_or_unblock (k := k) s with h | ⟨t, f, -, h⟩
  · rw [h]
  · rw [h, hg]

@[simp] theorem semaUpWake_panicked : (k.semaUpWake s).1.panicked = k.panicked :=
  semaUpWake_keeps s Kernel.panicked fun _ _ => rfl

@[simp] theorem semaUpWake_current : (k.semaUpWake s).1.current = k.current :=
  semaUpWake_keeps s Kernel.current fun _ _ => rfl

@[simp] theorem semaUpWake_code : (k.semaUpWake s).1.code = k.code :=
  semaUpWake_keeps s Kernel.code fun _ _ => by simp [code]

@[simp] theorem semaUpWake_threads_code (u : Nat) :
    ((k.semaUpWake s).1.threads u).code = (k.threads u).code :=
  semaUpWake_keeps s (fun k => (k.threads u).code) fun _ _ => by simp

@[simp] theorem semaUp_threads_code (u : Nat) :
    ((k.semaUp s).1.threads u).code = (k.threads u).code := by
  simp [semaUp]

@[simp] theorem semaUp_panicked : (k.semaUp s).1.panicked = k.panicked := by
  simp [semaUp]

@[simp] theorem semaUp_current : (k.semaUp s).1.current = k.current := by
  simp [semaUp]

@[simp] theorem semaUp_code : (k.semaUp s).1.code = k.code := by
  simp [semaUp]

end SemaUp

/-- `sema_up` called by an external interrupt handler. -/
def irqSemaUp (n : Nat) : Kernel :=
  if (k.semaUp (.sema n)).2 > (k.semaUp (.sema n)).1.threadGetPriorityOf k.current then
    (k.semaUp (.sema n)).1.threadYield
  else (k.semaUp (.sema n)).1

/-- `thread_revoke_made_donations (t)` reaches the loop that runs past the list's tail. -/
def revokeMadeDonationsPanics (t : Nat) : Bool :=
  match (k.threads t).donatingTo with
  | none => false
  | some d => !(k.threads d).donations.isEmpty && (k.threads d).donatingTo.isSome

/-- `thread_revoke_donations_for_lock`. -/
def revokeDonationsForLock (t : Nat) (l : Nat) : Kernel :=
  k.modifyThread t fun th => { th with donations := th.donations.filter fun d => d.lock ≠ l }

/-- One test of `value` in `sema_down`: block on the waiters list, or decrement and return. -/
def semaDownTest (s : SemaRef) (rest : List Instr) : Kernel × Event :=
  if (k.semas s).value = 0 then
    (((k.modifySema s fun sm => { sm with waiters := sm.waiters ++ [k.current] }).setCode
      (.semaDownLoop s :: rest)).threadBlock, .tau)
  else ((k.modifySema s fun sm => { sm with value := sm.value - 1 }).setCode rest, .semaDown s)

/-- The donation block of `lock_acquire` under `SCHED_PRIO`, up to its loop. -/
def lockDonate (l : Nat) (rest : List Instr) : Kernel :=
  match k.holder l with
  | some h =>
    if (k.threads k.current).donatingTo = none then
      (((k.modifyThread h fun th =>
          { th with donations := th.donations ++
            [⟨k.threadGetPriorityOf k.current, k.current, l⟩] }).modifyThread k.current
          fun th => { th with donatingTo := some h }).setCode
        (.donateLoop (k.threadGetPriorityOf k.current) h :: rest))
    else k.setCode rest
  | none => k.setCode rest

/-- One turn of `lock_acquire`'s propagation loop from `recipient`. -/
def donateLoop (p : Int) (r : Nat) (rest : List Instr) : Kernel :=
  match (k.threads r).donatingTo with
  | none => k.setCode rest
  | some n =>
    (k.modifyThread n fun th => { th with donations := raiseDonation r p th.donations }).setCode
      (.donateLoop p n :: rest)

/-- `thread_set_priority` up to its `thread_yield`. -/
def setPriority (p : Int) (rest : List Instr) : Kernel :=
  let k₁ := k.modifyThread k.current fun th => { th with priority := p }
  if k.threadGetPriorityOf k.current ≠ k₁.threadGetPriorityOf k.current then
    match (k₁.threads k.current).donatingTo with
    | none => k₁.setCode (.yield :: rest)
    | some d => k₁.setCode (.updateDonations k.current d :: .yield :: rest)
  else k₁.setCode (.yield :: rest)

/-- One call of `thread_update_donations_recurse (donor, donee)`. -/
def updateDonations (donor donee : Nat) (rest : List Instr) : Kernel :=
  if (k.threads donee).donations.any (fun d => d.donor = donor) then
    let k₁ := k.modifyThread donee fun th =>
      { th with
        donations := threadSortDonations (setDonation donor (k.threadGetPriorityOf donor) th.donations) }
    match (k₁.threads donee).donatingTo with
    | none => k₁.setCode rest
    | some n => k₁.setCode (.updateDonations donee n :: rest)
  else k.setCode rest

/-- `thread_create` after a successful `palloc_get_page`: the new thread is blocked until
`thread_unblock`; `allocate_tid` runs under `tid_lock`. -/
def createAlloc (p : Int) (rest : List Instr) : Kernel :=
  (({ k with nextThread := k.nextThread + 1 } : Kernel).setThread k.nextThread
    ⟨0, .blocked, p, [], none, 0, []⟩).setCode
    (acquireCode k.policy tidLock ++ [.allocTid k.nextThread] ++ releaseCode k.policy tidLock ++
      [.createStart k.nextThread, .yield] ++ rest)

/-- `thread_exit`. -/
def threadExit (rest : List Instr) : Kernel :=
  let k₁ := (k.setCode rest).modifyThread k.current fun th => { th with status := .dying }
  match k.policy with
  | .fifo => k₁.schedule
  | .prio =>
    let k₂ := k₁.modifyThread k.current fun th => { th with donations := [] }
    if k₂.revokeMadeDonationsPanics k.current then { k₂ with panicked := true } else k₂.schedule

/-- `timer_sleep`. -/
def timerSleep (n : Int) (rest : List Instr) : Kernel :=
  if n ≤ 0 then k.setCode rest
  else
    let k₁ := k.modifyThread k.current fun th => { th with wakeTime := int64Add k.ticks n }
    ({ k₁ with sleepList := listInsertOrdered k₁.wakeTimeLess k.current k₁.sleepList }.setCode
      rest).threadBlock

/-- `semaphore_elem_thread_priority_less`. -/
def semaElemLess (a b : SemaElem) : Bool :=
  decide (k.threadGetPriorityOf a.thread < k.threadGetPriorityOf b.thread)

/-- `cond_wait` up to `lock_release`: a fresh semaphore of value 0 and its element, inserted
in priority order under `SCHED_PRIO` and at the back otherwise. -/
def condWait (c : Nat) (l : Nat) (rest : List Instr) : Kernel :=
  ({ k with
      nextWaiter := k.nextWaiter + 1
      semas := Function.update k.semas (.waiter k.nextWaiter) ⟨0, []⟩
      conds := Function.update k.conds c
        (match k.policy with
         | .prio => listInsertOrdered k.semaElemLess ⟨k.nextWaiter, k.current⟩ (k.conds c)
         | .fifo => k.conds c ++ [⟨k.nextWaiter, k.current⟩]) } : Kernel).setCode
    (releaseCode k.policy l ++ [.semaDown (.waiter k.nextWaiter)] ++ acquireCode k.policy l ++ rest)

/-- `cond_signal`: `list_pop_back` under `SCHED_PRIO`, `list_pop_front` otherwise, then
`sema_up` on the popped element's semaphore. -/
def condSignal (c : Nat) (rest : List Instr) : Kernel :=
  match k.policy, k.conds c with
  | _, [] => k.setCode rest
  | .prio, e :: es =>
    ({ k with conds := Function.update k.conds c (e :: es).dropLast } : Kernel).setCode
      (.semaUp (.waiter ((e :: es).getLast (List.cons_ne_nil e es)).sema) :: rest)
  | .fifo, e :: es =>
    ({ k with conds := Function.update k.conds c es } : Kernel).setCode
      (.semaUp (.waiter e.sema) :: rest)

/-- One block of the running thread. -/
def exec (i : Instr) (rest : List Instr) : Kernel × Event :=
  match i with
  | .semaDown s => k.semaDownTest s rest
  | .semaDownLoop s => k.semaDownTest s rest
  | .semaTryDown s =>
    if (k.semas s).value > 0 then
      ((k.modifySema s fun sm => { sm with value := sm.value - 1 }).setCode rest, .semaTryDown s)
    else (k.setCode rest, .tau)
  | .semaUp s => ((k.semaUp s).1.setCode (.semaUpCheck (k.semaUp s).2 :: rest), .semaUp s)
  | .semaUpCheck p =>
    (k.setCode (if p > k.threadGetPriorityOf k.current then .yield :: rest else rest), .tau)
  | .lockDonate l => (k.lockDonate l rest, .tau)
  | .donateLoop p r => (k.donateLoop p r rest, .tau)
  | .lockSetHolder l =>
    (({ k with holder := Function.update k.holder l (some k.current) } : Kernel).setCode rest, .tau)
  | .lockClearDonatingTo l =>
    ((k.modifyThread k.current fun th => { th with donatingTo := none }).setCode rest,
      .acquired k.current l)
  | .lockTryAcquire l =>
    if (k.semas (.lock l)).value > 0 then
      ((k.modifySema (.lock l) fun sm => { sm with value := sm.value - 1 }).setCode
        (.lockTrySetHolder l :: rest), .semaTryDown (.lock l))
    else (k.setCode rest, .tau)
  | .lockTrySetHolder l =>
    (({ k with holder := Function.update k.holder l (some k.current) } : Kernel).setCode rest,
      .acquired k.current l)
  | .lockClearHolder l =>
    (({ k with holder := Function.update k.holder l none } : Kernel).setCode rest,
      .releasing k.current l)
  | .lockRevoke l =>
    if k.revokeMadeDonationsPanics k.current then ({ k with panicked := true }, .tau)
    else
      ((k.revokeDonationsForLock k.current l).setCode
        (if (k.revokeDonationsForLock k.current l).threadHasHighestPriority then rest
         else .yield :: rest), .tau)
  | .condWait c l => (k.condWait c l rest, .tau)
  | .condSignal c => (k.condSignal c rest, .tau)
  | .condBroadcast c =>
    (k.setCode (if k.conds c = [] then rest else .condSignal c :: .condBroadcast c :: rest), .tau)
  | .yield => ((k.setCode rest).threadYield, .tau)
  | .setPriority p => (k.setPriority p rest, .tau)
  | .updateDonations donor donee => (k.updateDonations donor donee rest, .tau)
  | .createAlloc p => (k.createAlloc p rest, .tau)
  | .allocTid c =>
    ((({ k with nextTid := k.nextTid + 1 } : Kernel).modifyThread c
      fun th => { th with tid := k.nextTid }).setCode rest, .tau)
  | .createStart c => ((k.setCode rest).threadUnblock c, .tau)
  | .exit => (k.threadExit rest, .tau)
  | .timerSleep n => (k.timerSleep n rest, .tau)
  | .idleBlock => (k.threadBlock, .tau)

section
-- the equation lemmas, generated once here rather than by each proof below that unfolds
-- these definitions
attribute [local simp] exec
end

/-! ### Fields the blocks leave alone -/

section Frame

variable {k : Kernel} (rest : List Instr)

@[simp] theorem semaUpWake_value (s s' : SemaRef) :
    ((k.semaUpWake s).1.semas s').value = (k.semas s').value := by
  rcases semaUpWake_self_or_unblock (k := k) s with h | ⟨t, f, hf, h⟩
  · rw [h]
  · rw [h, threadUnblock_semas, modifySema_semas]
    split
    · next hs => rw [hf, hs]
    · rfl

@[simp] theorem semaUpWake_holder (s : SemaRef) : (k.semaUpWake s).1.holder = k.holder :=
  semaUpWake_keeps s Kernel.holder fun _ _ => rfl

@[simp] theorem semaUpWake_policy (s : SemaRef) : (k.semaUpWake s).1.policy = k.policy :=
  semaUpWake_keeps s Kernel.policy fun _ _ => rfl

@[simp] theorem semaUp_holder (s : SemaRef) : (k.semaUp s).1.holder = k.holder := by
  simp [semaUp]

@[simp] theorem semaUp_policy (s : SemaRef) : (k.semaUp s).1.policy = k.policy := by
  simp [semaUp]

@[simp] theorem semaUpWake_conds (s : SemaRef) : (k.semaUpWake s).1.conds = k.conds :=
  semaUpWake_keeps s Kernel.conds fun _ _ => rfl

@[simp] theorem semaUpWake_nextWaiter (s : SemaRef) :
    (k.semaUpWake s).1.nextWaiter = k.nextWaiter :=
  semaUpWake_keeps s Kernel.nextWaiter fun _ _ => rfl

@[simp] theorem semaUp_conds (s : SemaRef) : (k.semaUp s).1.conds = k.conds := by
  simp [semaUp]

@[simp] theorem semaUp_nextWaiter (s : SemaRef) : (k.semaUp s).1.nextWaiter = k.nextWaiter := by
  simp [semaUp]

@[simp] theorem irqSemaUp_holder (n : Nat) : (k.irqSemaUp n).holder = k.holder := by
  unfold irqSemaUp; split <;> simp
@[simp] theorem irqSemaUp_conds (n : Nat) : (k.irqSemaUp n).conds = k.conds := by
  unfold irqSemaUp; split <;> simp
@[simp] theorem irqSemaUp_nextWaiter (n : Nat) : (k.irqSemaUp n).nextWaiter = k.nextWaiter := by
  unfold irqSemaUp; split <;> simp
@[simp] theorem irqSemaUp_code (n u : Nat) : ((k.irqSemaUp n).threads u).code = (k.threads u).code := by
  unfold irqSemaUp; split <;> simp

@[simp] theorem lockDonate_semas (l : Nat) : (k.lockDonate l rest).semas = k.semas := by
  unfold lockDonate; split <;> (try split) <;> rfl
@[simp] theorem lockDonate_holder (l : Nat) : (k.lockDonate l rest).holder = k.holder := by
  unfold lockDonate; split <;> (try split) <;> rfl
@[simp] theorem lockDonate_conds (l : Nat) : (k.lockDonate l rest).conds = k.conds := by
  unfold lockDonate; split <;> (try split) <;> rfl
@[simp] theorem lockDonate_nextWaiter (l : Nat) :
    (k.lockDonate l rest).nextWaiter = k.nextWaiter := by
  unfold lockDonate; split <;> (try split) <;> rfl

@[simp] theorem donateLoop_semas (p : Int) (r : Nat) : (k.donateLoop p r rest).semas = k.semas := by
  unfold donateLoop; split <;> rfl
@[simp] theorem donateLoop_holder (p : Int) (r : Nat) :
    (k.donateLoop p r rest).holder = k.holder := by
  unfold donateLoop; split <;> rfl
@[simp] theorem donateLoop_conds (p : Int) (r : Nat) : (k.donateLoop p r rest).conds = k.conds := by
  unfold donateLoop; split <;> rfl
@[simp] theorem donateLoop_nextWaiter (p : Int) (r : Nat) :
    (k.donateLoop p r rest).nextWaiter = k.nextWaiter := by
  unfold donateLoop; split <;> rfl

@[simp] theorem setPriority_semas (p : Int) : (k.setPriority p rest).semas = k.semas := by
  unfold setPriority; dsimp only; split <;> (try split) <;> rfl
@[simp] theorem setPriority_holder (p : Int) : (k.setPriority p rest).holder = k.holder := by
  unfold setPriority; dsimp only; split <;> (try split) <;> rfl
@[simp] theorem setPriority_conds (p : Int) : (k.setPriority p rest).conds = k.conds := by
  unfold setPriority; dsimp only; split <;> (try split) <;> rfl
@[simp] theorem setPriority_nextWaiter (p : Int) :
    (k.setPriority p rest).nextWaiter = k.nextWaiter := by
  unfold setPriority; dsimp only; split <;> (try split) <;> rfl

@[simp] theorem updateDonations_semas (donor donee : Nat) :
    (k.updateDonations donor donee rest).semas = k.semas := by
  unfold updateDonations; dsimp only; split <;> (try split) <;> rfl
@[simp] theorem updateDonations_holder (donor donee : Nat) :
    (k.updateDonations donor donee rest).holder = k.holder := by
  unfold updateDonations; dsimp only; split <;> (try split) <;> rfl
@[simp] theorem updateDonations_conds (donor donee : Nat) :
    (k.updateDonations donor donee rest).conds = k.conds := by
  unfold updateDonations; dsimp only; split <;> (try split) <;> rfl
@[simp] theorem updateDonations_nextWaiter (donor donee : Nat) :
    (k.updateDonations donor donee rest).nextWaiter = k.nextWaiter := by
  unfold updateDonations; dsimp only; split <;> (try split) <;> rfl

@[simp] theorem revokeDonationsForLock_semas (t l : Nat) :
    (k.revokeDonationsForLock t l).semas = k.semas := rfl
@[simp] theorem revokeDonationsForLock_holder (t l : Nat) :
    (k.revokeDonationsForLock t l).holder = k.holder := rfl
@[simp] theorem revokeDonationsForLock_conds (t l : Nat) :
    (k.revokeDonationsForLock t l).conds = k.conds := rfl
@[simp] theorem revokeDonationsForLock_nextWaiter (t l : Nat) :
    (k.revokeDonationsForLock t l).nextWaiter = k.nextWaiter := rfl

@[simp] theorem createAlloc_semas (p : Int) : (k.createAlloc p rest).semas = k.semas := rfl
@[simp] theorem createAlloc_holder (p : Int) : (k.createAlloc p rest).holder = k.holder := rfl
@[simp] theorem createAlloc_conds (p : Int) : (k.createAlloc p rest).conds = k.conds := rfl
@[simp] theorem createAlloc_nextWaiter (p : Int) :
    (k.createAlloc p rest).nextWaiter = k.nextWaiter := rfl

@[simp] theorem threadExit_semas : (k.threadExit rest).semas = k.semas := by
  unfold threadExit; dsimp only; split <;> (try split) <;> rfl
@[simp] theorem threadExit_holder : (k.threadExit rest).holder = k.holder := by
  unfold threadExit; dsimp only; split <;> (try split) <;> rfl
@[simp] theorem threadExit_conds : (k.threadExit rest).conds = k.conds := by
  unfold threadExit; dsimp only; split <;> (try split) <;> rfl
@[simp] theorem threadExit_nextWaiter : (k.threadExit rest).nextWaiter = k.nextWaiter := by
  unfold threadExit; dsimp only; split <;> (try split) <;> rfl

@[simp] theorem timerSleep_semas (n : Int) : (k.timerSleep n rest).semas = k.semas := by
  unfold timerSleep; split <;> rfl
@[simp] theorem timerSleep_holder (n : Int) : (k.timerSleep n rest).holder = k.holder := by
  unfold timerSleep; split <;> rfl
@[simp] theorem timerSleep_conds (n : Int) : (k.timerSleep n rest).conds = k.conds := by
  unfold timerSleep; split <;> rfl
@[simp] theorem timerSleep_nextWaiter (n : Int) :
    (k.timerSleep n rest).nextWaiter = k.nextWaiter := by
  unfold timerSleep; split <;> rfl

@[simp] theorem condSignal_semas (c : Nat) : (k.condSignal c rest).semas = k.semas := by
  unfold condSignal; split <;> rfl
@[simp] theorem condSignal_holder (c : Nat) : (k.condSignal c rest).holder = k.holder := by
  unfold condSignal; split <;> rfl
@[simp] theorem condSignal_nextWaiter (c : Nat) :
    (k.condSignal c rest).nextWaiter = k.nextWaiter := by
  unfold condSignal; split <;> rfl

@[simp] theorem condWait_holder (c l : Nat) : (k.condWait c l rest).holder = k.holder := rfl

@[simp] theorem semaDownTest_holder (s : SemaRef) : (k.semaDownTest s rest).1.holder = k.holder := by
  unfold semaDownTest; split <;> rfl
@[simp] theorem semaDownTest_conds (s : SemaRef) : (k.semaDownTest s rest).1.conds = k.conds := by
  unfold semaDownTest; split <;> rfl
@[simp] theorem semaDownTest_nextWaiter (s : SemaRef) :
    (k.semaDownTest s rest).1.nextWaiter = k.nextWaiter := by
  unfold semaDownTest; split <;> rfl

end Frame

end Kernel

/-- Blocks that change a semaphore: the tests of `sema_down`, `sema_try_down`, `sema_up`,
`lock_try_acquire` and the creation of `cond_wait`'s semaphore. -/
def Instr.touchesSema : Instr → Bool
  | .semaDown _ | .semaDownLoop _ | .semaTryDown _ | .semaUp _ | .lockTryAcquire _
  | .condWait _ _ => true
  | _ => false

/-- Blocks that write `lock->holder`. -/
def Instr.writesHolder : Instr → Bool
  | .lockSetHolder _ | .lockTrySetHolder _ | .lockClearHolder _ => true
  | _ => false

namespace Kernel

variable {k : Kernel}

theorem exec_semas {i : Instr} (rest : List Instr) (h : i.touchesSema = false) :
    (k.exec i rest).1.semas = k.semas := by
  cases i <;> simp_all [Instr.touchesSema, exec]
  -- `lock_release`'s revocation, which either panics or goes on
  split <;> simp

theorem exec_holder {i : Instr} (rest : List Instr) (h : i.writesHolder = false) :
    (k.exec i rest).1.holder = k.holder := by
  cases i <;> simp_all [Instr.writesHolder, exec] <;> split <;> simp

/-- Only `cond_wait` hands out a semaphore. -/
theorem exec_nextWaiter {i : Instr} (rest : List Instr) (h : ∀ c l, i ≠ .condWait c l) :
    (k.exec i rest).1.nextWaiter = k.nextWaiter := by
  cases i <;> simp_all [exec] <;> split <;> simp

/-- Only `cond_wait` and `cond_signal` change a condition's queue. -/
theorem exec_conds {i : Instr} (rest : List Instr) (h : ∀ c l, i ≠ .condWait c l)
    (h' : ∀ c, i ≠ .condSignal c) : (k.exec i rest).1.conds = k.conds := by
  cases i <;> simp_all [exec] <;> split <;> simp

end Kernel

/-- Operations a thread may call from its own code. -/
inductive Call where
  | semaDown (n : Nat)
  | semaTryDown (n : Nat)
  | semaUp (n : Nat)
  | lockAcquire (l : Nat)
  | lockTryAcquire (l : Nat)
  | lockRelease (l : Nat)
  | condWait (c : Nat) (l : Nat)
  | condSignal (c : Nat) (l : Nat)
  | condBroadcast (c : Nat) (l : Nat)
  | setPriority (p : Int)
  | create (p : Int)
  | exit
  | yield
  | sleep (ticks : Int)
  deriving DecidableEq, Repr

/-- The blocks an operation starts with. -/
def Call.code (p : SchedPolicy) : Call → List Instr
  | .semaDown n => [.semaDown (.sema n)]
  | .semaTryDown n => [.semaTryDown (.sema n)]
  | .semaUp n => [.semaUp (.sema n)]
  | .lockAcquire l => acquireCode p l
  | .lockTryAcquire l => [.lockTryAcquire l]
  | .lockRelease l => releaseCode p l
  | .condWait c l => [.condWait c l]
  | .condSignal c _ => [.condSignal c]
  | .condBroadcast c _ => [.condBroadcast c]
  | .setPriority q => [.setPriority q]
  | .create q => [.createAlloc q]
  | .exit => [.exit]
  | .yield => [.yield]
  | .sleep n => [.timerSleep n]

/-- The entry assertions of an operation hold for the running thread. -/
def Call.Allowed (k : Kernel) : Call → Prop
  | .lockAcquire l => k.holder l ≠ some k.current
  | .lockTryAcquire l => k.holder l ≠ some k.current
  | .lockRelease l => k.holder l = some k.current
  | .condWait _ l => k.holder l = some k.current
  | .condSignal _ l => k.holder l = some k.current
  | .condBroadcast _ l => k.holder l = some k.current
  | .create p => PRI_MIN ≤ p ∧ p ≤ PRI_MAX
  | _ => True

instance Call.decAllowed (k : Kernel) : (c : Call) → Decidable (c.Allowed k)
  | .semaDown _ => isTrue trivial
  | .semaTryDown _ => isTrue trivial
  | .semaUp _ => isTrue trivial
  | .lockAcquire l => inferInstanceAs (Decidable (k.holder l ≠ some k.current))
  | .lockTryAcquire l => inferInstanceAs (Decidable (k.holder l ≠ some k.current))
  | .lockRelease l => inferInstanceAs (Decidable (k.holder l = some k.current))
  | .condWait _ l => inferInstanceAs (Decidable (k.holder l = some k.current))
  | .condSignal _ l => inferInstanceAs (Decidable (k.holder l = some k.current))
  | .condBroadcast _ l => inferInstanceAs (Decidable (k.holder l = some k.current))
  | .setPriority _ => isTrue trivial
  | .create p => inferInstanceAs (Decidable (PRI_MIN ≤ p ∧ p ≤ PRI_MAX))
  | .exit => isTrue trivial
  | .yield => isTrue trivial
  | .sleep _ => isTrue trivial

/-- One step of the kernel. -/
inductive Step : Kernel → Event → Kernel → Prop
  | call {k : Kernel} (c : Call) : k.panicked = false → k.current ≠ k.idle → k.code = [] →
      c.Allowed k → Step k .tau (k.setCode (c.code k.policy))
  | exec {k : Kernel} {i : Instr} {rest : List Instr} : k.panicked = false →
      k.code = i :: rest → Step k (k.exec i rest).2 (k.exec i rest).1
  | createFail {k : Kernel} {p : Int} {rest : List Instr} : k.panicked = false →
      k.code = .createAlloc p :: rest → Step k .tau (k.setCode rest)
  | timer {k : Kernel} : k.panicked = false → k.intrOn = true → Step k .tau k.timerInterrupt
  | irqSemaUp {k : Kernel} (n : Nat) : k.panicked = false → k.intrOn = true →
      Step k (.semaUp (.sema n)) (k.irqSemaUp n)

/-- **While interrupts are off, the running thread runs alone**: from a state whose next
block leaves interrupts disabled, the only step is that block. -/
theorem Step.of_intrOff {k k' : Kernel} {e : Event} {i : Instr} {rest : List Instr}
    (hc : k.code = i :: rest) (hi : i.intrOff = true) (h : Step k e k') :
    e = (k.exec i rest).2 ∧ k' = (k.exec i rest).1 := by
  have hon : k.intrOn = false := by simp [Kernel.intrOn, hc, hi]
  cases h with
  | call c _ _ hnil => rw [hc] at hnil; cases hnil
  | exec _ hc' => rw [hc] at hc'; cases hc'; exact ⟨rfl, rfl⟩
  | createFail _ hc' => rw [hc] at hc'; cases hc'; cases hi
  | timer _ hon' => rw [hon] at hon'; cases hon'
  | irqSemaUp n _ hon' => rw [hon] at hon'; cases hon'

/-- The kernel after `thread_start`: `main` (tid 1, `PRI_DEFAULT`) runs, the idle thread
(tid 2, `PRI_MIN`) is blocked in its loop, every lock is free, every free-standing
semaphore `n` holds `semaInit n`. -/
def Kernel.boot (policy : SchedPolicy) (semaInit : Nat → UInt32) : Kernel where
  policy := policy
  threads := fun t =>
    if t = 0 then ⟨2, .blocked, PRI_MIN, [], none, 0, [.idleBlock]⟩
    else if t = 1 then ⟨1, .running, PRI_DEFAULT, [], none, 0, []⟩
    else Thread.unused
  current := 1
  idle := 0
  readyList := []
  sleepList := []
  semas := fun
    | .sema n => ⟨semaInit n, []⟩
    | .lock _ => ⟨1, []⟩
    | .waiter _ => ⟨0, []⟩
  holder := fun _ => none
  conds := fun _ => []
  ticks := 0
  threadTicks := 0
  nextThread := 2
  nextWaiter := 0
  nextTid := 3
  panicked := false

/-- Runs of the kernel from boot. -/
abbrev KRun (policy : SchedPolicy) (semaInit : Nat → UInt32) : List Event → Kernel → Prop :=
  Lts.Run Step (Kernel.boot policy semaInit)

/-! ## Replaying a schedule -/

/-- What happens next: the running thread calls an operation, executes its next block, has
`palloc_get_page` fail, or an interrupt arrives. -/
inductive Action where
  | call (c : Call)
  | exec
  | createFail
  | timer
  | irqSemaUp (n : Nat)
  deriving DecidableEq, Repr

/-- The step an action takes, if it is enabled. -/
def Kernel.act (k : Kernel) : Action → Option (Event × Kernel)
  | .call c =>
    if k.panicked = false ∧ k.current ≠ k.idle ∧ k.code = [] ∧ c.Allowed k then
      some (.tau, k.setCode (c.code k.policy))
    else none
  | .exec =>
    match k.panicked, k.code with
    | false, i :: rest => some ((k.exec i rest).2, (k.exec i rest).1)
    | _, _ => none
  | .createFail =>
    match k.panicked, k.code with
    | false, .createAlloc _ :: rest => some (.tau, k.setCode rest)
    | _, _ => none
  | .timer => if k.panicked = false ∧ k.intrOn = true then some (.tau, k.timerInterrupt) else none
  | .irqSemaUp n =>
    if k.panicked = false ∧ k.intrOn = true then some (.semaUp (.sema n), k.irqSemaUp n) else none

theorem Kernel.act_step {k k' : Kernel} {a : Action} {e : Event} (h : k.act a = some (e, k')) :
    Step k e k' := by
  cases a with
  | call c =>
    simp only [Kernel.act] at h
    split at h
    · rename_i hg
      obtain ⟨hp, hi, hc, ha⟩ := hg
      cases h
      exact Step.call c hp hi hc ha
    · cases h
  | exec =>
    simp only [Kernel.act] at h
    split at h
    · rename_i i rest hp hc
      cases h
      exact Step.exec hp hc
    · cases h
  | createFail =>
    simp only [Kernel.act] at h
    split at h
    · rename_i p rest hp hc
      cases h
      exact Step.createFail hp hc
    · cases h
  | timer =>
    simp only [Kernel.act] at h
    split at h
    · rename_i hg
      cases h
      exact Step.timer hg.1 hg.2
    · cases h
  | irqSemaUp n =>
    simp only [Kernel.act] at h
    split at h
    · rename_i hg
      cases h
      exact Step.irqSemaUp n hg.1 hg.2
    · cases h

/-- Replay a schedule of actions; `none` if one of them is not enabled. -/
def Kernel.replay : Kernel → List Action → Option (List Event × Kernel)
  | k, [] => some ([], k)
  | k, a :: as =>
    match k.act a with
    | none => none
    | some (e, k₁) =>
      match k₁.replay as with
      | none => none
      | some (evs, k₂) => some (e :: evs, k₂)

/-- A successful replay is a run of the machine. -/
theorem Kernel.replay_run : ∀ {k k' : Kernel} {as : List Action} {evs : List Event},
    k.replay as = some (evs, k') → Lts.Run Step k evs k'
  | k, k', [], evs, h => by
    simp only [Kernel.replay, Option.some.injEq, Prod.mk.injEq] at h
    obtain ⟨rfl, rfl⟩ := h
    exact Lts.Run.nil
  | k, k', a :: as, evs, h => by
    simp only [Kernel.replay] at h
    split at h
    · cases h
    · rename_i e k₁ ha
      split at h
      · cases h
      · rename_i evs' k₂ hr
        simp only [Option.some.injEq, Prod.mk.injEq] at h
        obtain ⟨rfl, rfl⟩ := h
        exact Lts.Run.cons (Kernel.act_step ha) (Kernel.replay_run hr)

/-- `n` blocks of the running thread. -/
def execs (n : Nat) : List Action := List.replicate n .exec

/-- `thread_create (p)` by a thread that holds no lock, until it returns. -/
def createRun (p : Int) : List Action := [.call (.create p)] ++ execs 12

/-- The schedule replays and its final state satisfies `P`. -/
def Kernel.replayEndsIn (k₀ : Kernel) (as : List Action) (P : Kernel → Prop) [DecidablePred P] :
    Bool :=
  match k₀.replay as with
  | some (_, k) => decide (P k)
  | none => false

/-- A property checked at the end of a replayed schedule holds in a state the machine reaches. -/
theorem Kernel.exists_run_of_replayEndsIn (k₀ : Kernel) (as : List Action) (P : Kernel → Prop)
    [DecidablePred P] (h : k₀.replayEndsIn as P = true) : ∃ evs k, Lts.Run Step k₀ evs k ∧ P k := by
  unfold Kernel.replayEndsIn at h
  split at h
  · rename_i evs k hr
    exact ⟨evs, k, Kernel.replay_run hr, of_decide_eq_true h⟩
  · cases h

/-- The schedule replays and its events and final state satisfy `P`. -/
def Kernel.replayTraceEndsIn (k₀ : Kernel) (as : List Action) (P : List Event → Kernel → Prop)
    [∀ evs k, Decidable (P evs k)] : Bool :=
  match k₀.replay as with
  | some (evs, k) => decide (P evs k)
  | none => false

/-- A property of the events and the final state of a replayed schedule holds of a run. -/
theorem Kernel.exists_run_of_replayTraceEndsIn (k₀ : Kernel) (as : List Action)
    (P : List Event → Kernel → Prop) [∀ evs k, Decidable (P evs k)]
    (h : k₀.replayTraceEndsIn as P = true) : ∃ evs k, Lts.Run Step k₀ evs k ∧ P evs k := by
  unfold Kernel.replayTraceEndsIn at h
  split at h
  · rename_i evs k hr
    exact ⟨evs, k, Kernel.replay_run hr, of_decide_eq_true h⟩
  · cases h

end Pintos
