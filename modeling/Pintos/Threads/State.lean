import Pintos.Threads.List

/-!
# Kernel state of `threads/` (`thread.h`, `synch.h`)

The data the scheduler and the synchronisation primitives read and write, on a uniprocessor.
Threads, locks and condition variables are named by numbers (a thread by the page its
`struct thread` lives in):

* `Thread` — `struct thread` restricted to what `thread.c`, `synch.c` and `timer.c` use: the
  tid, status, base priority, the donations received, `donating_to` and `wake_time`, plus
  `code`, the continuation of the thread (the rest of the kernel operation it is executing, as
  atomic `Instr` blocks; `[]` when it is back in its own code and may call any operation);
* `Donation` — `struct donation`; `Sema` — `struct semaphore` with its 32-bit `unsigned` value;
* `Kernel` — all threads, the running one, `fifo_ready_list`, `sleep_list`, every semaphore
  (free-standing, inside each lock, and the private one of each `cond_wait`), lock holders,
  condition waiters, the tick counters, the allocation counters and the panic flag.

`threadGetPriorityOf` is `thread_get_priority_of`: the larger of the base priority and the
`list_max` of the donations received.
-/

set_option autoImplicit false

namespace Pintos

/-- `PRI_MIN`. -/
def PRI_MIN : Int := 0
/-- `PRI_DEFAULT`. -/
def PRI_DEFAULT : Int := 31
/-- `PRI_MAX`. -/
def PRI_MAX : Int := 63
/-- `TIME_SLICE`: timer ticks a thread runs before it is preempted. -/
def TIME_SLICE : Nat := 4
/-- `INT64_MAX`. -/
def INT64_MAX : Int := 2 ^ 63 - 1

/-- An `int64_t` sum as the kernel, built with `-O0` for i386, computes it: modulo `2^64`, in
`[INT64_MIN, INT64_MAX]`. -/
def int64Add (a b : Int) : Int := Int.bmod (a + b) (2 ^ 64)

/-- `enum thread_status`. -/
inductive ThreadStatus where
  | running
  | ready
  | blocked
  | dying
  deriving DecidableEq, Repr

/-- The two scheduling policies `thread_enqueue` accepts (`SCHED_FAIR` and `SCHED_MLFQS`
panic on the first enqueue). -/
inductive SchedPolicy where
  | fifo
  | prio
  deriving DecidableEq, Repr

/-- `struct donation`. -/
structure Donation where
  donatedPriority : Int
  donor : Nat
  lock : Nat
  deriving DecidableEq, Repr

/-- The semaphores of the kernel: free-standing ones (`sema n`), the one inside each lock, and
the private one of the `n`-th `cond_wait` (its `struct semaphore_elem`). -/
inductive SemaRef where
  | sema (n : Nat)
  | lock (l : Nat)
  | waiter (n : Nat)
  deriving DecidableEq, Repr

/-- `struct semaphore`: the `unsigned` value and the waiting threads, front first. -/
structure Sema where
  value : UInt32
  waiters : List Nat
  deriving DecidableEq, Repr

/-- A `struct semaphore_elem` on a condition's waiter list: its semaphore and its thread. -/
structure SemaElem where
  sema : Nat
  thread : Nat
  deriving DecidableEq, Repr

/-- Atomic blocks of kernel code, at the granularity of preemption points: each is executed
with interrupts disabled (or is a single statement), and a timer interrupt may fall between
two of them unless the first leaves interrupts off (`Instr.intrOff`). -/
inductive Instr where
  /-- `sema_down`: first test of `value` (interrupts are on before it). -/
  | semaDown (s : SemaRef)
  /-- `sema_down`: the `while (value == 0)` test after a wake-up (interrupts still off). -/
  | semaDownLoop (s : SemaRef)
  /-- `sema_try_down`. -/
  | semaTryDown (s : SemaRef)
  /-- `sema_up`: the interrupts-off part (wake the chosen waiter, `value++`). -/
  | semaUp (s : SemaRef)
  /-- `sema_up`: `if (max_waiter_prio > thread_get_priority_of (thread_current ()))`. -/
  | semaUpCheck (maxWaiterPrio : Int)
  /-- `lock_acquire` under `SCHED_PRIO`: the donation block up to the propagation loop. -/
  | lockDonate (l : Nat)
  /-- One turn of `while (recipient != NULL)` in `lock_acquire` (interrupts off). -/
  | donateLoop (donated : Int) (recipient : Nat)
  /-- `lock->holder = current_thread` in `lock_acquire`. -/
  | lockSetHolder (l : Nat)
  /-- `current_thread->donating_to = NULL`, after which `lock_acquire (l)` returns. -/
  | lockClearDonatingTo (l : Nat)
  /-- `lock_try_acquire`: `sema_try_down`. -/
  | lockTryAcquire (l : Nat)
  /-- `lock->holder = thread_current ()` in `lock_try_acquire`, which then returns. -/
  | lockTrySetHolder (l : Nat)
  /-- `lock->holder = NULL`, the first statement of `lock_release`. -/
  | lockClearHolder (l : Nat)
  /-- `lock_release` under `SCHED_PRIO`: revoke donations and compute `should_yield`. -/
  | lockRevoke (l : Nat)
  /-- `cond_wait` up to `lock_release`: build and insert the `semaphore_elem`. -/
  | condWait (c : Nat) (l : Nat)
  /-- `cond_signal`: pop a waiter. -/
  | condSignal (c : Nat)
  /-- One turn of `while (!list_empty (&cond->waiters))` in `cond_broadcast`. -/
  | condBroadcast (c : Nat)
  /-- `thread_yield`. -/
  | yield
  /-- `thread_set_priority` up to its `thread_yield`. -/
  | setPriority (p : Int)
  /-- One call of `thread_update_donations_recurse (donor, donee)` (interrupts off). -/
  | updateDonations (donor donee : Nat)
  /-- `thread_create`: `palloc_get_page` and `init_thread`. -/
  | createAlloc (p : Int)
  /-- `allocate_tid`: `tid = next_tid++` (under `tid_lock`). -/
  | allocTid (child : Nat)
  /-- `thread_create`: `thread_unblock (t)`. -/
  | createStart (child : Nat)
  /-- `thread_exit`. -/
  | exit
  /-- `timer_sleep`. -/
  | timerSleep (ticks : Int)
  /-- The idle thread's loop: `intr_disable (); thread_block ();`. -/
  | idleBlock
  deriving DecidableEq, Repr

/-- Blocks after which interrupts stay disabled, so that no interrupt and no other thread runs
before the thread's next block. -/
def Instr.intrOff : Instr → Bool
  | .semaDownLoop _ => true
  | .donateLoop _ _ => true
  | .updateDonations _ _ => true
  | _ => false

/-- `struct thread`, with its continuation `code`. -/
structure Thread where
  tid : Nat
  status : ThreadStatus
  priority : Int
  donations : List Donation
  donatingTo : Option Nat
  wakeTime : Int
  code : List Instr
  deriving DecidableEq, Repr

/-- A page not handed out by `palloc_get_page`: never scheduled. -/
def Thread.unused : Thread :=
  ⟨0, .dying, PRI_MIN, [], none, 0, []⟩

/-- The kernel state. -/
structure Kernel where
  policy : SchedPolicy
  threads : Nat → Thread
  current : Nat
  idle : Nat
  readyList : List Nat
  sleepList : List Nat
  semas : SemaRef → Sema
  holder : Nat → Option Nat
  conds : Nat → List SemaElem
  ticks : Int
  threadTicks : Nat
  nextThread : Nat
  nextWaiter : Nat
  nextTid : Nat
  panicked : Bool

/-- `tid_lock`, the lock `allocate_tid` takes. -/
def tidLock : Nat := 0

namespace Kernel

variable (k : Kernel)

/-- `thread_get_priority_of`. -/
def threadGetPriorityOf (t : Nat) : Int :=
  match listMax (fun a b => decide (a.donatedPriority < b.donatedPriority))
      (k.threads t).donations with
  | none => (k.threads t).priority
  | some d => if d.donatedPriority ≥ (k.threads t).priority then d.donatedPriority
      else (k.threads t).priority

/-- `thread_priority_less` on thread identities. -/
def threadPriorityLess (a b : Nat) : Bool :=
  decide (k.threadGetPriorityOf a < k.threadGetPriorityOf b)

/-- The running thread's continuation. -/
def code : List Instr := (k.threads k.current).code

/-- Interrupts are enabled at the running thread's current point. -/
def intrOn : Bool :=
  match k.code with
  | i :: _ => !i.intrOff
  | [] => true

/-- Replace one thread's record. -/
def setThread (t : Nat) (th : Thread) : Kernel :=
  { k with threads := Function.update k.threads t th }

/-- Modify one thread's record. -/
def modifyThread (t : Nat) (f : Thread → Thread) : Kernel :=
  k.setThread t (f (k.threads t))

/-- Modify one semaphore. -/
def modifySema (s : SemaRef) (f : Sema → Sema) : Kernel :=
  { k with semas := Function.update k.semas s (f (k.semas s)) }

/-- Set the running thread's continuation. -/
def setCode (c : List Instr) : Kernel :=
  k.modifyThread k.current fun th => { th with code := c }

/-- `lock_held_by_current_thread`. -/
def lockHeldByCurrentThread (l : Nat) : Bool :=
  k.holder l == some k.current

end Kernel

/-- `find_donation_by_donor_and_donee` followed by the update of `lock_acquire`'s propagation
loop: the first donation of `donor` is raised to `p` if it is lower. -/
def raiseDonation (donor : Nat) (p : Int) : List Donation → List Donation
  | [] => []
  | d :: ds =>
    if d.donor = donor then
      (if d.donatedPriority < p then { d with donatedPriority := p } else d) :: ds
    else d :: raiseDonation donor p ds

/-- `find_donation_by_donor_and_donee` followed by the assignment of
`thread_update_donations_recurse`: the first donation of `donor` is set to `p`. -/
def setDonation (donor : Nat) (p : Int) : List Donation → List Donation
  | [] => []
  | d :: ds =>
    if d.donor = donor then { d with donatedPriority := p } :: ds
    else d :: setDonation donor p ds

/-- `donation_priority_less`. -/
def donationPriorityLess (a b : Donation) : Bool := decide (a.donatedPriority < b.donatedPriority)

/-- `thread_sort_donations`. -/
def threadSortDonations (ds : List Donation) : List Donation := listSort donationPriorityLess ds

/-! ## Record lemmas -/

namespace Kernel

variable {k : Kernel}

@[simp] theorem setThread_threads_self (t : Nat) (th : Thread) :
    (k.setThread t th).threads t = th := by
  simp [setThread]

@[simp] theorem setThread_threads_of_ne {t u : Nat} (th : Thread) (h : u ≠ t) :
    (k.setThread t th).threads u = k.threads u := by
  simp [setThread, Function.update_of_ne h]

theorem setThread_threads (t u : Nat) (th : Thread) :
    (k.setThread t th).threads u = if u = t then th else k.threads u := by
  by_cases h : u = t
  · subst h; simp
  · simp [h]

theorem modifyThread_threads (t u : Nat) (f : Thread → Thread) :
    (k.modifyThread t f).threads u = if u = t then f (k.threads t) else k.threads u :=
  setThread_threads t u _

@[simp] theorem modifyThread_threads_self (t : Nat) (f : Thread → Thread) :
    (k.modifyThread t f).threads t = f (k.threads t) :=
  setThread_threads_self t _

@[simp] theorem modifyThread_threads_of_ne {t u : Nat} (f : Thread → Thread) (h : u ≠ t) :
    (k.modifyThread t f).threads u = k.threads u :=
  setThread_threads_of_ne _ h

/-- Changing a thread's status leaves every continuation as it is. -/
@[simp] theorem setStatus_code (t u : Nat) (st : ThreadStatus) :
    ((k.modifyThread t fun th => { th with status := st }).threads u).code = (k.threads u).code := by
  rw [modifyThread_threads]
  split <;> simp_all

theorem setStatus_status (t u : Nat) (st : ThreadStatus) :
    ((k.modifyThread t fun th => { th with status := st }).threads u).status =
      if u = t then st else (k.threads u).status := by
  rw [modifyThread_threads]
  split <;> rfl

@[simp] theorem modifyThread_current (t : Nat) (f : Thread → Thread) :
    (k.modifyThread t f).current = k.current := rfl

@[simp] theorem modifyThread_panicked (t : Nat) (f : Thread → Thread) :
    (k.modifyThread t f).panicked = k.panicked := rfl

@[simp] theorem modifyThread_idle (t : Nat) (f : Thread → Thread) :
    (k.modifyThread t f).idle = k.idle := rfl

@[simp] theorem modifyThread_semas (t : Nat) (f : Thread → Thread) :
    (k.modifyThread t f).semas = k.semas := rfl

@[simp] theorem modifyThread_holder (t : Nat) (f : Thread → Thread) :
    (k.modifyThread t f).holder = k.holder := rfl

@[simp] theorem modifyThread_readyList (t : Nat) (f : Thread → Thread) :
    (k.modifyThread t f).readyList = k.readyList := rfl

@[simp] theorem modifyThread_nextThread (t : Nat) (f : Thread → Thread) :
    (k.modifyThread t f).nextThread = k.nextThread := rfl

@[simp] theorem setCode_current (c : List Instr) : (k.setCode c).current = k.current := rfl

@[simp] theorem setCode_panicked (c : List Instr) : (k.setCode c).panicked = k.panicked := rfl

@[simp] theorem setCode_idle (c : List Instr) : (k.setCode c).idle = k.idle := rfl
@[simp] theorem setCode_readyList (c : List Instr) : (k.setCode c).readyList = k.readyList := rfl
@[simp] theorem setCode_sleepList (c : List Instr) : (k.setCode c).sleepList = k.sleepList := rfl
@[simp] theorem setCode_semas (c : List Instr) : (k.setCode c).semas = k.semas := rfl
@[simp] theorem setCode_holder (c : List Instr) : (k.setCode c).holder = k.holder := rfl
@[simp] theorem setCode_nextThread (c : List Instr) : (k.setCode c).nextThread = k.nextThread :=
  rfl
@[simp] theorem setCode_policy (c : List Instr) : (k.setCode c).policy = k.policy := rfl

@[simp] theorem modifyThread_sleepList (t : Nat) (f : Thread → Thread) :
    (k.modifyThread t f).sleepList = k.sleepList := rfl
@[simp] theorem modifyThread_policy (t : Nat) (f : Thread → Thread) :
    (k.modifyThread t f).policy = k.policy := rfl
@[simp] theorem modifyThread_conds (t : Nat) (f : Thread → Thread) :
    (k.modifyThread t f).conds = k.conds := rfl
@[simp] theorem modifyThread_nextWaiter (t : Nat) (f : Thread → Thread) :
    (k.modifyThread t f).nextWaiter = k.nextWaiter := rfl
@[simp] theorem setCode_conds (c : List Instr) : (k.setCode c).conds = k.conds := rfl
@[simp] theorem setCode_nextWaiter (c : List Instr) : (k.setCode c).nextWaiter = k.nextWaiter :=
  rfl

@[simp] theorem setCode_code (c : List Instr) : (k.setCode c).code = c := by
  simp [setCode, code, modifyThread, setThread]

@[simp] theorem setCode_status (c : List Instr) (u : Nat) :
    ((k.setCode c).threads u).status = (k.threads u).status := by
  simp only [setCode, modifyThread_threads]
  split <;> simp_all

theorem setCode_threads_code (c : List Instr) (u : Nat) :
    ((k.setCode c).threads u).code = if u = k.current then c else (k.threads u).code := by
  simp only [setCode, modifyThread_threads]
  split <;> simp_all

theorem setCode_threads (c : List Instr) (u : Nat) :
    (k.setCode c).threads u =
      if u = k.current then { k.threads k.current with code := c } else k.threads u :=
  modifyThread_threads _ _ _

/-- The effective priority of a thread depends only on its base priority and donations. -/
theorem threadGetPriorityOf_congr {k' : Kernel} {t : Nat}
    (hp : (k'.threads t).priority = (k.threads t).priority)
    (hd : (k'.threads t).donations = (k.threads t).donations) :
    k'.threadGetPriorityOf t = k.threadGetPriorityOf t := by
  unfold threadGetPriorityOf
  rw [hp, hd]

section ModifySema

variable (s : SemaRef) (f : Sema → Sema)

@[simp] theorem modifySema_threads : (k.modifySema s f).threads = k.threads := rfl
@[simp] theorem modifySema_current : (k.modifySema s f).current = k.current := rfl
@[simp] theorem modifySema_idle : (k.modifySema s f).idle = k.idle := rfl
@[simp] theorem modifySema_readyList : (k.modifySema s f).readyList = k.readyList := rfl
@[simp] theorem modifySema_sleepList : (k.modifySema s f).sleepList = k.sleepList := rfl
@[simp] theorem modifySema_holder : (k.modifySema s f).holder = k.holder := rfl
@[simp] theorem modifySema_nextThread : (k.modifySema s f).nextThread = k.nextThread := rfl
@[simp] theorem modifySema_panicked : (k.modifySema s f).panicked = k.panicked := rfl
@[simp] theorem modifySema_policy : (k.modifySema s f).policy = k.policy := rfl
@[simp] theorem modifySema_code : (k.modifySema s f).code = k.code := rfl
@[simp] theorem modifySema_conds : (k.modifySema s f).conds = k.conds := rfl
@[simp] theorem modifySema_nextWaiter : (k.modifySema s f).nextWaiter = k.nextWaiter := rfl

end ModifySema

theorem modifySema_semas (s s' : SemaRef) (f : Sema → Sema) :
    (k.modifySema s f).semas s' = if s' = s then f (k.semas s) else k.semas s' := by
  simp only [modifySema, Function.update_apply]

@[simp] theorem modifySema_semas_self (s : SemaRef) (f : Sema → Sema) :
    (k.modifySema s f).semas s = f (k.semas s) := by
  simp [modifySema]

@[simp] theorem modifySema_semas_of_ne {s s' : SemaRef} (f : Sema → Sema) (h : s' ≠ s) :
    (k.modifySema s f).semas s' = k.semas s' := by
  simp [modifySema, Function.update_of_ne h]

end Kernel

end Pintos
