import Pintos.Lib.CircBuf
import Pintos.Lib.Run

/-!
# The interrupt queue (`devices/intq.c`)

A circular buffer of `INTQ_BUFSIZE` bytes shared by kernel threads and interrupt handlers, with
interrupts off throughout.  A thread that finds the queue empty (`intq_getc`) or full
(`intq_putc`) takes `q->lock`, records itself in `not_empty` or `not_full` and blocks; the
other side's `signal` unblocks it, and it releases the lock and tests again.  The lock is the
semaphore of `threads/synch.c`: `lock_acquire` blocks on its waiters list while another thread
holds it, and `lock_release` unblocks the oldest waiter, which tests the semaphore again when it
runs.

With interrupts off a thread runs without preemption until it blocks or returns, so each step
of `Intq.act` is such a stretch of one thread, or one interrupt handler.  Handlers put only into
a queue that is not full and get only from one that is not empty.  A failed `ASSERT` sets
`panicked`, and nothing runs after it.

## Results

* `fifo_run` — over every run the bytes put are the bytes got followed by the contents of the
  buffer, in order; so the bytes got are a prefix of the bytes put.
* `waiters_run` — a thread is recorded in `not_empty` only while the queue is empty, and in
  `not_full` only while it is full: the first change unblocks it.
* `second_reader_panics` — two threads reading an empty queue: the second blocks on `q->lock`;
  by the time it gets the lock a byte has arrived, and `wait`'s `ASSERT (intq_empty (q))` fails.
-/

set_option autoImplicit false

namespace Pintos

/-- `INTQ_BUFSIZE`. -/
def INTQ_BUFSIZE : Nat := 64

/-- The call a kernel thread is in. -/
inductive IntqOp where
  | getc
  | putc (byte : UInt8)
  deriving DecidableEq, Repr

/-- Where a kernel thread is in `intq_getc` or `intq_putc`. -/
inductive IntqAt where
  /-- In no call. -/
  | idle
  /-- Blocked in `sema_down` of `q->lock`, on its waiters list. -/
  | lockBlocked (op : IntqOp)
  /-- Unblocked by `lock_release`; it tests the semaphore again when it runs. -/
  | lockReady (op : IntqOp)
  /-- Blocked in `wait`, recorded in `not_empty` or `not_full`. -/
  | condBlocked (op : IntqOp)
  /-- Unblocked by `signal`; it releases the lock and tests the queue again when it runs. -/
  | condReady (op : IntqOp)
  deriving DecidableEq, Repr

/-- An interrupt queue and the kernel threads that use it. -/
structure Intq where
  q : CircBuf UInt8 INTQ_BUFSIZE
  /-- The holder of `q->lock`; its semaphore is 1 exactly when there is none. -/
  holder : Option Nat
  /-- The waiters of the lock's semaphore, oldest first. -/
  lockWaiters : List Nat
  notFull : Option Nat
  notEmpty : Option Nat
  threads : Nat → IntqAt
  panicked : Bool

/-- What a step did. -/
inductive IntqEvent where
  /-- `intq_getc` returned a byte to a thread. -/
  | got (t : Nat) (byte : UInt8)
  /-- `intq_putc` of a thread put a byte and returned. -/
  | put (t : Nat) (byte : UInt8)
  /-- A thread found the queue empty or full and went to wait for it. -/
  | waiting (t : Nat)
  /-- An interrupt handler took a byte. -/
  | irqGot (byte : UInt8)
  /-- An interrupt handler put a byte. -/
  | irqPut (byte : UInt8)
  deriving DecidableEq, Repr

/-- The byte an event puts into the queue. -/
def IntqEvent.putByte : IntqEvent → Option UInt8
  | .put _ b => some b
  | .irqPut b => some b
  | _ => none

/-- The byte an event takes from the queue. -/
def IntqEvent.gotByte : IntqEvent → Option UInt8
  | .got _ b => some b
  | .irqGot b => some b
  | _ => none

/-- A call by an idle thread, a blocked thread's next stretch once it is ready, or a handler. -/
inductive IntqAction where
  | call (t : Nat) (op : IntqOp)
  | resume (t : Nat)
  | irqGetc
  | irqPutc (byte : UInt8)
  deriving DecidableEq, Repr

namespace Intq

/-- `intq_init`, with every thread idle. -/
def init : Intq where
  q := ⟨fun _ => 0, 0, 0, by decide, by decide⟩
  holder := none
  lockWaiters := []
  notFull := none
  notEmpty := none
  threads := fun _ => .idle
  panicked := false

/-- Move a thread. -/
def setAt (s : Intq) (t : Nat) (a : IntqAt) : Intq :=
  { s with threads := Function.update s.threads t a }

/-- A failed `ASSERT`. -/
def panic (s : Intq) : Intq := { s with panicked := true }

/-- `thread_unblock` of a thread blocked in `wait`, which asserts that it is blocked. -/
def unblockCond (s : Intq) (w : Nat) : Intq :=
  match s.threads w with
  | .condBlocked op => s.setAt w (.condReady op)
  | _ => s.panic

/-- `signal (q, &q->not_empty)`. -/
def signalNotEmpty (s : Intq) : Intq :=
  match s.notEmpty with
  | none => s
  | some w => { s.unblockCond w with notEmpty := none }

/-- `signal (q, &q->not_full)`. -/
def signalNotFull (s : Intq) : Intq :=
  match s.notFull with
  | none => s
  | some w => { s.unblockCond w with notFull := none }

/-- `wait`: it asserts that the condition the thread waits for is false, records the thread
and blocks it. -/
def wait (s : Intq) (t : Nat) (op : IntqOp) : Intq :=
  match op with
  | .getc => if s.q.isEmpty then { s.setAt t (.condBlocked op) with notEmpty := some t } else s.panic
  | .putc _ => if s.q.isFull then { s.setAt t (.condBlocked op) with notFull := some t } else s.panic

/-- `lock_acquire` and then `wait`, from the test of the semaphore in `sema_down`: take the lock
if it is free, else block on its waiters list. -/
def acquireAndWait (s : Intq) (t : Nat) (op : IntqOp) : Intq :=
  match s.holder with
  | none => wait { s with holder := some t } t op
  | some _ => { s.setAt t (.lockBlocked op) with lockWaiters := s.lockWaiters ++ [t] }

/-- `thread_unblock` of a waiter of the lock's semaphore. -/
def unblockLock (s : Intq) (w : Nat) : Intq :=
  match s.threads w with
  | .lockBlocked op => s.setAt w (.lockReady op)
  | _ => s.panic

/-- `lock_release`: clear the holder and unblock the oldest waiter. -/
def lockRelease (s : Intq) : Intq :=
  match s.lockWaiters with
  | [] => { s with holder := none }
  | w :: ws => { s with holder := none, lockWaiters := ws }.unblockLock w

/-- One pass of the loop of `intq_getc` or `intq_putc`: the byte moves and the call returns, or
the thread goes to wait. -/
def loop (s : Intq) (t : Nat) : IntqOp → IntqEvent × Intq
  | .getc =>
    if s.q.isEmpty then (.waiting t, s.acquireAndWait t .getc)
    else (.got t s.q.pop.1, signalNotFull { s.setAt t .idle with q := s.q.pop.2 })
  | .putc byte =>
    if s.q.isFull then (.waiting t, s.acquireAndWait t (.putc byte))
    else (.put t byte, signalNotEmpty { s.setAt t .idle with q := s.q.push byte })

/-- What each action does when it is enabled. -/
def act (s : Intq) : IntqAction → Option (IntqEvent × Intq)
  | .call t op =>
    if s.panicked then none
    else
      match s.threads t with
      | .idle => some (s.loop t op)
      | _ => none
  | .resume t =>
    if s.panicked then none
    else
      match s.threads t with
      | .lockReady op => some (.waiting t, s.acquireAndWait t op)
      | .condReady op => some (s.lockRelease.loop t op)
      | _ => none
  | .irqGetc =>
    if s.panicked || s.q.isEmpty then none
    else some (.irqGot s.q.pop.1, signalNotFull { s with q := s.q.pop.2 })
  | .irqPutc byte =>
    if s.panicked || s.q.isFull then none
    else some (.irqPut byte, signalNotEmpty { s with q := s.q.push byte })

/-! ## What each stretch does to the buffer and the recorded waiters -/

/-- `s'` has the buffer and the recorded waiters of `s`. -/
def Keeps (s s' : Intq) : Prop := s'.q = s.q ∧ s'.notEmpty = s.notEmpty ∧ s'.notFull = s.notFull

theorem Keeps.trans {s₁ s₂ s₃ : Intq} (h₁ : Keeps s₁ s₂) (h₂ : Keeps s₂ s₃) : Keeps s₁ s₃ :=
  ⟨h₂.1.trans h₁.1, h₂.2.1.trans h₁.2.1, h₂.2.2.trans h₁.2.2⟩

variable (s : Intq) (t w : Nat) (op : IntqOp)

theorem keeps_setAt (a : IntqAt) : Keeps s (s.setAt t a) := ⟨rfl, rfl, rfl⟩

theorem keeps_panic : Keeps s s.panic := ⟨rfl, rfl, rfl⟩

theorem keeps_unblockCond : Keeps s (s.unblockCond w) := by
  unfold unblockCond
  split
  · exact keeps_setAt _ _ _
  · exact keeps_panic _

theorem keeps_unblockLock : Keeps s (s.unblockLock w) := by
  unfold unblockLock
  split
  · exact keeps_setAt _ _ _
  · exact keeps_panic _

theorem keeps_lockRelease : Keeps s s.lockRelease := by
  unfold lockRelease
  split
  · exact ⟨rfl, rfl, rfl⟩
  · exact keeps_unblockLock { s with holder := none, lockWaiters := _ } _

theorem signalNotEmpty_fields :
    (signalNotEmpty s).q = s.q ∧ (signalNotEmpty s).notEmpty = none ∧
      (signalNotEmpty s).notFull = s.notFull := by
  unfold signalNotEmpty
  split <;> rename_i h
  · exact ⟨rfl, h, rfl⟩
  · exact ⟨(keeps_unblockCond s _).1, rfl, (keeps_unblockCond s _).2.2⟩

theorem signalNotFull_fields :
    (signalNotFull s).q = s.q ∧ (signalNotFull s).notFull = none ∧
      (signalNotFull s).notEmpty = s.notEmpty := by
  unfold signalNotFull
  split <;> rename_i h
  · exact ⟨rfl, h, rfl⟩
  · exact ⟨(keeps_unblockCond s _).1, rfl, (keeps_unblockCond s _).2.1⟩

theorem q_wait : (s.wait t op).q = s.q := by
  unfold wait
  split <;> split <;> rfl

theorem q_acquireAndWait : (s.acquireAndWait t op).q = s.q := by
  unfold acquireAndWait
  split
  · exact q_wait _ _ _
  · rfl

/-! ## The buffer is a FIFO queue -/

/-- How a step moves bytes: none, one put at `head` of a buffer that is not full, or one taken
at `tail` of a buffer that is not empty. -/
def Transfers (s : Intq) (e : IntqEvent) (s' : Intq) : Prop :=
  (e.putByte = none ∧ e.gotByte = none ∧ s'.q = s.q) ∨
  (∃ b, s.q.isFull = false ∧ e.putByte = some b ∧ e.gotByte = none ∧ s'.q = s.q.push b) ∨
  (s.q.isEmpty = false ∧ e.putByte = none ∧ e.gotByte = some s.q.pop.1 ∧ s'.q = s.q.pop.2)

theorem Transfers.of_q {s s₁ s' : Intq} {e : IntqEvent} (hq : s₁.q = s.q)
    (h : Transfers s₁ e s') : Transfers s e s' := by
  unfold Transfers at h ⊢
  rw [hq] at h
  exact h

theorem transfers_loop {e : IntqEvent} {s' : Intq} (h : s.loop t op = (e, s')) :
    Transfers s e s' := by
  cases op with
  | getc =>
    simp only [loop] at h
    split at h <;> rename_i hq <;> cases h
    · exact .inl ⟨rfl, rfl, q_acquireAndWait _ _ _⟩
    · exact .inr (.inr ⟨by simpa using hq, rfl, rfl, (signalNotFull_fields _).1⟩)
  | putc byte =>
    simp only [loop] at h
    split at h <;> rename_i hq <;> cases h
    · exact .inl ⟨rfl, rfl, q_acquireAndWait _ _ _⟩
    · exact .inr (.inl ⟨byte, by simpa using hq, rfl, rfl, (signalNotEmpty_fields _).1⟩)

theorem transfers_act {a : IntqAction} {e : IntqEvent} {s' : Intq} (h : s.act a = some (e, s')) :
    Transfers s e s' := by
  cases a with
  | call t op =>
    simp only [act] at h
    split at h
    · cases h
    · split at h
      · exact transfers_loop s t op (Option.some.inj h)
      · cases h
  | resume t =>
    simp only [act] at h
    split at h
    · cases h
    · split at h
      · cases h
        exact .inl ⟨rfl, rfl, q_acquireAndWait _ _ _⟩
      · exact (transfers_loop _ t _ (Option.some.inj h)).of_q (keeps_lockRelease s).1
      · cases h
  | irqGetc =>
    simp only [act] at h
    split at h <;> rename_i hq
    · cases h
    · cases h
      simp only [Bool.or_eq_true, not_or, Bool.not_eq_true] at hq
      exact .inr (.inr ⟨hq.2, rfl, rfl, (signalNotFull_fields _).1⟩)
  | irqPutc byte =>
    simp only [act] at h
    split at h <;> rename_i hq
    · cases h
    · cases h
      simp only [Bool.or_eq_true, not_or, Bool.not_eq_true] at hq
      exact .inr (.inl ⟨byte, hq.2, rfl, rfl, (signalNotEmpty_fields _).1⟩)

/-! ## Recorded waiters -/

/-- A thread is recorded in `not_empty` only while the queue is empty, and in `not_full` only
while it is full. -/
structure Waiters (s : Intq) : Prop where
  notEmpty : ∀ w, s.notEmpty = some w → s.q.isEmpty = true
  notFull : ∀ w, s.notFull = some w → s.q.isFull = true

variable {s}

theorem waiters_init : Waiters init where
  notEmpty _ h := by cases h
  notFull _ h := by cases h

theorem Waiters.of_keeps {s' : Intq} (hw : Waiters s) (hk : Keeps s s') : Waiters s' where
  notEmpty w h := by
    rw [hk.2.1] at h
    rw [hk.1]
    exact hw.notEmpty w h
  notFull w h := by
    rw [hk.2.2] at h
    rw [hk.1]
    exact hw.notFull w h

theorem Waiters.notEmpty_none (hw : Waiters s) (h : s.q.isEmpty = false) : s.notEmpty = none := by
  cases hn : s.notEmpty with
  | none => rfl
  | some w => simp [hw.notEmpty w hn] at h

theorem Waiters.notFull_none (hw : Waiters s) (h : s.q.isFull = false) : s.notFull = none := by
  cases hn : s.notFull with
  | none => rfl
  | some w => simp [hw.notFull w hn] at h

/-- After a byte is taken nobody is recorded: `signal` cleared `not_full`, and `not_empty` was
clear already. -/
theorem waiters_signalNotFull {x : Intq} (hne : x.notEmpty = none) : Waiters (signalNotFull x) where
  notEmpty w h := by
    rw [(signalNotFull_fields x).2.2, hne] at h
    cases h
  notFull w h := by
    rw [(signalNotFull_fields x).2.1] at h
    cases h

theorem waiters_signalNotEmpty {x : Intq} (hnf : x.notFull = none) :
    Waiters (signalNotEmpty x) where
  notEmpty w h := by
    rw [(signalNotEmpty_fields x).2.1] at h
    cases h
  notFull w h := by
    rw [(signalNotEmpty_fields x).2.2, hnf] at h
    cases h

theorem Waiters.wait (hw : Waiters s) : Waiters (s.wait t op) := by
  cases op with
  | getc =>
    simp only [Intq.wait]
    split <;> rename_i he
    · exact ⟨fun _ _ => he, hw.notFull⟩
    · exact hw.of_keeps (keeps_panic s)
  | putc byte =>
    simp only [Intq.wait]
    split <;> rename_i hf
    · exact ⟨hw.notEmpty, fun _ _ => hf⟩
    · exact hw.of_keeps (keeps_panic s)

theorem Waiters.acquireAndWait (hw : Waiters s) : Waiters (s.acquireAndWait t op) := by
  unfold Intq.acquireAndWait
  split
  · exact Waiters.wait (s := { s with holder := _ }) t op ⟨hw.notEmpty, hw.notFull⟩
  · exact ⟨hw.notEmpty, hw.notFull⟩

theorem Waiters.loop (hw : Waiters s) : Waiters (s.loop t op).2 := by
  cases op with
  | getc =>
    simp only [Intq.loop]
    split <;> rename_i hq
    · exact hw.acquireAndWait t _
    · exact waiters_signalNotFull (hw.notEmpty_none (by simpa using hq))
  | putc byte =>
    simp only [Intq.loop]
    split <;> rename_i hq
    · exact hw.acquireAndWait t _
    · exact waiters_signalNotEmpty (hw.notFull_none (by simpa using hq))

theorem Waiters.act (hw : Waiters s) {a : IntqAction} {e : IntqEvent} {s' : Intq}
    (h : s.act a = some (e, s')) : Waiters s' := by
  cases a with
  | call t op =>
    simp only [Intq.act] at h
    split at h
    · cases h
    · split at h
      · obtain ⟨-, rfl⟩ := Prod.ext_iff.mp (Option.some.inj h).symm
        exact hw.loop t op
      · cases h
  | resume t =>
    simp only [Intq.act] at h
    split at h
    · cases h
    · split at h
      · cases h
        exact hw.acquireAndWait t _
      · obtain ⟨-, rfl⟩ := Prod.ext_iff.mp (Option.some.inj h).symm
        exact (hw.of_keeps (keeps_lockRelease s)).loop t _
      · cases h
  | irqGetc =>
    simp only [Intq.act] at h
    split at h <;> rename_i hq
    · cases h
    · cases h
      simp only [Bool.or_eq_true, not_or, Bool.not_eq_true] at hq
      exact waiters_signalNotFull (hw.notEmpty_none hq.2)
  | irqPutc byte =>
    simp only [Intq.act] at h
    split at h <;> rename_i hq
    · cases h
    · cases h
      simp only [Bool.or_eq_true, not_or, Bool.not_eq_true] at hq
      exact waiters_signalNotEmpty (hw.notFull_none hq.2)

end Intq

/-- The steps of the queue and its threads. -/
def IntqStep : Intq → IntqEvent → Intq → Prop := Lts.ActStep Intq.act

/-- **The queue is a FIFO.**  The bytes put, by threads and handlers, are the bytes got followed
by the contents of the buffer. -/
theorem fifo_run {evs : List IntqEvent} {s : Intq} (h : Lts.Run IntqStep Intq.init evs s) :
    evs.filterMap IntqEvent.putByte = evs.filterMap IntqEvent.gotByte ++ s.q.contents := by
  refine Lts.Run.inv_trace (fun evs s => evs.filterMap IntqEvent.putByte =
    evs.filterMap IntqEvent.gotByte ++ s.q.contents) rfl ?_ h
  rintro evs s e s' - hinv ⟨a, ha⟩
  simp only [List.filterMap_append, List.filterMap_cons, List.filterMap_nil]
  rcases Intq.transfers_act s ha with ⟨hp, hg, hq⟩ | ⟨b, hfull, hp, hg, hq⟩ | ⟨hempty, hp, hg, hq⟩
  · simp [hp, hg, hq, hinv]
  · simp [hp, hg, hq, hinv, CircBuf.contents_push _ _ hfull]
  · simp [hp, hg, hq, hinv, CircBuf.contents_pop _ hempty]

/-- **Recorded waiters are woken.** -/
theorem waiters_run {evs : List IntqEvent} {s : Intq} (h : Lts.Run IntqStep Intq.init evs s) :
    Intq.Waiters s :=
  Lts.Run.inv Intq.Waiters Intq.waiters_init (fun _ _ _ hw ⟨_, ha⟩ => hw.act ha) h

/-! ## Two readers -/

/-- Threads 1 and 2 read an empty queue: 1 waits for a byte holding `q->lock`, and 2 blocks on
the lock.  A byte arrives and wakes 1, whose `lock_release` readies 2; 1 reads the byte and
returns.  Another byte arrives before 2 runs. -/
def twoReadersSchedule : List IntqAction :=
  [.call 1 .getc, .call 2 .getc, .irqPutc 7, .resume 1, .irqPutc 8, .resume 2]

/-- Thread 2 then takes the lock, and `wait` finds the queue not empty: the kernel panics with
byte 8 in the buffer, which no reader gets. -/
theorem second_reader_panics :
    ∃ evs s, Lts.Run IntqStep Intq.init evs s ∧ IntqEvent.got 1 7 ∈ evs ∧
      IntqEvent.irqPut 8 ∈ evs ∧ s.panicked = true ∧ s.q.contents = [8] := by
  have h : Lts.replayEndsIn Intq.act Intq.init twoReadersSchedule
      (fun evs s => IntqEvent.got 1 7 ∈ evs ∧ IntqEvent.irqPut 8 ∈ evs ∧ s.panicked = true ∧
        s.q.contents = [8]) = true := by decide
  exact Lts.exists_run_of_replayEndsIn h

end Pintos
