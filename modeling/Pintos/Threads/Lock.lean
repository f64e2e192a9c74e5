import Mathlib.Data.List.Chain
import Pintos.Threads.Semaphore

/-!
# Locks: mutual exclusion (`lock_acquire`, `lock_try_acquire`, `lock_release`)

A lock is its semaphore of initial value 1 plus `holder`.  `lock_acquire` downs the semaphore
and then, in two more statements, sets `holder` and returns; `lock_release` clears `holder` and
then ups the semaphore.  So `holder` is written outside the semaphore's critical section, and
there are two windows where it does not name the thread in the lock's interval:

* after `lock->holder = NULL` and before `sema_up`, `holder` is `NULL` while the lock is taken;
* after `lock->holder = current_thread` and before `lock_acquire` returns, `holder` names a
  thread that is not yet in the interval and no thread is in it.

A thread is **in the interval** of lock `l` when it has returned from a successful acquire of
`l` and has not started `lock_release (l)`: on the trace, more `acquired t l` than
`releasing t l` events (`InInterval`).

* `Instr.follows`, `LockShape` — the shape of a continuation that the blocks of the lock
  operations give it: each of these blocks comes right after the one before it in the source.
* `LockInv` — who owns the unit of each lock's semaphore: the value is 0 or 1, the unit is
  owned by one thread at a time (a thread about to set `holder` or to `sema_up`, or the
  holder), and the blocks that run with the lock held see the right `holder`.
* `KRun.interval_count` — the trace interval is the state's: `holder = t` and `t` is not in
  the second window (`InCS`).

`lock_mutual_exclusion` is the resulting statement over all runs; `holder_before_return`
exhibits the second window.
-/

set_option autoImplicit false

namespace Pintos

namespace Instr

/-- The block that must come right after this one: a lock's `sema_down` is followed by the
assignment of `holder`, and that by the return of `lock_acquire`. -/
def successor : Instr → Option Instr
  | .semaDown (.lock l) | .semaDownLoop (.lock l) => some (.lockSetHolder l)
  | .lockSetHolder l => some (.lockClearDonatingTo l)
  | _ => none

/-- `allocate_tid`'s block. -/
def isAllocTid : Instr → Bool
  | .allocTid _ => true
  | _ => false

/-- `b.admits a`: block `b` may come right after block `a`.  The blocks of the lock
operations other than their first only come after the block before them in the source;
`lock_try_acquire`'s assignment and `cond_wait` only start a continuation. -/
def admits : Instr → Instr → Bool
  | .lockSetHolder l, a => a == .semaDown (.lock l) || a == .semaDownLoop (.lock l)
  | .lockClearDonatingTo l, a => a == .lockSetHolder l
  | .semaUp (.lock l), a => a == .lockClearHolder l
  | .lockClearHolder l, a => l == tidLock && a.isAllocTid
  | .allocTid _, a => a == .lockClearDonatingTo tidLock
  | .lockTrySetHolder _, _ | .condWait _ _, _ => false
  | _, _ => true

/-- `b` may come right after `a` in a continuation. -/
def follows (a b : Instr) : Bool :=
  (match a.successor with
   | some c => b == c
   | none => true) && b.admits a

/-- Blocks that any block may precede. -/
def free : Instr → Bool
  | .lockSetHolder _ | .lockClearDonatingTo _ | .semaUp (.lock _) | .lockClearHolder _
  | .allocTid _ | .lockTrySetHolder _ | .condWait _ _ => false
  | _ => true

/-- Blocks that some block must follow. -/
def key : Instr → Bool
  | .semaDown (.lock _) | .semaDownLoop (.lock _) | .lockSetHolder _ | .lockClearHolder _
  | .allocTid _ | .lockClearDonatingTo _ => true
  | _ => false

/-- The lock whose `holder` or semaphore a block reads or writes, or under which it runs
(`allocate_tid` runs under `tid_lock`). -/
def lockOf : Instr → Option Nat
  | .semaDown (.lock l) | .semaDownLoop (.lock l) | .semaTryDown (.lock l) | .semaUp (.lock l)
  | .lockSetHolder l | .lockClearDonatingTo l | .lockTryAcquire l | .lockTrySetHolder l
  | .lockClearHolder l | .condWait _ l => some l
  | .allocTid _ => some tidLock
  | _ => none

/-- Blocks at which a thread owns the unit of `l`'s semaphore while `holder` does not name it:
it has taken the unit and is about to set `holder`, or has cleared `holder` and is about to
give the unit back. -/
def pendingOwner (l : Nat) : Instr → Bool
  | .lockSetHolder l' | .lockTrySetHolder l' | .semaUp (.lock l') => l' == l
  | _ => false

/-- Blocks that run with `l` held: the return of `lock_acquire`, the first statement of
`lock_release`, `cond_wait`, and `allocate_tid` under `tid_lock`. -/
def holdsAt (l : Nat) : Instr → Bool
  | .lockClearDonatingTo l' | .lockClearHolder l' | .condWait _ l' => l' == l
  | .allocTid _ => l == tidLock
  | _ => false

/-- Blocks that may only be reached while owning `l`. -/
def bound (l : Nat) (i : Instr) : Bool := i.pendingOwner l || i.holdsAt l

section
-- the equation lemmas, generated once here rather than by each proof below that unfolds
-- these definitions
attribute [local simp] successor admits holdsAt pendingOwner free key lockOf isAllocTid
end

theorem admits_of_free {b : Instr} (hb : b.free = true) (a : Instr) : b.admits a = true := by
  cases b with
  | semaUp s => cases s <;> simp_all [free, admits]
  | _ => simp_all [free, admits]

theorem free_of_admits {a b : Instr} (h : b.admits a = true) (ha : a.key = false) :
    b.free = true := by
  cases b with
  | lockSetHolder l =>
    simp only [admits, Bool.or_eq_true, beq_iff_eq] at h
    rcases h with rfl | rfl <;> simp [key] at ha
  | lockClearHolder l => cases a <;> simp_all [admits, isAllocTid, key]
  | semaUp s => cases s <;> simp_all [free, admits, key]
  | _ => simp_all [free, admits, key]

theorem bound_eq_false_of_free {i : Instr} (h : i.free = true) (l : Nat) : i.bound l = false := by
  cases i with
  | semaUp s => cases s <;> simp_all [free, bound, pendingOwner, holdsAt]
  | _ => simp_all [free, bound, pendingOwner, holdsAt]

theorem pendingOwner_eq_false_of_bound {i : Instr} {l : Nat} (h : i.bound l = false) :
    i.pendingOwner l = false := by
  simp only [bound, Bool.or_eq_false_iff] at h
  exact h.1

theorem lockOf_of_bound {i : Instr} {l : Nat} (h : i.bound l = true) : i.lockOf = some l := by
  cases i with
  | semaUp s => cases s <;> simp_all [bound, pendingOwner, holdsAt, lockOf]
  | _ => simp_all [bound, pendingOwner, holdsAt, lockOf]

/-- After a block that is not a key, any block with no successor may stand in its place. -/
theorem follows_of_key_eq_false {a b x : Instr} (h : a.follows b = true) (ha : a.key = false)
    (hx : x.successor = none) : x.follows b = true := by
  have hb : b.free = true := free_of_admits (Bool.and_eq_true_iff.mp h).2 ha
  simp [follows, hx, admits_of_free hb]

theorem semaDown_follows_loop {s : SemaRef} {b : Instr} (h : (semaDown s).follows b = true) :
    (semaDownLoop s).follows b = true := by
  cases s with
  | lock l =>
    simp only [follows, successor, Bool.and_eq_true, beq_iff_eq] at h ⊢
    obtain ⟨rfl, -⟩ := h
    simp [admits]
  | _ => exact follows_of_key_eq_false h rfl rfl

/-- A block bound to `l` only follows a block of `l`. -/
theorem lockOf_of_follows_bound {a b : Instr} {l : Nat} (h : a.follows b = true)
    (hb : b.bound l = true) : a.lockOf = some l := by
  have ha : b.admits a = true := (Bool.and_eq_true_iff.mp h).2
  -- by the block bound to `l`: it admits only the block before it in the source
  cases b with
  | lockSetHolder l' =>
    simp only [admits, Bool.or_eq_true, beq_iff_eq] at ha
    rcases ha with rfl | rfl <;> simp_all [bound, pendingOwner, lockOf, holdsAt]
  | lockClearHolder l' => cases a <;> simp_all [admits, isAllocTid, bound, pendingOwner, holdsAt, lockOf]
  | semaUp s => cases s <;> simp_all [admits, bound, pendingOwner, holdsAt, lockOf]
  | _ => simp_all [admits, bound, pendingOwner, holdsAt, lockOf]

/-- A pending owner comes right after taking the unit or right after clearing `holder`. -/
theorem eq_of_follows_pendingOwner {a b : Instr} {l : Nat} (h : a.follows b = true)
    (hb : b.pendingOwner l = true) :
    a = .semaDown (.lock l) ∨ a = .semaDownLoop (.lock l) ∨ a = .lockClearHolder l := by
  have ha : b.admits a = true := (Bool.and_eq_true_iff.mp h).2
  cases b with
  | lockSetHolder l' =>
    simp only [admits, Bool.or_eq_true, beq_iff_eq] at ha
    simp only [pendingOwner, beq_iff_eq] at hb
    subst hb
    rcases ha with rfl | rfl <;> simp
  | semaUp s => cases s <;> simp_all [admits, pendingOwner]
  | _ => simp_all [admits, pendingOwner]

/-- A block that runs with `l` held comes right after `holder` is set, or inside
`thread_create`'s use of `tid_lock`. -/
theorem eq_of_follows_holdsAt {a b : Instr} {l : Nat} (h : a.follows b = true)
    (hb : b.holdsAt l = true) :
    a = .lockSetHolder l ∨ a.isAllocTid = true ∨ a = .lockClearDonatingTo tidLock := by
  have ha : b.admits a = true := (Bool.and_eq_true_iff.mp h).2
  cases b with
  | lockClearHolder l' => simp_all [admits, holdsAt]
  | _ => simp_all [admits, holdsAt]

/-- Only `lock->holder = current_thread` comes right before the return of `lock_acquire`. -/
theorem eq_lockSetHolder_of_follows {a : Instr} {l : Nat}
    (h : a.follows (.lockClearDonatingTo l) = true) : a = .lockSetHolder l := by
  simpa [follows, admits] using (Bool.and_eq_true_iff.mp h).2

end Instr

/-- A continuation whose blocks of the lock operations each come right after the one before
them in the source, that does not stop inside `lock_acquire`, and that never `sema_try_down`s
a lock's semaphore outside `lock_try_acquire`. -/
def LockShape (c : List Instr) : Prop :=
  c.IsChain (fun a b => a.follows b = true) ∧ (∀ a ∈ c.getLast?, a.successor = none) ∧
    ∀ l, .semaTryDown (.lock l) ∉ c

namespace LockShape

variable {i x : Instr} {X rest : List Instr}

theorem tail (h : LockShape (i :: rest)) : LockShape rest := by
  obtain ⟨hc, hl, ht⟩ := h
  refine ⟨hc.tail, fun a ha => hl a ?_, fun l hm => ht l (List.mem_cons_of_mem _ hm)⟩
  cases rest with
  | nil => simp at ha
  | cons b bs => simpa [List.getLast?_cons_cons] using ha

theorem follows_head (h : LockShape (i :: rest)) : ∀ b ∈ rest.head?, i.follows b = true := by
  intro b hb
  cases rest with
  | nil => simp at hb
  | cons b' bs =>
    obtain rfl : b' = b := by simpa using hb
    exact (List.isChain_cons_cons.mp h.1).1

theorem head_eq_successor {c : Instr} (h : LockShape (i :: rest)) (hs : i.successor = some c) :
    rest.head? = some c := by
  cases rest with
  | nil => simp [h.2.1 i (by simp)] at hs
  | cons b bs =>
    have := h.follows_head b (by simp)
    simp_all [Instr.follows]

theorem not_semaTryDown (h : LockShape (i :: rest)) (l : Nat) : i ≠ .semaTryDown (.lock l) :=
  fun he => h.2.2 l (by simp [he])

theorem append (hX : LockShape X) (hx : X.getLast? = some x)
    (hj : ∀ b ∈ rest.head?, x.follows b = true) (hr : LockShape rest) : LockShape (X ++ rest) := by
  refine ⟨List.isChain_append.mpr ⟨hX.1, hr.1, ?_⟩, fun a ha => ?_, fun l hm => ?_⟩
  · rw [hx]
    rintro a ⟨⟩
    exact hj
  · rw [List.getLast?_append] at ha
    cases hr' : rest.getLast? with
    | none =>
      simp only [hr', Option.none_or] at ha
      exact hX.2.1 a ha
    | some b =>
      simp only [hr', Option.some_or] at ha
      exact hr.2.1 a (by rw [hr']; exact ha)
  · rcases List.mem_append.mp hm with h | h
    · exact hX.2.2 l h
    · exact hr.2.2 l h

/-- A block that is not a key may be replaced by blocks of the right shape. -/
theorem replace (h : LockShape (i :: rest)) (hk : i.key = false) (hX : LockShape X) (hne : X ≠ []) :
    LockShape (X ++ rest) := by
  have hx : X.getLast? = some (X.getLast hne) := List.getLast?_eq_some_getLast hne
  refine hX.append hx (fun b hb => ?_) h.tail
  exact Instr.follows_of_key_eq_false (h.follows_head b hb) hk (hX.2.1 _ hx)

theorem loop {s : SemaRef} (h : LockShape (.semaDown s :: rest)) :
    LockShape (.semaDownLoop s :: rest) := by
  refine ⟨?_, fun a ha => ?_, fun l hm => ?_⟩
  · cases rest with
    | nil => simp
    | cons b bs =>
      exact List.isChain_cons_cons.mpr
        ⟨Instr.semaDown_follows_loop (h.follows_head b (by simp)), h.tail.1⟩
  · cases rest with
    | nil =>
      have := h.2.1 (.semaDown s) rfl
      obtain rfl : Instr.semaDownLoop s = a := by simpa using ha
      cases s <;> simp_all [Instr.successor]
    | cons b bs => exact h.2.1 a (by simpa [List.getLast?_cons_cons] using ha)
  · rcases List.mem_cons.mp hm with he | he
    · cases he
    · exact h.2.2 l (List.mem_cons_of_mem _ he)

end LockShape

theorem lockShape_acquireCode (p : SchedPolicy) (l : Nat) : LockShape (acquireCode p l) := by
  cases p <;> simp [LockShape, acquireCode, Instr.follows, Instr.successor, Instr.admits]

theorem lockShape_releaseCode (p : SchedPolicy) (l : Nat) : LockShape (releaseCode p l) := by
  cases p <;> simp [LockShape, releaseCode, Instr.follows, Instr.successor, Instr.admits]

theorem Call.code_lockShape (p : SchedPolicy) (c : Call) : LockShape (c.code p) := by
  cases c with
  | lockAcquire l => exact lockShape_acquireCode p l
  | lockRelease l => exact lockShape_releaseCode p l
  | _ => simp [LockShape, Call.code, Instr.successor]

/-- `cond_wait` after its first block: `lock_release`, `sema_down` on its semaphore, and
`lock_acquire`. -/
theorem lockShape_condWaitCode (p : SchedPolicy) (l w : Nat) :
    LockShape (releaseCode p l ++ [.semaDown (.waiter w)] ++ acquireCode p l) := by
  cases p <;> simp [LockShape, releaseCode, acquireCode, Instr.follows, Instr.successor, Instr.admits]

/-- `thread_create` after `palloc_get_page`: `allocate_tid` under `tid_lock`, then
`thread_unblock` and `thread_yield`. -/
theorem lockShape_createCode (p : SchedPolicy) (c : Nat) :
    LockShape (acquireCode p tidLock ++ [.allocTid c] ++ releaseCode p tidLock ++
      [.createStart c, .yield]) := by
  cases p <;> simp [LockShape, releaseCode, acquireCode, Instr.follows, Instr.successor, Instr.admits,
    Instr.isAllocTid]

/-- **The blocks a block produces keep the shape** of the running thread's continuation. -/
theorem Kernel.Produces.lockShape {k : Kernel} {i : Instr} {X rest : List Instr}
    (hX : k.Produces i X) (h : LockShape (i :: rest)) : LockShape (X ++ rest) := by
  -- a block of no successor, which stands for the last block of a non-key producer
  have one : ∀ x : Instr, x.successor = none → (∀ l, x ≠ .semaTryDown (.lock l)) →
      LockShape [x] := fun x hx ht =>
    ⟨List.isChain_singleton x, by simpa using hx, fun l hm => ht l (by simpa [eq_comm] using hm)⟩
  cases i with
  | semaDown s =>
    rcases hX with rfl | rfl
    · exact h.tail
    · exact h.loop
  | semaDownLoop s =>
    rcases hX with rfl | rfl
    · exact h.tail
    · exact h
  | semaUp s =>
    obtain ⟨p, rfl⟩ := hX
    exact h.replace rfl (one _ rfl (by simp)) (by simp)
  | semaUpCheck p =>
    rcases hX with rfl | rfl
    · exact h.tail
    · exact h.replace rfl (one _ rfl (by simp)) (by simp)
  | lockDonate l | donateLoop _ l =>
    rcases hX with rfl | ⟨p, r, rfl⟩
    · exact h.tail
    · exact h.replace rfl (one _ rfl (by simp)) (by simp)
  | lockTryAcquire l =>
    rcases hX with rfl | rfl
    · exact h.tail
    · exact h.replace rfl (one _ rfl (by simp)) (by simp)
  | lockRevoke l =>
    rcases hX with rfl | rfl | rfl
    · exact h.tail
    · exact h.replace rfl (one _ rfl (by simp)) (by simp)
    · exact h.replace rfl (one _ rfl (by simp)) (by simp)
  | condWait c l =>
    subst hX
    exact h.replace rfl (lockShape_condWaitCode _ _ _) (by simp [releaseCode])
  | condSignal c =>
    rcases hX with rfl | ⟨e, -, rfl⟩
    · exact h.tail
    · exact h.replace rfl (one _ rfl (by simp)) (by simp)
  | condBroadcast c =>
    rcases hX with rfl | rfl
    · exact h.tail
    · exact h.replace rfl (by simp [LockShape, Instr.follows, Instr.successor, Instr.admits]) (by simp)
  | setPriority p =>
    rcases hX with rfl | ⟨a, b, rfl⟩
    · exact h.replace rfl (one _ rfl (by simp)) (by simp)
    · exact h.replace rfl (by simp [LockShape, Instr.follows, Instr.successor, Instr.admits]) (by simp)
  | updateDonations donor donee =>
    rcases hX with rfl | ⟨a, b, rfl⟩
    · exact h.tail
    · exact h.replace rfl (one _ rfl (by simp)) (by simp)
  | createAlloc p =>
    subst hX
    exact h.replace rfl (lockShape_createCode _ _) (by simp)
  | idleBlock =>
    subst hX
    exact h.replace rfl (one _ rfl (by simp)) (by simp)
  | _ =>
    subst hX
    exact h.tail

namespace Kernel

/-! ## Who owns a lock -/

/-- The next block of thread `t`. -/
def head (k : Kernel) (t : Nat) : Option Instr := (k.threads t).code.head?

/-- Thread `t` owns the unit of `l`'s semaphore while `holder` does not name it. -/
def Pending (k : Kernel) (t l : Nat) : Prop := ∃ i, k.head t = some i ∧ i.pendingOwner l = true

/-- What a thread whose next block is `i` requires of lock `l`: a pending owner is the only
one, `holder` is `NULL` and the unit is taken; a block that runs with `l` held sees `holder`
name its thread. -/
def HeadReq (k : Kernel) (t l : Nat) (i : Instr) : Prop :=
  (i.pendingOwner l = true →
    k.holder l = none ∧ (k.semas (.lock l)).value = 0 ∧ ∀ u, u ≠ t → ¬k.Pending u l) ∧
  (i.holdsAt l = true → k.holder l = some t)

/-- **The ownership invariant of one lock.** -/
structure LockOk (k : Kernel) (l : Nat) : Prop where
  value : (k.semas (.lock l)).value = 0 ∨ (k.semas (.lock l)).value = 1
  free : (k.semas (.lock l)).value = 1 → k.holder l = none
  head : ∀ t i, k.head t = some i → k.HeadReq t l i

/-- **The lock invariant**: the shape of every continuation and the ownership of every lock. -/
structure LockInv (k : Kernel) : Prop where
  shape : ∀ t, LockShape (k.threads t).code
  lock : ∀ l, k.LockOk l

/-- No thread but `t` is at a block bound to `l`. -/
def Exclusive (k : Kernel) (t l : Nat) : Prop :=
  ∀ u, u ≠ t → ∀ j, k.head u = some j → j.bound l = false

variable {k k' : Kernel} {l t : Nat}

theorem headReq_of_bound_eq_false {i : Instr} (h : i.bound l = false) :
    k.HeadReq t l i := by
  simp only [Instr.bound, Bool.or_eq_false_iff] at h
  exact ⟨fun hp => absurd hp (by simp [h.1]), fun hh => absurd hh (by simp [h.2])⟩

/-- A pending owner, the holder, or anyone while the lock is free, has it to itself. -/
theorem LockOk.exclusive (h : k.LockOk l)
    (ho : k.Pending t l ∨ k.holder l = some t ∨ (k.semas (.lock l)).value = 1) :
    k.Exclusive t l := by
  intro u hu j hj
  obtain ⟨hp, hh⟩ := h.head u j hj
  cases hpj : j.pendingOwner l
  · cases hhj : j.holdsAt l
    · simp [Instr.bound, hpj, hhj]
    · -- `u` runs with `l` held, so `holder` names `u`
      have hhu := hh hhj
      rcases ho with ⟨i, hi, hpi⟩ | hht | hv
      · simp [(h.head t i hi).1 hpi |>.1] at hhu
      · rw [hhu] at hht
        exact absurd (Option.some.inj hht) hu
      · simp [h.free hv] at hhu
  · -- `u` is a pending owner, so nobody else is and the unit is taken
    obtain ⟨hnone, hv0, hothers⟩ := hp hpj
    rcases ho with hpt | hht | hv
    · exact absurd hpt (hothers t (Ne.symm hu))
    · simp [hnone] at hht
    · simp [hv0] at hv

theorem Exclusive.not_pending (hx : k.Exclusive t l)
    (hh : ∀ u, u ≠ t → k'.head u = k.head u) {u : Nat} (hu : u ≠ t) : ¬k'.Pending u l := by
  rintro ⟨j, hj, hpj⟩
  have := hx u hu j (by rw [← hh u hu]; exact hj)
  simp [Instr.bound, hpj] at this

/-- A step after which the lock is `t`'s alone keeps the invariant if it keeps the value in
{0, 1}, `holder` clear at 1, and `t`'s own requirement. -/
theorem Exclusive.lockOk (hx : k.Exclusive t l) (hh : ∀ u, u ≠ t → k'.head u = k.head u)
    (hv : (k'.semas (.lock l)).value = 0 ∨ (k'.semas (.lock l)).value = 1)
    (hf : (k'.semas (.lock l)).value = 1 → k'.holder l = none)
    (ht : ∀ j, k'.head t = some j → k'.HeadReq t l j) : k'.LockOk l where
  value := hv
  free := hf
  head u j hj := by
    by_cases hu : u = t
    · subst hu
      exact ht j hj
    · exact headReq_of_bound_eq_false (hx u hu j (by rw [← hh u hu]; exact hj))

/-- A step that leaves `l`'s `holder` and value alone, and whose thread is at no block bound
to `l` before or after, keeps the invariant. -/
theorem LockOk.of_quiet (h : k.LockOk l) (hh : ∀ u, u ≠ t → k'.head u = k.head u)
    (hho : k'.holder l = k.holder l) (hv : (k'.semas (.lock l)).value = (k.semas (.lock l)).value)
    (hi : ∀ i, k.head t = some i → i.bound l = false)
    (hj : ∀ j, k'.head t = some j → j.bound l = false) : k'.LockOk l where
  value := by rw [hv]; exact h.value
  free hv1 := by rw [hho]; exact h.free (by rw [← hv]; exact hv1)
  head u j hu := by
    by_cases hut : u = t
    · subst hut
      exact headReq_of_bound_eq_false (hj j hu)
    have hu' : k.head u = some j := by rw [← hh u hut]; exact hu
    obtain ⟨hp, hhd⟩ := h.head u j hu'
    refine ⟨fun hpj => ?_, fun hhj => by rw [hho]; exact hhd hhj⟩
    obtain ⟨hnone, hv0, hothers⟩ := hp hpj
    refine ⟨by rw [hho]; exact hnone, by rw [hv]; exact hv0, fun w hw => ?_⟩
    rintro ⟨i, hwi, hpi⟩
    by_cases hwt : w = t
    · subst hwt
      have := hj i hwi
      simp [Instr.bound, hpi] at this
    · exact hothers w hw ⟨i, by rw [← hh w hwt]; exact hwi, hpi⟩

/-- A step after which `t`, a pending owner before, has set `holder`. -/
theorem LockOk.of_set (h : k.LockOk l) (hp : k.Pending t l) (hh : ∀ u, u ≠ t → k'.head u = k.head u)
    (hho : k'.holder l = some t) (hv : (k'.semas (.lock l)).value = (k.semas (.lock l)).value)
    (hj : ∀ j, k'.head t = some j → j.pendingOwner l = false) : k'.LockOk l := by
  obtain ⟨i, hi, hpi⟩ := hp
  obtain ⟨hnone, hv0, -⟩ := (h.head t i hi).1 hpi
  refine h.exclusive (.inl ⟨i, hi, hpi⟩) |>.lockOk hh (by simp [hv, hv0])
    (by simp [hv, hv0]) fun j hj' => ⟨fun hpj => ?_, fun _ => hho⟩
  simp [hj j hj'] at hpj

/-- A step that keeps `l` with its holder `t`. -/
theorem LockOk.of_held (h : k.LockOk l) (hho : k.holder l = some t)
    (hh : ∀ u, u ≠ t → k'.head u = k.head u) (hho' : k'.holder l = k.holder l)
    (hv : (k'.semas (.lock l)).value = (k.semas (.lock l)).value)
    (hj : ∀ j, k'.head t = some j → j.pendingOwner l = false) : k'.LockOk l := by
  refine h.exclusive (.inr (.inl hho)) |>.lockOk hh (by rw [hv]; exact h.value)
    (fun hv1 => by rw [hho']; exact h.free (by rw [← hv]; exact hv1))
    fun j hj' => ⟨fun hpj => ?_, fun _ => by rw [hho', hho]⟩
  simp [hj j hj'] at hpj

/-- A step at which `t` takes the unit of a free lock and goes on to set `holder`. -/
theorem LockOk.of_take (h : k.LockOk l) (hv1 : (k.semas (.lock l)).value = 1)
    (hh : ∀ u, u ≠ t → k'.head u = k.head u) (hho : k'.holder l = k.holder l)
    (hv : (k'.semas (.lock l)).value = 0) (hj : ∀ j, k'.head t = some j → j.holdsAt l = false) :
    k'.LockOk l := by
  have hx := h.exclusive (t := t) (.inr (.inr hv1))
  refine hx.lockOk hh (.inl hv) (by simp [hv]) fun j hj' =>
    ⟨fun _ => ⟨by rw [hho]; exact h.free hv1, hv, fun u hu => hx.not_pending hh hu⟩,
      fun hhj => ?_⟩
  simp [hj j hj'] at hhj

/-! ## One block -/

section Exec

variable {i : Instr} {rest : List Instr}

theorem exec_holder_of_lockOf (rest : List Instr) (h : i.lockOf ≠ some l) :
    (k.exec i rest).1.holder l = k.holder l := by
  cases hw : i.writesHolder
  · rw [exec_holder rest hw]
  · cases i <;> simp_all [Instr.writesHolder, Instr.lockOf, exec, eq_comm]

theorem lockOf_of_touches (h : k.touches i = some (.lock l)) : i.lockOf = some l := by
  cases i with
  | semaDown s | semaDownLoop s | semaTryDown s | semaUp s =>
    cases s <;> simp_all [touches, Instr.lockOf]
  | _ => simp_all [touches, Instr.lockOf]

theorem exec_lockValue_of_lockOf (rest : List Instr) (h : i.lockOf ≠ some l) :
    ((k.exec i rest).1.semas (.lock l)).value = (k.semas (.lock l)).value := by
  rw [exec_semas_of_ne rest fun ht => h (lockOf_of_touches ht)]

/-- The first block a block produces is free, or is the second block of `lock_try_acquire`
or the first of `cond_wait`'s `lock_release`. -/
theorem Produces.head_free {X : List Instr} (hX : k.Produces i X) {x : Instr}
    (hx : X.head? = some x) : x.free = true ∨ (∃ l, i = .lockTryAcquire l ∧ x = .lockTrySetHolder l) ∨
      ∃ c l, i = .condWait c l ∧ x = .lockClearHolder l := by
  cases i with
  | semaDown s | semaDownLoop s =>
    rcases hX with rfl | rfl <;> simp at hx
    simp [← hx, Instr.free]
  | semaUp s =>
    obtain ⟨p, rfl⟩ := hX
    simp [← Option.some.inj hx, Instr.free]
  | semaUpCheck p | condBroadcast c =>
    rcases hX with rfl | rfl <;> simp at hx
    simp [← hx, Instr.free]
  | lockDonate l | donateLoop _ l | updateDonations _ l =>
    rcases hX with rfl | ⟨p, r, rfl⟩ <;> simp at hx
    simp [← hx, Instr.free]
  | lockTryAcquire l =>
    rcases hX with rfl | rfl <;> simp at hx
    simp [← hx]
  | lockRevoke l =>
    rcases hX with rfl | rfl | rfl <;> simp at hx <;> simp [← hx, Instr.free]
  | condWait c l =>
    subst hX
    simp [releaseCode] at hx
    simp [← hx]
  | condSignal c =>
    rcases hX with rfl | ⟨e, -, rfl⟩ <;> simp at hx
    simp [← hx, Instr.free]
  | setPriority p =>
    rcases hX with rfl | ⟨a, b, rfl⟩ <;> simp at hx <;> simp [← hx, Instr.free]
  | createAlloc p =>
    subst hX
    cases hp : k.policy <;> simp [acquireCode, hp] at hx <;> simp [← hx, Instr.free]
  | idleBlock =>
    subst hX
    simp [← Option.some.inj hx, Instr.free]
  | _ =>
    subst hX
    simp at hx

theorem Produces.lockOf_of_bound {X : List Instr} (hX : k.Produces i X) {x : Instr}
    (hx : X.head? = some x) (hb : x.bound l = true) : i.lockOf = some l := by
  rcases hX.head_free hx with hf | ⟨l', rfl, rfl⟩ | ⟨c, l', rfl, rfl⟩
  · simp [Instr.bound_eq_false_of_free hf] at hb
  · simpa [Instr.lockOf] using Instr.lockOf_of_bound hb
  · simpa [Instr.lockOf] using Instr.lockOf_of_bound hb

/-- The running thread's next block after a block is bound only to that block's lock. -/
theorem exec_head_lockOf (hs : LockShape (i :: rest)) (hc : k.code = i :: rest) {j : Instr}
    (hj : (k.exec i rest).1.head k.current = some j) (hb : j.bound l = true) :
    i.lockOf = some l := by
  obtain ⟨X, hX, hcode⟩ := exec_code_current hc
  rw [Kernel.head, hcode] at hj
  cases X with
  | nil => exact Instr.lockOf_of_follows_bound (hs.follows_head j (by simpa using hj)) hb
  | cons x xs => exact hX.lockOf_of_bound (by simpa using hj) hb

theorem head_current_of_code (hc : k.code = i :: rest) : k.head k.current = some i := by
  simp only [Kernel.head]
  rw [show (k.threads k.current).code = k.code from rfl, hc]
  rfl

/-- `sema_down` on a lock's semaphore: it blocks, or takes the unit of a free lock. -/
theorem LockOk.semaDownTest (h : k.LockOk l) (hhead : k.head k.current = some (.semaDown (.lock l)) ∨
      k.head k.current = some (.semaDownLoop (.lock l)))
    (hh : ∀ u, u ≠ k.current → (k.semaDownTest (.lock l) rest).1.head u = k.head u)
    (hnext : rest.head? = some (.lockSetHolder l)) : (k.semaDownTest (.lock l) rest).1.LockOk l := by
  unfold Kernel.semaDownTest at hh ⊢
  by_cases h0 : (k.semas (.lock l)).value = 0
  · rw [if_pos h0] at hh ⊢
    refine h.of_quiet hh (by simp) (by simp) (fun i hi => ?_) (fun j hj => ?_)
    · rcases hhead with hi' | hi' <;> rw [hi'] at hi <;> cases hi <;> rfl
    · simp [Kernel.head, setCode_threads_code] at hj
      simp [← hj, Instr.bound, Instr.pendingOwner, Instr.holdsAt]
  · rw [if_neg h0] at hh ⊢
    have hv1 : (k.semas (.lock l)).value = 1 := h.value.resolve_left h0
    refine h.of_take hv1 hh (by simp) (by simp [hv1]) fun j hj => ?_
    simp [Kernel.head, setCode_threads_code, hnext] at hj
    simp [← hj, Instr.holdsAt]

/-- `lock_try_acquire`'s `sema_try_down`: it fails, or takes the unit of a free lock. -/
theorem LockOk.lockTryAcquire (h : k.LockOk l) (hs : LockShape (.lockTryAcquire l :: rest))
    (hhead : k.head k.current = some (.lockTryAcquire l))
    (hh : ∀ u, u ≠ k.current → (k.exec (.lockTryAcquire l) rest).1.head u = k.head u) :
    (k.exec (.lockTryAcquire l) rest).1.LockOk l := by
  simp only [exec] at hh ⊢
  by_cases h0 : (k.semas (.lock l)).value > 0
  · rw [if_pos h0] at hh ⊢
    have hv1 : (k.semas (.lock l)).value = 1 :=
      h.value.resolve_left fun h' => by simp [h'] at h0
    refine h.of_take hv1 hh (by simp) (by simp [hv1]) fun j hj => ?_
    simp [Kernel.head, setCode_threads_code] at hj
    simp [← hj, Instr.holdsAt]
  · rw [if_neg h0] at hh ⊢
    refine h.of_quiet hh (by simp) (by simp) (fun i hi => ?_) (fun j hj => ?_)
    · rw [hhead] at hi
      cases hi
      rfl
    · simp only [Kernel.head, setCode_threads_code, if_pos] at hj
      exact Instr.bound_eq_false_of_free
        (Instr.free_of_admits (Bool.and_eq_true_iff.mp (hs.follows_head j hj)).2 rfl) l

/-- **A block of lock `l` keeps `l`'s invariant.** -/
theorem LockOk.exec_of_lockOf (h : k.LockOk l) (hs : LockShape (i :: rest)) (hc : k.code = i :: rest)
    (hh : ∀ u, u ≠ k.current → (k.exec i rest).1.head u = k.head u) (hli : i.lockOf = some l) :
    (k.exec i rest).1.LockOk l := by
  have hhead := head_current_of_code hc
  have hreq := h.head _ _ hhead
  have hnext : ∀ j, rest.head? = some j → i.follows j = true := fun j hj => hs.follows_head j hj
  cases i with
  | semaDown s | semaDownLoop s =>
    cases s <;> simp only [Instr.lockOf, Option.some.injEq, reduceCtorEq] at hli
    subst hli
    exact h.semaDownTest (by simp [hhead]) hh (hs.head_eq_successor rfl)
  | semaTryDown s =>
    cases s <;> simp only [Instr.lockOf, Option.some.injEq, reduceCtorEq] at hli
    exact absurd rfl (hs.not_semaTryDown _)
  | semaUp s =>
    cases s <;> simp only [Instr.lockOf, Option.some.injEq, reduceCtorEq] at hli
    rename_i l'
    subst hli
    -- the pending owner gives the unit back: the lock is free
    have hp : (Instr.semaUp (.lock l')).pendingOwner l' = true := by simp [Instr.pendingOwner]
    obtain ⟨hnone, hv0, -⟩ := hreq.1 hp
    refine (h.exclusive (.inl ⟨_, hhead, hp⟩)).lockOk hh (.inr (by simp [exec, semaUp_value, hv0]))
      (fun _ => by simp [exec, hnone]) fun j hj => headReq_of_bound_eq_false ?_
    simp [Kernel.head, exec, setCode_threads_code] at hj
    simp [← hj, Instr.bound, Instr.pendingOwner, Instr.holdsAt]
  | lockSetHolder l' =>
    simp only [Instr.lockOf, Option.some.injEq] at hli
    subst hli
    refine h.of_set ⟨_, hhead, by simp [Instr.pendingOwner]⟩ hh (by simp [exec]) (by simp [exec])
      fun j hj => ?_
    simp [Kernel.head, exec, setCode_threads_code, hs.head_eq_successor rfl] at hj
    simp [← hj, Instr.pendingOwner]
  | lockClearDonatingTo l' =>
    simp only [Instr.lockOf, Option.some.injEq] at hli
    subst hli
    refine h.of_held (hreq.2 (by simp [Instr.holdsAt])) hh (by simp [exec]) (by simp [exec])
      fun j hj => ?_
    simp [Kernel.head, exec, setCode_threads_code] at hj
    cases hp : j.pendingOwner l'
    · rfl
    · rcases Instr.eq_of_follows_pendingOwner (hnext j hj) hp with h1 | h1 | h1 <;> cases h1
  | lockTryAcquire l' =>
    simp only [Instr.lockOf, Option.some.injEq] at hli
    subst hli
    exact h.lockTryAcquire hs hhead hh
  | lockTrySetHolder l' =>
    simp only [Instr.lockOf, Option.some.injEq] at hli
    subst hli
    refine h.of_set ⟨_, hhead, by simp [Instr.pendingOwner]⟩ hh (by simp [exec]) (by simp [exec])
      fun j hj => ?_
    simp [Kernel.head, exec, setCode_threads_code] at hj
    -- nothing but a free block follows `lock_try_acquire`
    exact Instr.pendingOwner_eq_false_of_bound (Instr.bound_eq_false_of_free
      (Instr.free_of_admits (Bool.and_eq_true_iff.mp (hnext j hj)).2 rfl) l')
  | lockClearHolder l' =>
    simp only [Instr.lockOf, Option.some.injEq] at hli
    subst hli
    have hho : k.holder l' = some k.current := hreq.2 (by simp [Instr.holdsAt])
    have hv0 : (k.semas (.lock l')).value = 0 :=
      h.value.resolve_right fun hv1 => by simp [h.free hv1] at hho
    have hx := h.exclusive (.inr (.inl hho))
    refine hx.lockOk hh (.inl (by simp [exec, hv0])) (fun hv1 => by simp [exec, hv0] at hv1)
      fun j hj => ?_
    simp [Kernel.head, exec, setCode_threads_code] at hj
    refine ⟨fun _ => ⟨by simp [exec], by simp [exec, hv0], fun u hu => hx.not_pending hh hu⟩,
      fun hhj => ?_⟩
    rcases Instr.eq_of_follows_holdsAt (hnext j hj) hhj with h1 | h1 | h1 <;>
      simp [Instr.isAllocTid] at h1
  | allocTid c =>
    simp only [Instr.lockOf, Option.some.injEq] at hli
    subst hli
    refine h.of_held (hreq.2 (by simp [Instr.holdsAt])) hh (by simp [exec]) (by simp [exec])
      fun j hj => ?_
    simp [Kernel.head, exec, setCode_threads_code] at hj
    cases hp : j.pendingOwner tidLock
    · rfl
    · rcases Instr.eq_of_follows_pendingOwner (hnext j hj) hp with h1 | h1 | h1 <;> cases h1
  | condWait c l' =>
    simp only [Instr.lockOf, Option.some.injEq] at hli
    subst hli
    refine h.of_held (hreq.2 (by simp [Instr.holdsAt])) hh (by simp [exec])
      (by simp [exec, Kernel.condWait]) fun j hj => ?_
    simp [Kernel.head, exec, Kernel.condWait, setCode_threads_code, releaseCode] at hj
    simp [← hj, Instr.pendingOwner]
  | _ => simp [Instr.lockOf] at hli

end Exec

/-! ## Every step -/

/-- A step that changes no continuation, no `holder` and no value of `l` keeps `l`'s
invariant. -/
theorem LockOk.congr (h : k.LockOk l) (hh : ∀ u, k'.head u = k.head u)
    (hho : k'.holder l = k.holder l)
    (hv : (k'.semas (.lock l)).value = (k.semas (.lock l)).value) : k'.LockOk l := by
  have hp : ∀ u, k'.Pending u l ↔ k.Pending u l := fun u => by simp only [Kernel.Pending, hh]
  refine ⟨by rw [hv]; exact h.value, fun hv1 => by rw [hho]; exact h.free (by rw [← hv]; exact hv1),
    fun t i hi => ?_⟩
  obtain ⟨h1, h2⟩ := h.head t i (by rw [← hh]; exact hi)
  refine ⟨fun hpi => ?_, fun hhi => by rw [hho]; exact h2 hhi⟩
  obtain ⟨hnone, hv0, hothers⟩ := h1 hpi
  exact ⟨by rw [hho]; exact hnone, by rw [hv]; exact hv0, fun u hu => by rw [hp]; exact hothers u hu⟩

/-- The first block of an operation is bound to a lock only for `lock_release` and `cond_wait`,
which are called with the lock held. -/
theorem head_bound_of_call {c : Call} {j : Instr} (hj : (c.code k.policy).head? = some j)
    (hb : j.bound l = true) (ha : c.Allowed k) :
    j.pendingOwner l = false ∧ k.holder l = some k.current := by
  cases c with
  | lockAcquire l' =>
    cases hp : k.policy <;> simp [Call.code, acquireCode, hp] at hj <;> subst hj <;>
      simp [Instr.bound, Instr.pendingOwner, Instr.holdsAt] at hb
  | lockRelease l' =>
    simp [Call.code, releaseCode] at hj
    subst hj
    simp only [Instr.bound, Instr.pendingOwner, Instr.holdsAt, Bool.false_or, beq_iff_eq] at hb
    subst hb
    exact ⟨rfl, ha⟩
  | condWait c l' =>
    simp [Call.code] at hj
    subst hj
    simp only [Instr.bound, Instr.pendingOwner, Instr.holdsAt, Bool.false_or, beq_iff_eq] at hb
    subst hb
    exact ⟨rfl, ha⟩
  | _ =>
    simp [Call.code] at hj
    subst hj
    simp [Instr.bound, Instr.pendingOwner, Instr.holdsAt] at hb

theorem boot_lockInv (policy : SchedPolicy) (semaInit : Nat → UInt32) :
    (boot policy semaInit).LockInv where
  shape t := by
    simp only [boot]
    split_ifs <;> simp [LockShape, Thread.unused, Instr.successor]
  lock l := by
    refine ⟨.inr rfl, fun _ => rfl, fun t i hi => headReq_of_bound_eq_false ?_⟩
    simp only [Kernel.head, boot] at hi
    split_ifs at hi <;> simp [Thread.unused] at hi
    simp [← hi, Instr.bound, Instr.pendingOwner, Instr.holdsAt]

end Kernel

/-- **Every step keeps the lock invariant.** -/
theorem Kernel.LockInv.step {k k' : Kernel} (hI : k.LockInv) (hw : k.Wf) {e : Event}
    (h : Step k e k') : k'.LockInv := by
  have hm := Step.moves hw.core h
  have hh : ∀ u, u ≠ k.current → k'.head u = k.head u := fun u hu => by
    simp only [Kernel.head, hm.code u hu]
  -- only the running thread's continuation changes
  have shape : LockShape (k'.threads k.current).code → ∀ t, LockShape (k'.threads t).code := by
    intro hcur t
    by_cases ht : t = k.current
    · rw [ht]
      exact hcur
    · rw [hm.code t ht]
      exact hI.shape t
  cases h with
  | call c _ _ hnil ha =>
    refine ⟨shape (by simpa [Kernel.setCode_threads_code] using Call.code_lockShape _ c), fun l => ?_⟩
    have hold : ∀ i, k.head k.current = some i → i.bound l = false := fun i hi => by
      simp [Kernel.head, show (k.threads k.current).code = k.code from rfl, hnil] at hi
    have hnew : (k.setCode (c.code k.policy)).head k.current = (c.code k.policy).head? := by
      simp [Kernel.head, Kernel.setCode_threads_code]
    cases hb : ((c.code k.policy).head?.map (Instr.bound l)).getD false
    · refine (hI.lock l).of_quiet hh (by simp) (by simp) hold fun j hj => ?_
      rw [hnew] at hj
      simpa [hj] using hb
    · obtain ⟨j, hj, hjb⟩ : ∃ j, (c.code k.policy).head? = some j ∧ j.bound l = true := by
        cases hc : (c.code k.policy).head? <;> simp_all
      obtain ⟨-, hho⟩ := Kernel.head_bound_of_call hj hjb ha
      refine (hI.lock l).of_held hho hh (by simp) (by simp) fun j' hj' => ?_
      rw [hnew, hj] at hj'
      cases hj'
      exact (Kernel.head_bound_of_call hj hjb ha).1
  | @exec i rest _ hc =>
    have hs : LockShape (i :: rest) := by
      rw [← hc]
      exact hI.shape k.current
    obtain ⟨X, hX, hcode⟩ := Kernel.exec_code_current hc
    refine ⟨shape (by rw [hcode]; exact hX.lockShape hs), fun l => ?_⟩
    by_cases hli : i.lockOf = some l
    · exact (hI.lock l).exec_of_lockOf hs hc hh hli
    -- a block of another lock, or of none, leaves `l` to the other threads
    refine (hI.lock l).of_quiet hh (Kernel.exec_holder_of_lockOf _ hli)
      (Kernel.exec_lockValue_of_lockOf _ hli) (fun i' hi' => ?_) (fun j hj => ?_)
    · rw [Kernel.head_current_of_code hc] at hi'
      cases hi'
      cases hb : i.bound l
      · rfl
      · exact absurd (Instr.lockOf_of_bound hb) hli
    · cases hb : j.bound l
      · rfl
      · exact absurd (Kernel.exec_head_lockOf hs hc hj hb) hli
  | @createFail p rest _ hc =>
    have hs : LockShape (.createAlloc p :: rest) := by
      rw [← hc]
      exact hI.shape k.current
    refine ⟨shape (by simpa [Kernel.setCode_threads_code] using hs.tail), fun l => ?_⟩
    refine (hI.lock l).of_quiet hh (by simp) (by simp) (fun i hi => ?_) (fun j hj => ?_)
    · rw [Kernel.head_current_of_code hc] at hi
      cases hi
      rfl
    · simp [Kernel.head, Kernel.setCode_threads_code] at hj
      -- `thread_create` is not a key: a free block follows it
      exact Instr.bound_eq_false_of_free
        (Instr.free_of_admits (Bool.and_eq_true_iff.mp (hs.follows_head j hj)).2 rfl) l
  | timer _ _ =>
    refine ⟨fun t => by rw [Kernel.timerInterrupt_code]; exact hI.shape t,
      fun l => (hI.lock l).congr (fun u => by simp [Kernel.head]) (by simp) (by simp)⟩
  | irqSemaUp n _ _ =>
    refine ⟨fun t => by rw [Kernel.irqSemaUp_code]; exact hI.shape t,
      fun l => (hI.lock l).congr (fun u => by simp [Kernel.head]) (by simp) ?_⟩
    rw [Kernel.irqSemaUp_semas, Kernel.semaUp_semas_of_ne (by simp)]

/-- **The lock invariant holds along every run from boot.** -/
theorem KRun.lockInv {policy : SchedPolicy} {semaInit : Nat → UInt32} {evs : List Event}
    {k : Kernel} (h : KRun policy semaInit evs k) : k.LockInv :=
  (Lts.Run.inv (fun k => k.Wf ∧ k.LockInv)
    ⟨Kernel.boot_wf policy semaInit, Kernel.boot_lockInv policy semaInit⟩
    (fun _ _ _ hk hs => ⟨hk.1.step hs, hk.2.step hk.1 hs⟩) h).2

/-! ## The interval of a lock on the trace -/

/-- Thread `t` is in the interval of lock `l` after the events `evs`: it has returned from more
acquires of `l` than it has started releases of `l`. -/
def InInterval (evs : List Event) (t l : Nat) : Prop :=
  evs.count (.releasing t l) < evs.count (.acquired t l)

instance (evs : List Event) (t l : Nat) : Decidable (InInterval evs t l) :=
  inferInstanceAs (Decidable (_ < _))

namespace Kernel

/-- The state's side of the interval: `t` is the holder and has returned from `lock_acquire`. -/
def InCS (k : Kernel) (t l : Nat) : Prop :=
  k.holder l = some t ∧ k.head t ≠ some (.lockClearDonatingTo l)

instance (k : Kernel) (t l : Nat) : Decidable (k.InCS t l) :=
  inferInstanceAs (Decidable (_ ∧ _))

variable {k k' : Kernel} {i : Instr} {rest : List Instr} {t l : Nat}

theorem inCS_congr (hho : k'.holder l = k.holder l)
    (hh : k'.head t = some (.lockClearDonatingTo l) ↔ k.head t = some (.lockClearDonatingTo l)) :
    k'.InCS t l ↔ k.InCS t l := by
  simp only [InCS, hho, ne_eq, hh]

theorem exec_holder_of_ne (h₁ : i ≠ .lockSetHolder l) (h₂ : i ≠ .lockTrySetHolder l)
    (h₃ : i ≠ .lockClearHolder l) : (k.exec i rest).1.holder l = k.holder l := by
  cases hw : i.writesHolder
  · rw [exec_holder rest hw]
  · cases i <;> simp_all [Instr.writesHolder, exec, eq_comm]

/-- Only the return of `lock_acquire` and the assignment of `lock_try_acquire` report an
acquire, only the first statement of `lock_release` a release, each of the running thread. -/
theorem exec_event_acquired (h : (k.exec i rest).2 = .acquired t l) :
    t = k.current ∧ (i = .lockClearDonatingTo l ∨ i = .lockTrySetHolder l) := by
  cases i with
  | semaDown s | semaDownLoop s =>
    simp only [exec, semaDownTest] at h
    split at h <;> simp at h
  | semaTryDown s | lockTryAcquire s =>
    simp only [exec] at h
    split at h <;> simp at h
  | lockRevoke l' =>
    simp only [exec] at h
    split at h <;> simp at h
  | lockClearDonatingTo l' | lockTrySetHolder l' =>
    simp only [exec, Event.acquired.injEq] at h
    simp [h]
  | _ => simp [exec] at h

theorem exec_event_releasing (h : (k.exec i rest).2 = .releasing t l) :
    t = k.current ∧ i = .lockClearHolder l := by
  cases i with
  | semaDown s | semaDownLoop s =>
    simp only [exec, semaDownTest] at h
    split at h <;> simp at h
  | semaTryDown s | lockTryAcquire s =>
    simp only [exec] at h
    split at h <;> simp at h
  | lockRevoke l' =>
    simp only [exec] at h
    split at h <;> simp at h
  | lockClearHolder l' =>
    simp only [exec, Event.releasing.injEq] at h
    simp [h]
  | _ => simp [exec] at h

/-- The return of `lock_acquire` is reached only from the assignment of `holder`. -/
theorem exec_head_clearDonatingTo (hs : LockShape (i :: rest)) (hc : k.code = i :: rest)
    (hj : (k.exec i rest).1.head k.current = some (.lockClearDonatingTo l)) :
    i = .lockSetHolder l := by
  obtain ⟨X, hX, hcode⟩ := exec_code_current hc
  rw [Kernel.head, hcode] at hj
  cases X with
  | nil => exact Instr.eq_lockSetHolder_of_follows (hs.follows_head _ (by simpa using hj))
  | cons x xs =>
    obtain rfl : x = .lockClearDonatingTo l := by simpa using hj
    rcases hX.head_free rfl with hf | ⟨_, -, hf⟩ | ⟨_, _, -, hf⟩ <;> simp [Instr.free] at hf

theorem inCS_keep (hh : ∀ u, u ≠ k.current → k'.head u = k.head u)
    (hho : k'.holder l = k.holder l)
    (hcur : k'.head k.current = some (.lockClearDonatingTo l) ↔
      k.head k.current = some (.lockClearDonatingTo l)) : k'.InCS t l ↔ k.InCS t l := by
  refine inCS_congr hho ?_
  by_cases ht : t = k.current
  · rw [ht]
    exact hcur
  · rw [hh t ht]

/-- **What a block does to the interval** of `t` and `l`. -/
theorem exec_inCS (hI : k.LockInv) (hc : k.code = i :: rest)
    (hh : ∀ u, u ≠ k.current → (k.exec i rest).1.head u = k.head u) (t l : Nat) :
    ((k.exec i rest).2 = .acquired t l ∧ ¬k.InCS t l ∧ (k.exec i rest).1.InCS t l) ∨
    ((k.exec i rest).2 = .releasing t l ∧ k.InCS t l ∧ ¬(k.exec i rest).1.InCS t l) ∨
    ((k.exec i rest).2 ≠ .acquired t l ∧ (k.exec i rest).2 ≠ .releasing t l ∧
      ((k.exec i rest).1.InCS t l ↔ k.InCS t l)) := by
  have hs : LockShape (i :: rest) := by
    rw [← hc]
    exact hI.shape k.current
  have hhead := head_current_of_code hc
  have hreq := (hI.lock l).head _ _ hhead
  by_cases h₁ : i = .lockSetHolder l
  · -- nobody is in the interval, before (`holder` is clear) or after (it names the running
    -- thread at the return of `lock_acquire`)
    subst h₁
    obtain ⟨hnone, -, -⟩ := hreq.1 (by simp [Instr.pendingOwner])
    refine .inr (.inr ⟨by simp [exec], by simp [exec], iff_of_false ?_ (by simp [InCS, hnone])⟩)
    rintro ⟨hho, hne⟩
    obtain rfl : k.current = t := by simpa [exec] using hho
    simp [Kernel.head, exec, setCode_threads_code, hs.head_eq_successor rfl] at hne
  by_cases h₂ : i = .lockTrySetHolder l
  · subst h₂
    obtain ⟨hnone, -, -⟩ := hreq.1 (by simp [Instr.pendingOwner])
    have hout : ¬k.InCS t l := by simp [InCS, hnone]
    by_cases ht : t = k.current
    · subst ht
      refine .inl ⟨by simp [exec], hout, by simp [exec], fun hj => ?_⟩
      simp [Kernel.head, exec, setCode_threads_code] at hj
      -- only a free block follows `lock_try_acquire`
      have := Instr.free_of_admits (Bool.and_eq_true_iff.mp (hs.follows_head _ hj)).2 rfl
      simp [Instr.free] at this
    · refine .inr (.inr ⟨by simp [exec, Ne.symm ht], by simp [exec], iff_of_false ?_ hout⟩)
      simp [InCS, exec, Ne.symm ht]
  by_cases h₃ : i = .lockClearDonatingTo l
  · subst h₃
    have hho : k.holder l = some k.current := hreq.2 (by simp [Instr.holdsAt])
    by_cases ht : t = k.current
    · subst ht
      refine .inl ⟨by simp [exec], fun hin => hin.2 hhead, by simp [exec, hho], fun hj => ?_⟩
      simp [Kernel.head, exec, setCode_threads_code] at hj
      simpa using Instr.eq_lockSetHolder_of_follows (hs.follows_head _ hj)
    · exact .inr (.inr ⟨by simp [exec, Ne.symm ht], by simp [exec],
        inCS_congr (by simp [exec]) (by rw [hh t ht])⟩)
  by_cases h₄ : i = .lockClearHolder l
  · subst h₄
    have hho : k.holder l = some k.current := hreq.2 (by simp [Instr.holdsAt])
    by_cases ht : t = k.current
    · subst ht
      exact .inr (.inl ⟨by simp [exec], ⟨hho, by simp [hhead]⟩, by simp [InCS, exec]⟩)
    · have hout : ¬k.InCS t l := fun hin => ht (Option.some.inj (hin.1.symm.trans hho))
      exact .inr (.inr ⟨by simp [exec], by simp [exec, Ne.symm ht],
        iff_of_false (by simp [InCS, exec]) hout⟩)
  -- any other block reports no event of `l`, keeps `holder`, and neither leaves nor reaches
  -- the return of `lock_acquire`
  refine .inr (.inr ⟨fun he => ?_, fun he => h₄ (exec_event_releasing he).2,
    inCS_keep hh (exec_holder_of_ne h₁ h₂ h₄) ?_⟩)
  · rcases (exec_event_acquired he).2 with rfl | rfl <;> contradiction
  · rw [hhead]
    refine ⟨fun hj => absurd (exec_head_clearDonatingTo hs hc hj) h₁, fun hj => ?_⟩
    cases hj
    exact absurd rfl h₃

theorem Call.code_head_ne (c : Call) (p : SchedPolicy) (l : Nat) :
    (c.code p).head? ≠ some (.lockClearDonatingTo l) := by
  cases c <;> cases p <;> simp [Call.code, acquireCode, releaseCode]

end Kernel

/-- **What one step does to the interval**: it enters it with an `acquired` event, leaves it
with a `releasing` event, or keeps it. -/
theorem Step.inCS {k k' : Kernel} {e : Event} (hI : k.LockInv) (hw : k.Wf) (h : Step k e k')
    (t l : Nat) :
    (e = .acquired t l ∧ ¬k.InCS t l ∧ k'.InCS t l) ∨
    (e = .releasing t l ∧ k.InCS t l ∧ ¬k'.InCS t l) ∨
    (e ≠ .acquired t l ∧ e ≠ .releasing t l ∧ (k'.InCS t l ↔ k.InCS t l)) := by
  have hm := Step.moves hw.core h
  have hh : ∀ u, u ≠ k.current → k'.head u = k.head u := fun u hu => by
    simp only [Kernel.head, hm.code u hu]
  cases h with
  | call c _ _ hnil _ =>
    refine .inr (.inr ⟨by simp, by simp, Kernel.inCS_keep hh (by simp) ?_⟩)
    have hnil' : (k.threads k.current).code = [] := hnil
    simp only [Kernel.head, Kernel.setCode_threads_code, if_pos, hnil', List.head?_nil, reduceCtorEq,
      iff_false]
    exact Kernel.Call.code_head_ne c _ l
  | @exec i rest _ hc => exact Kernel.exec_inCS hI hc hh t l
  | @createFail p rest _ hc =>
    have hs : LockShape (.createAlloc p :: rest) := by
      rw [← hc]
      exact hI.shape k.current
    refine .inr (.inr ⟨by simp, by simp, Kernel.inCS_keep hh (by simp) ?_⟩)
    rw [Kernel.head_current_of_code hc]
    simp only [Kernel.head, Kernel.setCode_threads_code, if_pos, Option.some.injEq, reduceCtorEq,
      iff_false]
    intro hj
    have := Instr.free_of_admits (Bool.and_eq_true_iff.mp (hs.follows_head _ hj)).2 rfl
    simp [Instr.free] at this
  | timer _ _ =>
    exact .inr (.inr ⟨by simp, by simp, Kernel.inCS_congr (by simp) (by simp [Kernel.head])⟩)
  | irqSemaUp n _ _ =>
    exact .inr (.inr ⟨by simp, by simp, Kernel.inCS_congr (by simp) (by simp [Kernel.head])⟩)

/-- **The interval on the trace is the state's**: a thread has returned from one more acquire
of `l` than it has started releases exactly when it holds `l` and is past the return. -/
theorem KRun.interval_count {policy : SchedPolicy} {semaInit : Nat → UInt32} {evs : List Event}
    {k : Kernel} (h : KRun policy semaInit evs k) (t l : Nat) :
    evs.count (.acquired t l) = evs.count (.releasing t l) + if k.InCS t l then 1 else 0 := by
  induction h with
  | nil => simp [Kernel.InCS, Kernel.boot]
  | snoc hr hs ih =>
    rcases Step.inCS (KRun.lockInv hr) (KRun.wf hr) hs t l with
      ⟨rfl, h₁, h₂⟩ | ⟨rfl, h₁, h₂⟩ | ⟨h₁, h₂, h₃⟩
    · simp only [h₁, h₂, if_false, if_true] at ih ⊢
      simp [List.count_append, ih]
    · simp only [h₁, h₂, if_false, if_true] at ih ⊢
      simp [List.count_append, ih]
    · rw [if_congr h₃ rfl rfl]
      simp [List.count_append, ih, h₁, h₂]

theorem KRun.inInterval_iff {policy : SchedPolicy} {semaInit : Nat → UInt32} {evs : List Event}
    {k : Kernel} (h : KRun policy semaInit evs k) (t l : Nat) :
    InInterval evs t l ↔ k.InCS t l := by
  have := h.interval_count t l
  unfold InInterval
  split_ifs at this with hin <;> simp only [hin, iff_true, iff_false] <;> omega

/-- Mutual exclusion of a lock along every run from boot, under either policy: at most one
thread is in the interval and it is the holder; a non-`NULL` `holder` (and so a true
`lock_held_by_current_thread`) names the thread in the interval or a thread at the return of
`lock_acquire`; the value stays in {0, 1}, and at 1 the lock is free. -/
theorem lock_mutual_exclusion {policy : SchedPolicy} {semaInit : Nat → UInt32}
    {evs : List Event} {k : Kernel} (h : KRun policy semaInit evs k) (l : Nat) :
    (∀ t t', InInterval evs t l → InInterval evs t' l → t = t') ∧
      (∀ t, InInterval evs t l → k.holder l = some t) ∧
      (∀ t, k.holder l = some t →
        InInterval evs t l ∨ k.head t = some (.lockClearDonatingTo l)) ∧
      (k.lockHeldByCurrentThread l = true →
        InInterval evs k.current l ∨ k.head k.current = some (.lockClearDonatingTo l)) ∧
      ((k.semas (.lock l)).value = 0 ∨ (k.semas (.lock l)).value = 1) ∧
      ((k.semas (.lock l)).value = 1 → k.holder l = none ∧ ∀ t, ¬InInterval evs t l) := by
  have hiff := h.inInterval_iff
  have hl := h.lockInv.lock l
  -- `holder` names a thread in the interval or one at the return of `lock_acquire`
  have hheld : ∀ t, k.holder l = some t →
      InInterval evs t l ∨ k.head t = some (.lockClearDonatingTo l) := by
    intro t ht
    by_cases hj : k.head t = some (.lockClearDonatingTo l)
    · exact .inr hj
    · exact .inl ((hiff t l).mpr ⟨ht, hj⟩)
  refine ⟨fun t t' h₁ h₂ => ?_, fun t ht => ((hiff t l).mp ht).1, hheld, fun hc => hheld _ ?_,
    hl.value, fun hv1 => ⟨hl.free hv1, fun t ht => ?_⟩⟩
  · exact Option.some.inj (((hiff t l).mp h₁).1.symm.trans ((hiff t' l).mp h₂).1)
  · simpa [Kernel.lockHeldByCurrentThread] using hc
  · have := ((hiff t l).mp ht).1
    rw [hl.free hv1] at this
    cases this

/-- Under `SCHED_PRIO`, `main` takes lock 1; a thread of priority 40 blocks on it; `main` releases
it, and the waiter takes it and returns from `lock_acquire`. -/
def lockHandoffSchedule : List Action :=
  [.call (.lockAcquire 1)] ++ execs 4 ++ createRun 40 ++ [.call (.lockAcquire 1)] ++ execs 3 ++
    [.call (.lockRelease 1)] ++ execs 8

theorem lock_mutual_exclusion_handoff :
    ∃ evs k, KRun .prio (fun _ => 0) evs k ∧ InInterval evs 2 1 ∧ ¬InInterval evs 1 1 ∧
      ((∀ t t', InInterval evs t 1 → InInterval evs t' 1 → t = t') ∧
        (∀ t, InInterval evs t 1 → k.holder 1 = some t) ∧
        (∀ t, k.holder 1 = some t →
          InInterval evs t 1 ∨ k.head t = some (.lockClearDonatingTo 1)) ∧
        (k.lockHeldByCurrentThread 1 = true →
          InInterval evs k.current 1 ∨ k.head k.current = some (.lockClearDonatingTo 1)) ∧
        ((k.semas (.lock 1)).value = 0 ∨ (k.semas (.lock 1)).value = 1) ∧
        ((k.semas (.lock 1)).value = 1 → k.holder 1 = none ∧ ∀ t, ¬InInterval evs t 1)) := by
  obtain ⟨evs, k, hrun, h2, h1⟩ := Kernel.exists_run_of_replayTraceEndsIn
    (Kernel.boot .prio fun _ => 0) lockHandoffSchedule
    (fun evs _ => InInterval evs 2 1 ∧ ¬InInterval evs 1 1) (by decide +kernel)
  exact ⟨evs, k, hrun, h2, h1, lock_mutual_exclusion hrun 1⟩

/-- `lock_acquire` sets `holder` one statement before it returns: after `sema_down` and
`lock->holder = current_thread`, `holder` names the running thread, and
`lock_held_by_current_thread` is true, while no thread is in the interval. -/
theorem holder_before_return : ∃ evs k, KRun .fifo (fun _ => 0) evs k ∧
    k.holder 1 = some 1 ∧ k.lockHeldByCurrentThread 1 = true ∧ ∀ t, ¬InInterval evs t 1 := by
  obtain ⟨evs, k, hrun, hh, hc, rfl⟩ := Kernel.exists_run_of_replayTraceEndsIn
    (Kernel.boot .fifo fun _ => 0) [.call (.lockAcquire 1), .exec, .exec]
    (fun evs k => k.holder 1 = some 1 ∧ k.lockHeldByCurrentThread 1 = true ∧
      evs = [.tau, .semaDown (.lock 1), .tau]) (by decide +kernel)
  exact ⟨_, k, hrun, hh, hc, fun t => by simp [InInterval]⟩

end Pintos
