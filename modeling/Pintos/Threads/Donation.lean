import Mathlib.Order.Bounds.Defs
import Pintos.Threads.Machine

/-!
# Priority donation (`thread_get_priority_of`, `lock_acquire`)

Under `SCHED_PRIO` a thread that finds its lock held records a `struct donation` on the holder
and sets its own `donating_to`; the propagation loop of `lock_acquire` then follows
`donating_to` from the holder, raising in each recipient the donation it received from the
previous one.

* `threadGetPriorityOf_isGreatest` — the effective priority is the largest of the base priority
  and the donated ones;
* `lockDonate_holder_priority` — after the donation block the holder runs at least at the
  priority of the thread that waits for it;
* `donateLoop_exits` — when `donating_to` leads from the first recipient to `NULL` in `n` hops,
  the loop leaves after `n + 1` turns;
* `donateLoop_divergent` — when it enters a set of threads that `donating_to` never leaves, the
  loop never ends, and since it runs with interrupts off no other thread runs again.

`lock_release` revokes only the donations made for the released lock, and the waiters that do
not get the lock keep a `donating_to` that names the releasing thread.  The last section
replays two schedules from boot along which this breaks the donation invariant and closes a
spurious `donating_to` cycle.
-/

set_option autoImplicit false

namespace Pintos

namespace Kernel

/-! ## Effective priority -/

section Priority

variable (k : Kernel) (t : Nat)

/-- The priorities `thread_get_priority_of` chooses among: the base priority and the
donated ones. -/
def CandidatePriority (p : Int) : Prop :=
  p = (k.threads t).priority ∨ ∃ d ∈ (k.threads t).donations, p = d.donatedPriority

/-- **`thread_get_priority_of` is the maximum** of the base and the donated priorities. -/
theorem threadGetPriorityOf_isGreatest :
    IsGreatest {p | k.CandidatePriority t p} (k.threadGetPriorityOf t) := by
  unfold threadGetPriorityOf
  split
  · -- no donation: `list_max` of the empty list
    rename_i hm
    have hnil := listMax_eq_none.mp hm
    refine ⟨Or.inl rfl, ?_⟩
    rintro p (rfl | ⟨d, hd, rfl⟩)
    · exact le_rfl
    · rw [hnil] at hd; cases hd
  · rename_i m hm
    split
    · rename_i hge
      refine ⟨Or.inr ⟨m, listMax_mem hm, rfl⟩, ?_⟩
      rintro p (rfl | ⟨d, hd, rfl⟩)
      · exact hge
      · exact le_listMax hm hd
    · rename_i hlt
      refine ⟨Or.inl rfl, ?_⟩
      rintro p (rfl | ⟨d, hd, rfl⟩)
      · exact le_rfl
      · have hdm : d.donatedPriority ≤ m.donatedPriority := le_listMax hm hd
        show d.donatedPriority ≤ (k.threads t).priority
        omega

theorem priority_le_threadGetPriorityOf : (k.threads t).priority ≤ k.threadGetPriorityOf t :=
  (k.threadGetPriorityOf_isGreatest t).2 (Or.inl rfl)

theorem donatedPriority_le_threadGetPriorityOf {d : Donation}
    (hd : d ∈ (k.threads t).donations) : d.donatedPriority ≤ k.threadGetPriorityOf t :=
  (k.threadGetPriorityOf_isGreatest t).2 (Or.inr ⟨d, hd, rfl⟩)

end Priority

/-! ## The donation block -/

section Donate

variable {k : Kernel} {l : Nat} {h : Nat} {rest : List Instr}

theorem lockDonate_threads (hh : k.holder l = some h)
    (hd : (k.threads k.current).donatingTo = none) (t : Nat) :
    ((k.lockDonate l rest).threads t).donations =
      if t = h then (k.threads t).donations ++ [⟨k.threadGetPriorityOf k.current, k.current, l⟩]
      else (k.threads t).donations := by
  unfold lockDonate
  simp only [hh, hd, if_true, setCode_threads, modifyThread_threads, modifyThread_current]
  by_cases hth : t = h <;> by_cases htc : t = k.current <;> simp_all

/-- **`lock_acquire` donates**: when the lock has a holder and the running thread donates to no
one yet, after the donation block the holder's effective priority is at least the running
thread's. -/
theorem lockDonate_holder_priority (hh : k.holder l = some h)
    (hd : (k.threads k.current).donatingTo = none) :
    k.threadGetPriorityOf k.current ≤ (k.lockDonate l rest).threadGetPriorityOf h := by
  have hmem : (⟨k.threadGetPriorityOf k.current, k.current, l⟩ : Donation) ∈
      ((k.lockDonate l rest).threads h).donations := by
    rw [lockDonate_threads hh hd]
    simp
  exact donatedPriority_le_threadGetPriorityOf _ _ hmem

theorem lockDonate_code (hh : k.holder l = some h)
    (hd : (k.threads k.current).donatingTo = none) :
    (k.lockDonate l rest).code = .donateLoop (k.threadGetPriorityOf k.current) h :: rest := by
  unfold lockDonate
  simp [hh, hd]

end Donate

/-! ## The propagation loop -/

section Loop

variable (p : Int) (rest : List Instr)

@[simp] theorem donateLoop_current (k : Kernel) (r : Nat) :
    (k.donateLoop p r rest).current = k.current := by
  unfold donateLoop; split <;> rfl

@[simp] theorem donateLoop_panicked (k : Kernel) (r : Nat) :
    (k.donateLoop p r rest).panicked = k.panicked := by
  unfold donateLoop; split <;> rfl

/-- The loop changes donations and the running thread's continuation, never `donating_to`. -/
@[simp] theorem donateLoop_donatingTo (k : Kernel) (r t : Nat) :
    ((k.donateLoop p r rest).threads t).donatingTo = (k.threads t).donatingTo := by
  unfold donateLoop
  split
  · rw [setCode_threads]; split <;> simp_all
  · rw [setCode_threads, modifyThread_threads, modifyThread_threads]
    split <;> split <;> simp_all

theorem donateLoop_code_none {k : Kernel} {r : Nat} (h : (k.threads r).donatingTo = none) :
    (k.donateLoop p r rest).code = rest := by
  unfold donateLoop
  rw [h]
  simp

theorem donateLoop_code_some {k : Kernel} {r n : Nat} (h : (k.threads r).donatingTo = some n) :
    (k.donateLoop p r rest).code = .donateLoop p n :: rest := by
  unfold donateLoop
  rw [h]
  simp

/-- The thread `n` `donating_to` hops after `r`; `none` once a `NULL` is passed. -/
def donationChain (k : Kernel) : Nat → Nat → Option Nat
  | r, 0 => some r
  | r, n + 1 => (k.threads r).donatingTo.bind fun u => k.donationChain u n

theorem donationChain_donateLoop (k : Kernel) (r : Nat) :
    (k.donateLoop p r rest).donationChain = k.donationChain := by
  funext u n
  induction n generalizing u with
  | zero => rfl
  | succ n ih => simp only [donationChain, donateLoop_donatingTo, ih]

/-- **The propagation loop terminates on a finite chain**: when `donating_to` leads from the
first recipient to `NULL` within `n` hops, the running thread leaves the loop after at most
`n + 1` turns, still running. -/
theorem donateLoop_exits (n : Nat) : ∀ (k : Kernel) (r : Nat), k.panicked = false →
    k.code = .donateLoop p r :: rest → k.donationChain r (n + 1) = none →
    ∃ evs k', evs.length ≤ n + 1 ∧ Lts.Run Step k evs k' ∧ k'.code = rest ∧
      k'.current = k.current := by
  -- induction on the length of the chain; each turn moves one hop along it
  induction n with
  | zero =>
    intro k r hp hc hn
    have hnone : (k.threads r).donatingTo = none := by
      simpa [donationChain, Option.bind_eq_none_iff] using hn
    refine ⟨[.tau], k.donateLoop p r rest, le_rfl, Lts.Run.single (Step.exec hp hc),
      donateLoop_code_none p rest hnone, donateLoop_current p rest k r⟩
  | succ n ih =>
    intro k r hp hc hn
    cases hr : (k.threads r).donatingTo with
    | none =>
      exact ⟨[.tau], k.donateLoop p r rest, by simp, Lts.Run.single (Step.exec hp hc),
        donateLoop_code_none p rest hr, donateLoop_current p rest k r⟩
    | some u =>
      have hu : k.donationChain u (n + 1) = none := by simpa [donationChain, hr] using hn
      obtain ⟨evs, k', hlen, hrun, hcode, hcur⟩ := ih (k.donateLoop p r rest) u
        (by simpa using hp) (donateLoop_code_some p rest hr)
        (by rw [donationChain_donateLoop]; exact hu)
      refine ⟨.tau :: evs, k', by simp; omega, Lts.Run.cons (Step.exec hp hc) hrun, hcode, ?_⟩
      rw [hcur, donateLoop_current]

/-- Thread `c` runs the propagation loop at a recipient in `C`, a set of threads whose
`donating_to` never leaves `C`. -/
structure InDonationCycle (c : Nat) (C : Nat → Prop) (k : Kernel) : Prop where
  running : k.panicked = false
  current : k.current = c
  closed : ∀ t, C t → ∃ u, (k.threads t).donatingTo = some u ∧ C u
  spinning : ∃ r, C r ∧ k.code = .donateLoop p r :: rest

theorem InDonationCycle.intrOn_eq_false {c : Nat} {C : Nat → Prop} {k : Kernel}
    (hk : InDonationCycle p rest c C k) : k.intrOn = false := by
  obtain ⟨r, -, hc⟩ := hk.spinning
  simp [Kernel.intrOn, hc, Instr.intrOff]

/-- Two threads whose `donating_to` name each other form a cycle. -/
theorem InDonationCycle.of_pair {k : Kernel} {a b : Nat} (hp : k.panicked = false)
    (ha : (k.threads a).donatingTo = some b) (hb : (k.threads b).donatingTo = some a)
    (hc : k.code = .donateLoop p a :: rest) :
    InDonationCycle p rest k.current (fun t => t = a ∨ t = b) k where
  running := hp
  current := rfl
  closed := by
    rintro t (rfl | rfl)
    · exact ⟨b, ha, Or.inr rfl⟩
    · exact ⟨a, hb, Or.inl rfl⟩
  spinning := ⟨a, Or.inl rfl, hc⟩

/-- **The propagation loop diverges on a cycle**: from a state in the loop at a recipient of a
`donating_to` cycle, the only step is the next turn, which stays in the loop. -/
theorem donateLoop_divergent (c : Nat) (C : Nat → Prop) :
    Lts.Divergent Step (InDonationCycle p rest c C) where
  closed := by
    intro k e k' hk hs
    obtain ⟨r, hr, hc⟩ := hk.spinning
    obtain ⟨u, hu, hCu⟩ := hk.closed r hr
    -- interrupts are off, so the step is the loop's next turn
    obtain ⟨-, rfl⟩ := Step.of_intrOff hc rfl hs
    refine ⟨?_, ?_, ?_, ⟨u, hCu, donateLoop_code_some p rest hu⟩⟩
    · simpa [exec] using hk.running
    · simpa [exec] using hk.current
    · intro t ht
      simpa [exec] using hk.closed t ht
  live := by
    intro k hk
    obtain ⟨r, -, hc⟩ := hk.spinning
    exact ⟨_, _, Step.exec hk.running hc⟩

end Loop

end Kernel

/-! ## Two schedules from boot

Both start the same way under `SCHED_PRIO`: `main` (thread 1, priority 31) takes lock 1;
threads 2 and 3, both of priority 31, block on it, thread 3 after taking lock 2; `main` releases
lock 1, which `sema_up` hands to thread 2.  Thread 3 stays in lock 1's waiters with
`donating_to` naming `main`. -/

/-- The common prefix: lock 1 is released to one of its two waiters. -/
def releaseToOneWaiter : List Action :=
  [.call (.lockAcquire 1)] ++ execs 4 ++
  createRun 31 ++ [.call (.lockAcquire 1)] ++ execs 3 ++
  createRun 31 ++ [.call (.lockAcquire 2)] ++ execs 4 ++ [.call (.lockAcquire 1)] ++ execs 3 ++
  [.call (.lockRelease 1)] ++ execs 4

/-- Then a thread of priority 40 blocks on lock 2: its donation reaches thread 3, and the
propagation loop follows thread 3's stale `donating_to` to `main` instead of thread 2; thread 2
then takes lock 1. -/
def nestedDonationSchedule : List Action :=
  releaseToOneWaiter ++ createRun 40 ++ [.call (.lockAcquire 2)] ++ execs 4 ++ execs 3

theorem waiter_outranks_holder :
    ∃ evs k, KRun .prio (fun _ => 0) evs k ∧
      k.holder 1 = some 2 ∧ 3 ∈ (k.semas (.lock 1)).waiters ∧
      k.threadGetPriorityOf 2 < k.threadGetPriorityOf 3 :=
  Kernel.exists_run_of_replayEndsIn _ nestedDonationSchedule _ (by decide +kernel)

/-- Then `main` calls `lock_acquire (2)`: it donates to thread 3, whose `donating_to` leads back
to `main`. -/
def spuriousCycleSchedule : List Action :=
  releaseToOneWaiter ++ [.call (.lockAcquire 2)] ++ execs 1

theorem stale_donation_spins :
    ∃ evs k, KRun .prio (fun _ => 0) evs k ∧
      -- no deadlock: `main` waits for lock 2, held by thread 3, which waits for the free lock 1
      k.holder 2 = some 3 ∧ 3 ∈ (k.semas (.lock 1)).waiters ∧ k.holder 1 = none ∧
      -- thread 3 still donates to `main`
      (k.threads 3).donatingTo = some 1 ∧
      -- `main` never leaves the propagation loop and interrupts stay off
      (∀ evs' k', Lts.Run Step k evs' k' →
        k'.current = 1 ∧ k'.intrOn = false ∧ ∃ r, k'.code = .donateLoop 31 r ::
          [.semaDown (.lock 2), .lockSetHolder 2, .lockClearDonatingTo 2]) ∧
      ∀ n, ∃ evs' k', evs'.length = n ∧ Lts.Run Step k evs' k' := by
  obtain ⟨evs, k, hrun, hp, hcur, hc, h1, h3, hh2, hw, hh1⟩ :=
    Kernel.exists_run_of_replayEndsIn (Kernel.boot .prio fun _ => 0) spuriousCycleSchedule
      (fun k => k.panicked = false ∧ k.current = 1 ∧
        k.code = .donateLoop 31 3 :: [.semaDown (.lock 2), .lockSetHolder 2,
          .lockClearDonatingTo 2] ∧
        (k.threads 1).donatingTo = some 3 ∧ (k.threads 3).donatingTo = some 1 ∧
        k.holder 2 = some 3 ∧ 3 ∈ (k.semas (.lock 1)).waiters ∧ k.holder 1 = none)
      (by decide +kernel)
  have hcyc := Kernel.InDonationCycle.of_pair 31 _ hp h3 h1 hc
  rw [hcur] at hcyc
  have hdiv := Kernel.donateLoop_divergent 31
    [.semaDown (.lock 2), .lockSetHolder 2, .lockClearDonatingTo 2] 1 (fun t => t = 3 ∨ t = 1)
  refine ⟨evs, k, hrun, hh2, hw, hh1, h3, ?_, ?_⟩
  · intro evs' k' hrun'
    have hk' := hdiv.stays hcyc hrun'
    obtain ⟨r, -, hcode⟩ := hk'.spinning
    exact ⟨hk'.current, hk'.intrOn_eq_false, r, hcode⟩
  · intro n
    obtain ⟨evs', k', hlen, hrun', -⟩ := hdiv.runs n k hcyc
    exact ⟨evs', k', hlen, hrun'⟩

end Pintos
