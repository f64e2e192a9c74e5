import Pintos.Threads.Invariant

/-!
# What a step does to the other threads and to the running thread's continuation

Inversion lemmas for `Kernel.exec` and `Step`, so that invariants over runs are proved from
what a step can do rather than by unfolding every block again:

* `Moves cur k k'` — the threads other than `cur` keep their continuations, and the status of
  a live one stays, or becomes `ready` (`thread_unblock`) or `running` (`schedule`).  Each
  primitive of `thread.c` satisfies it for the running thread, `Moves.trans` composes them,
  and every step satisfies it (`Step.moves`).
* `Produces k i X` — the blocks that executing `i` puts in front of the rest of the running
  thread's continuation (`exec_code_current`).
-/

set_option autoImplicit false

namespace Pintos

/-- A status change that `thread_unblock` or `schedule` makes: none, to `ready`, or to
`running`. -/
def StatusMove (a b : ThreadStatus) : Prop := b = a ∨ b = .ready ∨ b = .running

theorem StatusMove.refl (a : ThreadStatus) : StatusMove a a := .inl rfl

theorem StatusMove.trans {a b c : ThreadStatus} (h₁ : StatusMove a b) (h₂ : StatusMove b c) :
    StatusMove a c := by
  unfold StatusMove at *
  rcases h₁ with rfl | rfl | rfl <;> rcases h₂ with rfl | rfl | rfl <;> simp

theorem StatusMove.ne_dying {a b : ThreadStatus} (h : StatusMove a b) (ha : a ≠ .dying) :
    b ≠ .dying := by
  rcases h with rfl | rfl | rfl <;> simp_all

namespace Kernel

/-- The threads other than `cur` keep their continuations, and a live one keeps its status
or becomes ready or running. -/
structure Moves (cur : Nat) (k k' : Kernel) : Prop where
  code : ∀ u, u ≠ cur → (k'.threads u).code = (k.threads u).code
  status : ∀ u, u ≠ cur → (k.threads u).status ≠ .dying →
    StatusMove (k.threads u).status (k'.threads u).status

section Moves

variable {cur : Nat} {k k' k'' : Kernel}

theorem Moves.refl (cur : Nat) (k : Kernel) : Moves cur k k :=
  ⟨fun _ _ => rfl, fun _ _ _ => StatusMove.refl _⟩

theorem Moves.trans (h₁ : Moves cur k k') (h₂ : Moves cur k' k'') : Moves cur k k'' where
  code u hu := (h₂.code u hu).trans (h₁.code u hu)
  status u hu hd :=
    (h₁.status u hu hd).trans (h₂.status u hu ((h₁.status u hu hd).ne_dying hd))

/-- A ready thread other than `cur` is still ready, or is running. -/
theorem Moves.ready (h : Moves cur k k') {u : Nat} (hu : u ≠ cur)
    (hr : (k.threads u).status = .ready) :
    (k'.threads u).status = .ready ∨ (k'.threads u).status = .running := by
  rcases h.status u hu (by rw [hr]; simp) with h | h | h <;> simp_all

theorem SameShape.moves (h : SameShape k k') : Moves cur k k' :=
  ⟨fun u _ => h.code u, fun u _ _ => by rw [h.status u]; exact StatusMove.refl _⟩

/-! The primitives of `thread.c`, each appended to a change already made, so that a chain
reads in the order of the code: `((Moves.refl _ k).setCode rfl c).threadBlock rfl`. -/

/-- A change that leaves every thread's record alone. -/
theorem Moves.keep (h : Moves cur k k') (ht : k''.threads = k'.threads) : Moves cur k k'' :=
  h.trans ⟨fun _ _ => by rw [ht], fun _ _ _ => by rw [ht]; exact StatusMove.refl _⟩

theorem Moves.modifyThread_self (h : Moves cur k k') (f : Thread → Thread) :
    Moves cur k (k'.modifyThread cur f) :=
  h.trans ⟨fun u hu => by rw [modifyThread_threads_of_ne _ hu],
    fun u hu _ => by rw [modifyThread_threads_of_ne _ hu]; exact StatusMove.refl _⟩

/-- A change of some thread's record that keeps its status and continuation. -/
theorem Moves.modifyThread_keeps (h : Moves cur k k') {t : Nat} {f : Thread → Thread}
    (hs : (f (k'.threads t)).status = (k'.threads t).status)
    (hc : (f (k'.threads t)).code = (k'.threads t).code) : Moves cur k (k'.modifyThread t f) :=
  h.trans (sameShape_modifyThread hs hc).moves

theorem Moves.setCode (h : Moves cur k k') (hc : k'.current = cur) (c : List Instr) :
    Moves cur k (k'.setCode c) := by
  subst hc
  exact h.modifyThread_self _

theorem Moves.threadUnblock (h : Moves cur k k') (t : Nat) : Moves cur k (k'.threadUnblock t) :=
  h.trans
    { code := fun _ _ => threadUnblock_code _ _
      status := fun u _ _ => by
        rw [threadUnblock_status]
        split
        · exact .inr (.inl rfl)
        · exact StatusMove.refl _ }

theorem Moves.schedule (h : Moves cur k k') : Moves cur k k'.schedule :=
  h.trans
    { code := fun _ _ => schedule_code _
      status := fun u _ _ => by
        rw [schedule_status]
        split
        · exact .inr (.inr rfl)
        · exact StatusMove.refl _ }

/-- The page `palloc_get_page` hands to `thread_create` held no thread. -/
theorem Moves.setThread_fresh (h : Moves cur k k') {t : Nat} {th : Thread}
    (hd : (k'.threads t).status = .dying) (hc : (k'.threads t).code = []) (hth : th.code = []) :
    Moves cur k (k'.setThread t th) :=
  h.trans
    { code := fun u _ => by
        rw [setThread_threads]
        split
        · subst u; rw [hth, hc]
        · rfl
      status := fun u _ hu => by
        rw [setThread_threads]
        split
        · subst u; exact absurd hd hu
        · exact StatusMove.refl _ }

theorem Moves.threadBlock (h : Moves cur k k') (hc : k'.current = cur) :
    Moves cur k k'.threadBlock := by
  subst hc
  exact (h.modifyThread_self _).schedule

theorem Moves.threadYield (h : Moves cur k k') (hc : k'.current = cur) :
    Moves cur k k'.threadYield := by
  subst hc
  unfold threadYield
  refine ((h.keep ?_).modifyThread_self _).schedule
  split <;> rfl

theorem Moves.semaUpWake (h : Moves cur k k') (s : SemaRef) : Moves cur k (k'.semaUpWake s).1 := by
  unfold Kernel.semaUpWake
  split
  · split
    · exact h
    · dsimp only
      refine (h.keep ?_).threadUnblock _
      rfl
  · split
    · exact h
    · refine (h.keep ?_).threadUnblock _
      rfl

theorem Moves.semaUp (h : Moves cur k k') (s : SemaRef) : Moves cur k (k'.semaUp s).1 :=
  (h.semaUpWake s).keep rfl

theorem Moves.wakeSleeping (now : Int) :
    ∀ (l : List Nat) {k' : Kernel}, Moves cur k k' → Moves cur k (wakeSleeping now l k')
  | [], _, h => h.keep rfl
  | t :: l, k', h => by
    simp only [Pintos.wakeSleeping]
    split
    · refine h.keep ?_
      rfl
    · exact Moves.wakeSleeping now l (h.threadUnblock t)

end Moves

section Blocks

variable {k : Kernel} (rest : List Instr)

theorem moves_timerInterrupt : Moves k.current k k.timerInterrupt := by
  unfold timerInterrupt timerWakeSleepingThreads
  dsimp only
  have h₀ : Moves k.current k { k with ticks := k.ticks + 1 } := (Moves.refl _ _).keep rfl
  have h₁ := Moves.wakeSleeping (k.ticks + 1) k.sleepList h₀
  split
  · -- `thread_yield` runs for the interrupted thread, which waking sleepers leaves current
    refine (h₁.keep ?_).threadYield ?_
    · rfl
    · simp
  · refine h₁.keep ?_
    rfl

theorem moves_irqSemaUp (n : Nat) : Moves k.current k (k.irqSemaUp n) := by
  unfold irqSemaUp
  split
  · exact ((Moves.refl _ _).semaUp _).threadYield (by simp)
  · exact (Moves.refl _ _).semaUp _

theorem moves_semaDownTest (s : SemaRef) : Moves k.current k (k.semaDownTest s rest).1 := by
  have h₀ := Moves.refl k.current k
  unfold semaDownTest
  split <;> dsimp only
  · refine ((h₀.keep ?_).setCode ?_ _).threadBlock ?_ <;> rfl
  · refine (h₀.keep ?_).setCode ?_ _ <;> rfl

theorem moves_lockDonate (l : Nat) : Moves k.current k (k.lockDonate l rest) := by
  unfold lockDonate
  split
  · split
    · refine (((Moves.refl _ _).modifyThread_keeps ?_ ?_).modifyThread_self _).setCode ?_ _ <;> rfl
    · exact (Moves.refl _ _).setCode rfl _
  · exact (Moves.refl _ _).setCode rfl _

theorem moves_donateLoop (p : Int) (r : Nat) : Moves k.current k (k.donateLoop p r rest) := by
  unfold donateLoop
  split
  · exact (Moves.refl _ _).setCode rfl _
  · refine ((Moves.refl _ _).modifyThread_keeps ?_ ?_).setCode ?_ _ <;> rfl

theorem moves_setPriority (p : Int) : Moves k.current k (k.setPriority p rest) := by
  unfold setPriority
  dsimp only
  split
  · split <;> refine ((Moves.refl _ _).modifyThread_self _).setCode ?_ _ <;> rfl
  · exact ((Moves.refl _ _).modifyThread_self _).setCode rfl _

theorem moves_updateDonations (donor donee : Nat) :
    Moves k.current k (k.updateDonations donor donee rest) := by
  unfold updateDonations
  dsimp only
  split
  · split <;> refine ((Moves.refl _ _).modifyThread_keeps ?_ ?_).setCode ?_ _ <;> rfl
  · exact (Moves.refl _ _).setCode rfl _

theorem moves_createAlloc (hd : (k.threads k.nextThread).status = .dying)
    (hc : (k.threads k.nextThread).code = []) (p : Int) :
    Moves k.current k (k.createAlloc p rest) := by
  have h₀ := Moves.refl k.current k
  unfold createAlloc
  refine ((h₀.keep ?_).setThread_fresh ?_ ?_ ?_).setCode ?_ _
  all_goals first | rfl | exact hd | exact hc

theorem moves_threadExit : Moves k.current k (k.threadExit rest) := by
  unfold threadExit
  dsimp only
  have h₁ := ((Moves.refl k.current k).setCode rfl rest).modifyThread_self
    fun th => { th with status := .dying }
  split
  · exact h₁.schedule
  · have h₂ := h₁.modifyThread_self fun th => { th with donations := [] }
    split
    · refine h₂.keep ?_
      rfl
    · exact h₂.schedule

theorem moves_timerSleep (n : Int) : Moves k.current k (k.timerSleep n rest) := by
  have h₀ := Moves.refl k.current k
  unfold timerSleep
  split
  · exact h₀.setCode rfl _
  · dsimp only
    refine (((h₀.modifyThread_self fun th => { th with wakeTime := int64Add k.ticks n }).keep ?_).setCode
      ?_ _).threadBlock ?_ <;> rfl

theorem moves_condWait (c l : Nat) : Moves k.current k (k.condWait c l rest) := by
  unfold condWait
  refine ((Moves.refl _ _).keep ?_).setCode ?_ _ <;> rfl

theorem moves_condSignal (c : Nat) : Moves k.current k (k.condSignal c rest) := by
  unfold condSignal
  split
  · exact (Moves.refl _ _).setCode rfl _
  · refine ((Moves.refl _ _).keep ?_).setCode ?_ _ <;> rfl
  · refine ((Moves.refl _ _).keep ?_).setCode ?_ _ <;> rfl

/-- **Only the running thread's continuation changes**, and the others only become ready or
running. -/
theorem moves_exec (hd : (k.threads k.nextThread).status = .dying)
    (hc : (k.threads k.nextThread).code = []) (i : Instr) :
    Moves k.current k (k.exec i rest).1 := by
  have h₀ := Moves.refl k.current k
  cases i with
  | semaDown s => exact moves_semaDownTest rest s
  | semaDownLoop s => exact moves_semaDownTest rest s
  | semaTryDown s =>
    simp only [exec]
    split
    · refine (h₀.keep ?_).setCode ?_ _ <;> rfl
    · exact h₀.setCode rfl _
  | semaUp s => exact (h₀.semaUp s).setCode (by simp) _
  | semaUpCheck p => exact h₀.setCode rfl _
  | lockDonate l => exact moves_lockDonate rest l
  | donateLoop p r => exact moves_donateLoop rest p r
  | lockSetHolder l => refine (h₀.keep ?_).setCode ?_ _ <;> rfl
  | lockClearDonatingTo l => exact (h₀.modifyThread_self _).setCode rfl _
  | lockTryAcquire l =>
    simp only [exec]
    split
    · refine (h₀.keep ?_).setCode ?_ _ <;> rfl
    · exact h₀.setCode rfl _
  | lockTrySetHolder l => refine (h₀.keep ?_).setCode ?_ _ <;> rfl
  | lockClearHolder l => refine (h₀.keep ?_).setCode ?_ _ <;> rfl
  | lockRevoke l =>
    simp only [exec]
    split
    · refine h₀.keep ?_
      rfl
    · exact (h₀.modifyThread_self _).setCode rfl _
  | condWait c l => exact moves_condWait rest c l
  | condSignal c => exact moves_condSignal rest c
  | condBroadcast c => exact h₀.setCode rfl _
  | yield => refine (h₀.setCode ?_ _).threadYield ?_ <;> rfl
  | setPriority p => exact moves_setPriority rest p
  | updateDonations donor donee => exact moves_updateDonations rest donor donee
  | createAlloc p => exact moves_createAlloc rest hd hc p
  | allocTid c => refine ((h₀.keep ?_).modifyThread_keeps ?_ ?_).setCode ?_ _ <;> rfl
  | createStart c => exact (h₀.setCode rfl _).threadUnblock _
  | exit => exact moves_threadExit rest
  | timerSleep n => exact moves_timerSleep rest n
  | idleBlock => exact h₀.threadBlock rfl

end Blocks

end Kernel

/-- **Every step moves only the running thread's continuation.** -/
theorem Step.moves {k k' : Kernel} {e : Event} (hc : k.Core) (h : Step k e k') :
    Kernel.Moves k.current k k' := by
  have hf := hc.fresh k.nextThread le_rfl
  have h₀ := Kernel.Moves.refl k.current k
  cases h with
  | call c => exact h₀.setCode rfl _
  | exec _ _ => exact Kernel.moves_exec _ hf.1 hf.2 _
  | createFail _ _ => exact h₀.setCode rfl _
  | timer _ _ => exact Kernel.moves_timerInterrupt
  | irqSemaUp n _ _ => exact Kernel.moves_irqSemaUp n

end Pintos

namespace Pintos

namespace Kernel

/-- The blocks that executing `i` may put in front of the rest of the running thread's
continuation: a loop puts itself back, a call its callee's blocks. -/
def Produces (k : Kernel) : Instr → List Instr → Prop
  | .semaDown s, X | .semaDownLoop s, X => X = [] ∨ X = [.semaDownLoop s]
  | .semaUp _, X => ∃ p, X = [.semaUpCheck p]
  | .semaUpCheck _, X => X = [] ∨ X = [.yield]
  | .lockDonate _, X | .donateLoop _ _, X => X = [] ∨ ∃ p r, X = [.donateLoop p r]
  | .lockTryAcquire l, X => X = [] ∨ X = [.lockTrySetHolder l]
  | .lockRevoke l, X => X = [] ∨ X = [.yield] ∨ X = [.lockRevoke l]
  | .condWait _ l, X =>
    X = releaseCode k.policy l ++ [.semaDown (.waiter k.nextWaiter)] ++ acquireCode k.policy l
  | .condSignal c, X => X = [] ∨ ∃ e ∈ k.conds c, X = [.semaUp (.waiter e.sema)]
  | .condBroadcast c, X => X = [] ∨ X = [.condSignal c, .condBroadcast c]
  | .setPriority _, X => X = [.yield] ∨ ∃ a b, X = [.updateDonations a b, .yield]
  | .updateDonations _ _, X => X = [] ∨ ∃ a b, X = [.updateDonations a b]
  | .createAlloc _, X =>
    X = acquireCode k.policy tidLock ++ [.allocTid k.nextThread] ++ releaseCode k.policy tidLock ++
      [.createStart k.nextThread, .yield]
  | .idleBlock, X => X = [.idleBlock]
  | _, X => X = []

variable {k : Kernel}

/-- **What a block leaves of the running thread's continuation**: the blocks it produces,
then the rest. -/
theorem exec_code_current {i : Instr} {rest : List Instr} (hc : k.code = i :: rest) :
    ∃ X, k.Produces i X ∧ ((k.exec i rest).1.threads k.current).code = X ++ rest := by
  have hcur : (k.threads k.current).code = i :: rest := hc
  cases i with
  | semaDown s | semaDownLoop s =>
    simp only [exec, semaDownTest]
    split
    · exact ⟨[.semaDownLoop s], .inr rfl, by simp [setCode_threads_code]⟩
    · exact ⟨[], .inl rfl, by simp [setCode_threads_code]⟩
  | semaTryDown s =>
    simp only [exec]
    split <;> exact ⟨[], rfl, by simp [setCode_threads_code]⟩
  | semaUp s => exact ⟨[.semaUpCheck (k.semaUp s).2], ⟨_, rfl⟩, by simp [exec, setCode_threads_code]⟩
  | semaUpCheck p =>
    simp only [exec]
    split
    · exact ⟨[.yield], .inr rfl, by simp [setCode_threads_code]⟩
    · exact ⟨[], .inl rfl, by simp [setCode_threads_code]⟩
  | lockDonate l =>
    simp only [exec, lockDonate]
    split
    · split
      · rename_i h _ _
        exact ⟨[.donateLoop (k.threadGetPriorityOf k.current) h], .inr ⟨_, _, rfl⟩,
          by simp [setCode_threads_code]⟩
      · exact ⟨[], .inl rfl, by simp [setCode_threads_code]⟩
    · exact ⟨[], .inl rfl, by simp [setCode_threads_code]⟩
  | donateLoop p r =>
    simp only [exec, donateLoop]
    split
    · exact ⟨[], .inl rfl, by simp [setCode_threads_code]⟩
    · rename_i n _
      exact ⟨[.donateLoop p n], .inr ⟨_, _, rfl⟩, by simp [setCode_threads_code]⟩
  | lockTryAcquire l =>
    simp only [exec]
    split
    · exact ⟨[.lockTrySetHolder l], .inr rfl, by simp [setCode_threads_code]⟩
    · exact ⟨[], .inl rfl, by simp [setCode_threads_code]⟩
  | lockRevoke l =>
    simp only [exec]
    split
    · exact ⟨[.lockRevoke l], .inr (.inr rfl), hcur⟩
    · split
      · exact ⟨[], .inl rfl, by simp [setCode_threads_code, revokeDonationsForLock]⟩
      · exact ⟨[.yield], .inr (.inl rfl), by simp [setCode_threads_code, revokeDonationsForLock]⟩
  | condWait c l => exact ⟨_, rfl, by simp [exec, condWait, setCode_threads_code]⟩
  | condSignal c =>
    simp only [exec, condSignal]
    split
    · exact ⟨[], .inl rfl, by simp [setCode_threads_code]⟩
    · rename_i e es _ hcs
      exact ⟨[.semaUp (.waiter ((e :: es).getLast (List.cons_ne_nil e es)).sema)],
        .inr ⟨_, by rw [hcs]; exact List.getLast_mem _, rfl⟩, by simp [setCode_threads_code]⟩
    · rename_i e es _ hcs
      exact ⟨[.semaUp (.waiter e.sema)], .inr ⟨e, by rw [hcs]; exact List.mem_cons_self, rfl⟩,
        by simp [setCode_threads_code]⟩
  | condBroadcast c =>
    simp only [exec]
    split
    · exact ⟨[], .inl rfl, by simp [setCode_threads_code]⟩
    · exact ⟨[.condSignal c, .condBroadcast c], .inr rfl, by simp [setCode_threads_code]⟩
  | yield => exact ⟨[], rfl, by simp [exec, setCode_threads_code]⟩
  | setPriority p =>
    simp only [exec, setPriority]
    split
    · split
      · exact ⟨[.yield], .inl rfl, by simp [setCode_threads_code]⟩
      · rename_i d _
        exact ⟨[.updateDonations k.current d, .yield], .inr ⟨_, _, rfl⟩,
          by simp [setCode_threads_code]⟩
    · exact ⟨[.yield], .inl rfl, by simp [setCode_threads_code]⟩
  | updateDonations donor donee =>
    simp only [exec, updateDonations]
    split
    · split
      · exact ⟨[], .inl rfl, by simp [setCode_threads_code]⟩
      · rename_i n _
        exact ⟨[.updateDonations donee n], .inr ⟨_, _, rfl⟩, by simp [setCode_threads_code]⟩
    · exact ⟨[], .inl rfl, by simp [setCode_threads_code]⟩
  | createAlloc p =>
    exact ⟨_, rfl, by simp [exec, createAlloc, setCode_threads_code, setThread]⟩
  | exit =>
    refine ⟨[], rfl, ?_⟩
    simp only [exec, threadExit]
    split
    · simp [setCode_threads_code]
    · split <;> simp [setCode_threads_code]
  | timerSleep n =>
    refine ⟨[], rfl, ?_⟩
    simp only [exec, timerSleep]
    split <;> simp [setCode_threads_code]
  | idleBlock => exact ⟨[.idleBlock], rfl, by simp [exec, hcur]⟩
  | lockSetHolder l | lockClearDonatingTo l | lockTrySetHolder l | lockClearHolder l
  | allocTid l | createStart l => exact ⟨[], rfl, by simp [exec, setCode_threads_code]⟩

end Kernel

end Pintos
