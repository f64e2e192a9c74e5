import Pintos.Threads.Machine

/-!
# Where every thread is: the scheduler invariant

`Kernel.Wf` places every thread of the machine:

* only the running thread has status `running` (and, unless the kernel panicked, it has);
* `fifo_ready_list` holds distinct threads of status `ready`;
* the waiters of every semaphore are distinct blocked threads whose next block is the re-test
  of `sema_down`'s loop, and no thread has that re-test anywhere but at the head of its
  continuation;
* `sleep_list` holds distinct blocked threads other than the idle thread, none of them in
  `sema_down` nor a child not yet started;
* a child named by the `thread_unblock` still pending in `thread_create` is blocked and has not
  run, and that `thread_unblock` is pending in one place only;
* the idle thread runs its loop, and pages from `nextThread` on are unused.

Each operation of `thread.c` keeps its part (`Core.schedule`, `Wf.threadUnblock`,
`Wf.setCode`, …); `Wf.step` assembles them for every step and `KRun.wf` for every run.
-/

set_option autoImplicit false

namespace Pintos

/-- The re-test of `value` in `sema_down`'s loop. -/
def Instr.isRetest : Instr → Bool
  | .semaDownLoop _ => true
  | _ => false

/-- Blocks that kernel operations put into a continuation freely: neither the re-test, which
only `sema_down` places at the head, nor the start of a child, which only `thread_create`
places. -/
def Instr.isPlain : Instr → Bool
  | .semaDownLoop _ => false
  | .createStart _ => false
  | _ => true

section
-- the equation lemmas, generated once here rather than by each proof below that unfolds
-- these definitions
attribute [local simp] Instr.isRetest Instr.isPlain
end

theorem acquireCode_plain (p : SchedPolicy) (l : Nat) : ∀ x ∈ acquireCode p l, x.isPlain = true := by
  cases p <;> simp [acquireCode, Instr.isPlain]

theorem releaseCode_plain (p : SchedPolicy) (l : Nat) : ∀ x ∈ releaseCode p l, x.isPlain = true := by
  cases p <;> simp [releaseCode, Instr.isPlain]

theorem Call.code_plain (p : SchedPolicy) (c : Call) : ∀ x ∈ c.code p, x.isPlain = true := by
  cases c <;> simp only [Call.code] <;>
    first
    | exact acquireCode_plain p _
    | exact releaseCode_plain p _
    | simp [Instr.isPlain]

namespace Kernel

/-- The invariant without the two facts that `schedule` re-establishes: that the running
thread runs, and where the sleepers are. -/
structure Core (k : Kernel) : Prop where
  runningOnly : ∀ t, (k.threads t).status = .running → t = k.current
  ready : ∀ t ∈ k.readyList, (k.threads t).status = .ready
  readyNodup : k.readyList.Nodup
  waiting : ∀ s, ∀ t ∈ (k.semas s).waiters,
    (k.threads t).status = .blocked ∧ (k.threads t).code.head? = some (.semaDownLoop s)
  waitersNodup : ∀ s, (k.semas s).waiters.Nodup
  retestHead : ∀ t, ∀ i ∈ (k.threads t).code.tail, i.isRetest = false
  idleCode : (k.threads k.idle).code = [.idleBlock]
  fresh : ∀ t, k.nextThread ≤ t → (k.threads t).status = .dying ∧ (k.threads t).code = []
  child : ∀ t c, .createStart c ∈ (k.threads t).code →
    (k.threads c).status = .blocked ∧ (k.threads c).code = []
  childUnique : ∀ t t' c, .createStart c ∈ (k.threads t).code →
    .createStart c ∈ (k.threads t').code → t = t'
  childOnce : ∀ t c, (k.threads t).code.count (.createStart c) ≤ 1

/-- The threads of `l` may sit on `sleep_list`. -/
structure Sleepers (k : Kernel) (l : List Nat) : Prop where
  nodup : l.Nodup
  blocked : ∀ t ∈ l, (k.threads t).status = .blocked
  notIdle : ∀ t ∈ l, t ≠ k.idle
  noRetest : ∀ t ∈ l, ∀ s, (k.threads t).code.head? ≠ some (.semaDownLoop s)
  notChild : ∀ t ∈ l, ∀ u, .createStart t ∉ (k.threads u).code

/-- **The scheduler invariant.** -/
structure Wf (k : Kernel) : Prop where
  core : k.Core
  running : k.panicked = false → (k.threads k.current).status = .running
  sleepers : k.Sleepers k.sleepList

/-! ## Consequences -/

section Facts

variable {k : Kernel}

theorem Core.idle_lt (h : k.Core) : k.idle < k.nextThread := by
  by_contra hle
  have := (h.fresh k.idle (by omega)).2
  rw [h.idleCode] at this
  cases this

theorem Core.lt_of_status (h : k.Core) {t : Nat} (hs : (k.threads t).status ≠ .dying) :
    t < k.nextThread := by
  by_contra hle
  exact hs (h.fresh t (by omega)).1

/-- A thread whose continuation starts with anything but the idle loop is not the idle
thread. -/
theorem Core.ne_idle (h : k.Core) {t : Nat} {i : Instr} {rest : List Instr}
    (hc : (k.threads t).code = i :: rest) (hi : i ≠ .idleBlock) : t ≠ k.idle := by
  rintro rfl
  rw [h.idleCode] at hc
  cases hc
  exact hi rfl

theorem Core.not_mem_waiters_of_head (h : k.Core) {t : Nat}
    (hh : ∀ s, (k.threads t).code.head? ≠ some (.semaDownLoop s)) (s : SemaRef) :
    t ∉ (k.semas s).waiters :=
  fun hw => hh s (h.waiting s t hw).2

theorem Core.not_mem_readyList (h : k.Core) {t : Nat} (hs : (k.threads t).status ≠ .ready) :
    t ∉ k.readyList :=
  fun hr => hs (h.ready t hr)

theorem Wf.current_running (h : k.Wf) (hp : k.panicked = false) :
    (k.threads k.current).status = .running :=
  h.running hp

theorem Wf.current_not_mem_waiters (h : k.Wf) (hp : k.panicked = false) (s : SemaRef) :
    k.current ∉ (k.semas s).waiters := by
  intro hw
  have := (h.core.waiting s _ hw).1
  rw [h.running hp] at this
  cases this

theorem Wf.current_not_mem_sleepList (h : k.Wf) (hp : k.panicked = false) :
    k.current ∉ k.sleepList := by
  intro hw
  have := h.sleepers.blocked _ hw
  rw [h.running hp] at this
  cases this

theorem Wf.current_not_mem_readyList (h : k.Wf) (hp : k.panicked = false) :
    k.current ∉ k.readyList :=
  h.core.not_mem_readyList (by rw [h.running hp]; simp)

/-- A child still to be started is not the running thread. -/
theorem Wf.current_not_child (h : k.Wf) (hp : k.panicked = false) (u : Nat) :
    .createStart k.current ∉ (k.threads u).code := by
  intro hc
  have := (h.core.child u _ hc).1
  rw [h.running hp] at this
  cases this

end Facts

/-! ## Boot -/

theorem boot_wf (policy : SchedPolicy) (semaInit : Nat → UInt32) :
    (Kernel.boot policy semaInit).Wf where
  core :=
    { runningOnly := by
        intro t ht
        simp only [boot] at ht ⊢
        split_ifs at ht with h0 h1 <;> simp_all [Thread.unused]
      ready := by simp [boot]
      readyNodup := by simp [boot]
      waiting := by intro s t ht; cases s <;> simp [boot] at ht
      waitersNodup := by intro s; cases s <;> simp [boot]
      retestHead := by
        intro t i hi
        simp only [boot] at hi
        split_ifs at hi <;> simp [Thread.unused] at hi
      idleCode := by simp [boot]
      fresh := by
        intro t ht
        simp only [boot] at ht ⊢
        rw [if_neg (by omega), if_neg (by omega)]
        exact ⟨rfl, rfl⟩
      child := by
        intro t c hc
        simp only [boot] at hc
        split_ifs at hc <;> simp [Thread.unused] at hc
      childUnique := by
        intro t t' c hc
        simp only [boot] at hc
        split_ifs at hc <;> simp [Thread.unused] at hc
      childOnce := by
        intro t c
        simp only [boot]
        split_ifs <;> simp [Thread.unused] }
  running := by intro _; simp [boot]
  sleepers := ⟨by simp [boot], by simp [boot], by simp [boot], by simp [boot], by simp [boot]⟩

/-! ## Operations that move no thread -/

/-- `k'` agrees with `k` on everything the invariant reads. -/
structure SameShape (k k' : Kernel) : Prop where
  current : k'.current = k.current
  idle : k'.idle = k.idle
  readyList : k'.readyList = k.readyList
  sleepList : k'.sleepList = k.sleepList
  nextThread : k'.nextThread = k.nextThread
  waiters : ∀ s, (k'.semas s).waiters = (k.semas s).waiters
  status : ∀ t, (k'.threads t).status = (k.threads t).status
  code : ∀ t, (k'.threads t).code = (k.threads t).code

section Shape

variable {k k' : Kernel}

theorem Core.of_sameShape (h : k.Core) (hs : SameShape k k') : k'.Core where
  runningOnly t ht := by
    rw [hs.status] at ht
    rw [hs.current]
    exact h.runningOnly t ht
  ready t ht := by
    rw [hs.readyList] at ht
    rw [hs.status]
    exact h.ready t ht
  readyNodup := by rw [hs.readyList]; exact h.readyNodup
  waiting s t ht := by
    rw [hs.waiters] at ht
    rw [hs.status, hs.code]
    exact h.waiting s t ht
  waitersNodup s := by rw [hs.waiters]; exact h.waitersNodup s
  retestHead t := by rw [hs.code]; exact h.retestHead t
  idleCode := by rw [hs.idle, hs.code]; exact h.idleCode
  fresh t ht := by
    rw [hs.nextThread] at ht
    rw [hs.status, hs.code]
    exact h.fresh t ht
  child t c hc := by
    rw [hs.code] at hc
    rw [hs.status, hs.code]
    exact h.child t c hc
  childUnique t t' c := by
    rw [hs.code, hs.code]
    exact h.childUnique t t' c
  childOnce t c := by rw [hs.code]; exact h.childOnce t c

theorem Sleepers.of_sameShape {l : List Nat} (h : k.Sleepers l) (hs : SameShape k k') :
    k'.Sleepers l where
  nodup := h.nodup
  blocked t ht := by rw [hs.status]; exact h.blocked t ht
  notIdle t ht := by rw [hs.idle]; exact h.notIdle t ht
  noRetest t ht := by rw [hs.code]; exact h.noRetest t ht
  notChild t ht u := by rw [hs.code]; exact h.notChild t ht u

/-- Where sleepers may be depends on the threads and the idle thread only. -/
theorem Sleepers.of_threads {l : List Nat} (h : k.Sleepers l) (ht : k'.threads = k.threads)
    (hi : k'.idle = k.idle) : k'.Sleepers l where
  nodup := h.nodup
  blocked u hu := by rw [ht]; exact h.blocked u hu
  notIdle u hu := by rw [hi]; exact h.notIdle u hu
  noRetest u hu := by rw [ht]; exact h.noRetest u hu
  notChild u hu := by rw [ht]; exact h.notChild u hu

/-- The frame rule: an operation that moves no thread keeps the invariant. -/
theorem Wf.of_sameShape (h : k.Wf) (hs : SameShape k k')
    (hp : k'.panicked = false → k.panicked = false) : k'.Wf where
  core := h.core.of_sameShape hs
  running hp' := by rw [hs.current, hs.status]; exact h.running (hp hp')
  sleepers := by rw [hs.sleepList]; exact h.sleepers.of_sameShape hs

end Shape

theorem sameShape_modifyThread {k : Kernel} {u : Nat} {f : Thread → Thread}
    (hs : (f (k.threads u)).status = (k.threads u).status)
    (hc : (f (k.threads u)).code = (k.threads u).code) : SameShape k (k.modifyThread u f) := by
  refine ⟨rfl, rfl, rfl, rfl, rfl, fun _ => rfl, fun t => ?_, fun t => ?_⟩ <;>
  · rw [modifyThread_threads]
    split <;> simp_all

theorem sameShape_modifySema {k : Kernel} {s : SemaRef} {f : Sema → Sema}
    (hw : (f (k.semas s)).waiters = (k.semas s).waiters) : SameShape k (k.modifySema s f) := by
  refine ⟨rfl, rfl, rfl, rfl, rfl, fun s' => ?_, fun _ => rfl, fun _ => rfl⟩
  rw [modifySema_semas]
  split <;> simp_all

theorem SameShape.trans {k k' k'' : Kernel} (h₁ : SameShape k k') (h₂ : SameShape k' k'') :
    SameShape k k'' :=
  ⟨h₂.current.trans h₁.current, h₂.idle.trans h₁.idle, h₂.readyList.trans h₁.readyList,
    h₂.sleepList.trans h₁.sleepList, h₂.nextThread.trans h₁.nextThread,
    fun s => (h₂.waiters s).trans (h₁.waiters s), fun t => (h₂.status t).trans (h₁.status t),
    fun t => (h₂.code t).trans (h₁.code t)⟩

section Record

variable (k : Kernel)

theorem sameShape_holder (f : Nat → Option Nat) : SameShape k { k with holder := f } :=
  ⟨rfl, rfl, rfl, rfl, rfl, fun _ => rfl, fun _ => rfl, fun _ => rfl⟩

theorem sameShape_conds (f : Nat → List SemaElem) : SameShape k { k with conds := f } :=
  ⟨rfl, rfl, rfl, rfl, rfl, fun _ => rfl, fun _ => rfl, fun _ => rfl⟩

theorem sameShape_nextTid (n : Nat) : SameShape k { k with nextTid := n } :=
  ⟨rfl, rfl, rfl, rfl, rfl, fun _ => rfl, fun _ => rfl, fun _ => rfl⟩

theorem sameShape_panicked (b : Bool) : SameShape k { k with panicked := b } :=
  ⟨rfl, rfl, rfl, rfl, rfl, fun _ => rfl, fun _ => rfl, fun _ => rfl⟩

end Record

/-! ## `setCode` and `modifySema` -/

section Ops

variable {k : Kernel}

/-- `x` may become a child to start: a blocked thread that has not run, named by no pending
start and not asleep (the page `thread_create` has just set up). -/
def NewChild (k : Kernel) (x : Nat) : Prop :=
  (k.threads x).status = .blocked ∧ (k.threads x).code = [] ∧
    (∀ u, .createStart x ∉ (k.threads u).code) ∧ x ∉ k.sleepList

/-- The starts named in the running thread's new continuation: at most as often as before, or
once for a new child. -/
def StartsFrom (k : Kernel) (c : List Instr) : Prop :=
  ∀ x, c.count (.createStart x) ≤ k.code.count (.createStart x) ∨
    (k.NewChild x ∧ c.count (.createStart x) ≤ 1)

/-- A child to start named in the new continuation was named in the old one, or is new. -/
theorem mem_setCode_of_startsFrom {c : List Instr} (hc : k.StartsFrom c) {u x : Nat}
    (hx : .createStart x ∈ ((k.setCode c).threads u).code) :
    .createStart x ∈ (k.threads u).code ∨ (u = k.current ∧ k.NewChild x) := by
  rw [setCode_threads_code] at hx
  split at hx
  · rename_i hu
    subst hu
    have hpos := List.count_pos_iff.mpr hx
    rcases hc x with hle | ⟨hnew, -⟩
    · exact Or.inl (List.count_pos_iff.mp (by unfold code at hle; omega))
    · exact Or.inr ⟨rfl, hnew⟩
  · exact Or.inl hx

/-- The running thread takes a new continuation with the re-test at most at its head, naming
no child to start but its own and new ones. -/
theorem Wf.setCode (h : k.Wf) (hp : k.panicked = false) (hidle : k.current ≠ k.idle)
    {c : List Instr} (htail : ∀ i ∈ c.tail, i.isRetest = false) (hcount : k.StartsFrom c) :
    (k.setCode c).Wf := by
  have hrun := h.running hp
  -- every thread the invariant constrains besides the running one keeps its continuation
  have hother : ∀ u, u ≠ k.current → ((k.setCode c).threads u).code = (k.threads u).code := by
    intro u hu
    rw [setCode_threads_code, if_neg hu]
  have hchild : ∀ u x, .createStart x ∈ ((k.setCode c).threads u).code →
      .createStart x ∈ (k.threads u).code ∨ (u = k.current ∧ k.NewChild x) :=
    fun u x hx => mem_setCode_of_startsFrom hcount hx
  have hchildNe : ∀ u x, .createStart x ∈ ((k.setCode c).threads u).code → x ≠ k.current := by
    rintro u x hx rfl
    rcases hchild u _ hx with hx' | ⟨-, hb, -⟩
    · exact h.current_not_child hp u hx'
    · rw [hrun] at hb; cases hb
  refine ⟨⟨?_, ?_, h.core.readyNodup, ?_, h.core.waitersNodup, ?_, ?_, ?_, ?_, ?_, ?_⟩, ?_, ?_⟩
  · intro t ht
    rw [setCode_status] at ht
    exact h.core.runningOnly t ht
  · intro t ht
    rw [setCode_status]
    exact h.core.ready t ht
  · intro s t ht
    have hne : t ≠ k.current := fun he => h.current_not_mem_waiters hp s (he ▸ ht)
    rw [setCode_status, hother t hne]
    exact h.core.waiting s t ht
  · intro t i hi
    rw [setCode_threads_code] at hi
    split at hi
    · exact htail i hi
    · exact h.core.retestHead t i hi
  · simp only [setCode_idle]
    rw [hother _ (Ne.symm hidle)]
    exact h.core.idleCode
  · intro t ht
    have hne : t ≠ k.current := by
      rintro rfl
      have := (h.core.fresh _ ht).1
      rw [hrun] at this
      cases this
    rw [setCode_status, hother t hne]
    exact h.core.fresh t ht
  · intro t x hx
    rw [setCode_status, hother x (hchildNe t x hx)]
    rcases hchild t x hx with hx' | ⟨-, hb, hcode, -⟩
    · exact h.core.child t x hx'
    · exact ⟨hb, hcode⟩
  · intro t t' x hx hx'
    rcases hchild t x hx with hx₁ | ⟨rfl, -, -, hnone, -⟩ <;>
      rcases hchild t' x hx' with hx₂ | ⟨rfl, -, -, hnone', -⟩
    · exact h.core.childUnique t t' x hx₁ hx₂
    · exact absurd hx₁ (hnone' t)
    · exact absurd hx₂ (hnone t')
    · rfl
  · intro t x
    rw [setCode_threads_code]
    split
    · rename_i ht
      subst ht
      rcases hcount x with hle | ⟨-, hle⟩
      · exact hle.trans (h.core.childOnce _ x)
      · exact hle
    · exact h.core.childOnce t x
  · intro _
    rw [setCode_current, setCode_status]
    exact hrun
  · refine ⟨h.sleepers.nodup, ?_, h.sleepers.notIdle, ?_, ?_⟩
    · intro t ht
      rw [setCode_status]
      exact h.sleepers.blocked t ht
    · intro t ht s
      have hne : t ≠ k.current := fun he => h.current_not_mem_sleepList hp (he ▸ ht)
      rw [hother t hne]
      exact h.sleepers.noRetest t ht s
    · intro t ht u hu
      rcases hchild u t hu with hu' | ⟨-, -, -, -, hns⟩
      · exact h.sleepers.notChild t ht u hu'
      · exact hns ht

/-- The continuation names only the starts it named before. -/
theorem startsFrom_of_le {c : List Instr}
    (h : ∀ x, c.count (.createStart x) ≤ k.code.count (.createStart x)) : k.StartsFrom c :=
  fun x => Or.inl (h x)

/-- The usual shape: the executed block is replaced by blocks `X` that are neither the
re-test nor a child's start. -/
theorem Wf.setCode_append (h : k.Wf) (hp : k.panicked = false) {i : Instr}
    {rest X : List Instr} (hc : k.code = i :: rest) (hi : i ≠ .idleBlock)
    (hX : ∀ x ∈ X, x.isPlain = true) : (k.setCode (X ++ rest)).Wf := by
  have hX' : ∀ x ∈ X, x.isRetest = false ∧ ∀ c, x ≠ .createStart c := by
    intro x hx
    have := hX x hx
    cases x <;> simp_all [Instr.isPlain, Instr.isRetest]
  have hrest : ∀ j ∈ rest, j.isRetest = false := by
    intro j hj
    have := h.core.retestHead k.current j
    unfold code at hc
    rw [hc] at this
    exact this hj
  apply h.setCode hp (h.core.ne_idle hc hi)
  · intro j hj
    rcases List.mem_append.mp (List.mem_of_mem_tail hj) with hj | hj
    · exact (hX' j hj).1
    · exact hrest j hj
  · refine startsFrom_of_le fun x => ?_
    have hX0 : X.count (.createStart x) = 0 :=
      List.count_eq_zero.mpr fun hx => (hX' _ hx).2 x rfl
    rw [List.count_append, hX0, hc, List.count_cons]
    omega

/-- Removing waiters from a semaphore keeps the invariant. -/
theorem Wf.modifySema (h : k.Wf) {s : SemaRef} {f : Sema → Sema}
    (hf : (f (k.semas s)).waiters.Sublist (k.semas s).waiters) : (k.modifySema s f).Wf := by
  have hsub : ∀ s', ((k.modifySema s f).semas s').waiters.Sublist (k.semas s').waiters := by
    intro s'
    rw [modifySema_semas]
    split
    · subst s'; exact hf
    · exact List.Sublist.refl _
  refine ⟨⟨h.core.runningOnly, h.core.ready, h.core.readyNodup, ?_, ?_, h.core.retestHead,
    h.core.idleCode, h.core.fresh, h.core.child, h.core.childUnique, h.core.childOnce⟩,
    h.running, ⟨h.sleepers.nodup, h.sleepers.blocked, h.sleepers.notIdle, h.sleepers.noRetest,
    h.sleepers.notChild⟩⟩
  · intro s' t ht
    exact h.core.waiting s' t ((hsub s').subset ht)
  · intro s'
    exact (h.core.waitersNodup s').sublist (hsub s')

end Ops

/-! ## `thread_unblock` and `schedule` -/

section Move

variable {k : Kernel}

/-- `thread_unblock` of a blocked thread that waits on no semaphore and is no child still to be
started. -/
theorem Core.threadUnblock (h : k.Core) {t : Nat} (hb : (k.threads t).status = .blocked)
    (hw : ∀ s, t ∉ (k.semas s).waiters) (hc : ∀ u, .createStart t ∉ (k.threads u).code) :
    (k.threadUnblock t).Core := by
  have hnr : t ∉ k.readyList := h.not_mem_readyList (by rw [hb]; simp)
  have hlt : t < k.nextThread := h.lt_of_status (by rw [hb]; simp)
  refine ⟨?_, ?_, ?_, ?_, h.waitersNodup, ?_, ?_, ?_, ?_, ?_, ?_⟩
  · intro u hu
    rw [threadUnblock_status] at hu
    split at hu
    · cases hu
    · exact h.runningOnly u hu
  · intro u hu
    rw [threadUnblock_status]
    split
    · rfl
    · rcases List.mem_append.mp hu with hu | hu
      · exact h.ready u hu
      · simp_all
  · refine List.nodup_append.mpr ⟨h.readyNodup, List.nodup_singleton t, ?_⟩
    intro a ha b hb
    rw [List.mem_singleton.mp hb]
    rintro rfl
    exact hnr ha
  · intro s u hu
    have hne : u ≠ t := fun he => hw s (he ▸ hu)
    rw [threadUnblock_status, if_neg hne, threadUnblock_code]
    exact h.waiting s u hu
  · intro u
    rw [threadUnblock_code]
    exact h.retestHead u
  · rw [threadUnblock_code]
    exact h.idleCode
  · intro u hu
    rw [threadUnblock_nextThread] at hu
    have hne : u ≠ t := by omega
    rw [threadUnblock_status, if_neg hne, threadUnblock_code]
    exact h.fresh u hu
  · intro u c hcu
    rw [threadUnblock_code] at hcu
    have hne : c ≠ t := by rintro rfl; exact hc u hcu
    rw [threadUnblock_status, if_neg hne, threadUnblock_code]
    exact h.child u c hcu
  · intro u u' c
    rw [threadUnblock_code, threadUnblock_code]
    exact h.childUnique u u' c
  · intro u c
    rw [threadUnblock_code]
    exact h.childOnce u c

theorem Sleepers.threadUnblock {l : List Nat} (h : k.Sleepers l) {t : Nat} (ht : t ∉ l) :
    (k.threadUnblock t).Sleepers l where
  nodup := h.nodup
  blocked u hu := by
    have hne : u ≠ t := fun he => ht (he ▸ hu)
    rw [threadUnblock_status, if_neg hne]
    exact h.blocked u hu
  notIdle u hu := h.notIdle u hu
  noRetest u hu s := by rw [threadUnblock_code]; exact h.noRetest u hu s
  notChild u hu v := by rw [threadUnblock_code]; exact h.notChild u hu v

theorem Wf.threadUnblock (h : k.Wf) {t : Nat} (hb : (k.threads t).status = .blocked)
    (hw : ∀ s, t ∉ (k.semas s).waiters) (hc : ∀ u, .createStart t ∉ (k.threads u).code)
    (hs : t ∉ k.sleepList) : (k.threadUnblock t).Wf where
  core := h.core.threadUnblock hb hw hc
  running hp := by
    have hne : k.current ≠ t := by
      rintro rfl
      rw [h.running hp] at hb
      cases hb
    rw [threadUnblock_current, threadUnblock_status, if_neg hne]
    exact h.running hp
  sleepers := h.sleepers.threadUnblock hs

/-- `schedule`, once the running thread has left status `running`: the chosen thread runs. -/
theorem Core.schedule (h : k.Core) (hcur : (k.threads k.current).status ≠ .running) :
    k.schedule.Core ∧ (k.schedule.threads k.schedule.current).status = .running := by
  -- the chosen thread is either a member of the ready list or the idle thread
  have hnext : k.nextThreadToRun.1 = k.idle ∨ (k.threads k.nextThreadToRun.1).status = .ready := by
    rcases nextThreadToRun_cases (k := k) with ⟨-, he⟩ | ⟨hm, -⟩
    · rw [he]; exact Or.inl rfl
    · exact Or.inr (h.ready _ hm)
  have hblocked : ∀ u, (k.threads u).status = .blocked → (k.threads u).code ≠ [.idleBlock] →
      u ≠ k.nextThreadToRun.1 := by
    rintro u hu hcode rfl
    rcases hnext with he | he
    · rw [he, h.idleCode] at hcode; exact hcode rfl
    · rw [hu] at he; cases he
  have hrl : ∀ u ∈ k.nextThreadToRun.2, u ∈ k.readyList ∧ u ≠ k.nextThreadToRun.1 := by
    intro u hu
    rcases nextThreadToRun_cases (k := k) with ⟨-, he⟩ | ⟨-, he⟩
    · rw [he] at hu; cases hu
    · rw [he] at hu
      exact (h.readyNodup.mem_erase_iff.mp hu).symm
  refine ⟨⟨?_, ?_, ?_, ?_, h.waitersNodup, ?_, ?_, ?_, ?_, ?_, ?_⟩, ?_⟩
  · intro u hu
    rw [schedule_status] at hu
    split at hu
    · assumption
    · exact absurd (h.runningOnly u hu ▸ hu) hcur
  · intro u hu
    obtain ⟨hu, hne⟩ := hrl u hu
    rw [schedule_status, if_neg hne]
    exact h.ready u hu
  · rcases nextThreadToRun_cases (k := k) with ⟨-, he⟩ | ⟨-, he⟩
    · rw [schedule_readyList, he]; exact List.nodup_nil
    · rw [schedule_readyList, he]; exact h.readyNodup.erase _
  · intro s u hu
    obtain ⟨hb, hhead⟩ := h.waiting s u hu
    have hne : u ≠ k.nextThreadToRun.1 := by
      apply hblocked u hb
      intro hc
      rw [hc] at hhead
      cases hhead
    rw [schedule_status, if_neg hne, schedule_code]
    exact ⟨hb, hhead⟩
  · intro u
    rw [schedule_code]
    exact h.retestHead u
  · rw [schedule_idle, schedule_code]
    exact h.idleCode
  · intro u hu
    have hne : u ≠ k.nextThreadToRun.1 := by
      rintro rfl
      rcases hnext with he | he
      · have := h.idle_lt
        rw [schedule_nextThread] at hu
        omega
      · rw [(h.fresh _ hu).1] at he; cases he
    rw [schedule_status, if_neg hne, schedule_code]
    exact h.fresh u hu
  · intro u c hc
    rw [schedule_code] at hc
    obtain ⟨hb, hcode⟩ := h.child u c hc
    have hne : c ≠ k.nextThreadToRun.1 := hblocked c hb (by rw [hcode]; simp)
    rw [schedule_status, if_neg hne, schedule_code]
    exact ⟨hb, hcode⟩
  · intro u u' c
    rw [schedule_code, schedule_code]
    exact h.childUnique u u' c
  · intro u c
    rw [schedule_code]
    exact h.childOnce u c
  · rw [schedule_status, schedule_current, if_pos rfl]

theorem Sleepers.schedule (hc : k.Core) {l : List Nat} (h : k.Sleepers l) :
    k.schedule.Sleepers l where
  nodup := h.nodup
  blocked u hu := by
    rw [schedule_status]
    split
    · rename_i he
      rcases nextThreadToRun_cases (k := k) with ⟨-, hi⟩ | ⟨hm, -⟩
      · rw [hi] at he; exact absurd he (h.notIdle u hu)
      · have := hc.ready _ hm
        rw [← he, h.blocked u hu] at this
        cases this
    · exact h.blocked u hu
  notIdle u hu := h.notIdle u hu
  noRetest u hu s := by rw [schedule_code]; exact h.noRetest u hu s
  notChild u hu v := by rw [schedule_code]; exact h.notChild u hu v

end Move

/-! ## Blocking, yielding and exiting -/

section Block

variable {k : Kernel}

/-- The running thread leaves status `running`; it sits on no list, so every other thread
keeps its place. -/
theorem Wf.setStatus (h : k.Wf) (hp : k.panicked = false) (st : ThreadStatus)
    (hst : st ≠ .running) :
    (k.modifyThread k.current fun th => { th with status := st }).Core ∧
      (k.modifyThread k.current fun th => { th with status := st }).Sleepers k.sleepList := by
  have hcode : ∀ u, ((k.modifyThread k.current fun th => { th with status := st }).threads u).code =
      (k.threads u).code := by
    intro u
    by_cases hu : u = k.current
    · subst hu; simp
    · simp [hu]
  have hstat : ∀ u, u ≠ k.current →
      ((k.modifyThread k.current fun th => { th with status := st }).threads u).status =
        (k.threads u).status := by
    intro u hu
    simp [hu]
  have hrun := h.running hp
  have hne : ∀ u, (k.threads u).status ≠ .running → u ≠ k.current := by
    rintro u hu rfl
    exact hu hrun
  refine ⟨⟨?_, ?_, h.core.readyNodup, ?_, h.core.waitersNodup, ?_, ?_, ?_, ?_, ?_, ?_⟩, ?_⟩
  · intro u hu
    by_cases he : u = k.current
    · subst he; simp at hu; exact absurd hu hst
    · rw [hstat u he] at hu
      exact absurd (h.core.runningOnly u hu) he
  · intro u hu
    have hr := h.core.ready u hu
    rw [hstat u (hne u (by rw [hr]; simp))]
    exact hr
  · intro s u hu
    have hw := h.core.waiting s u hu
    rw [hstat u (hne u (by rw [hw.1]; simp)), hcode]
    exact hw
  · intro u
    rw [hcode]
    exact h.core.retestHead u
  · rw [modifyThread_idle, hcode]
    exact h.core.idleCode
  · intro u hu
    have hf := h.core.fresh u hu
    rw [hstat u (hne u (by rw [hf.1]; simp)), hcode]
    exact hf
  · intro u c hc
    rw [hcode] at hc
    have hch := h.core.child u c hc
    rw [hstat c (hne c (by rw [hch.1]; simp)), hcode]
    exact hch
  · intro u u' c
    rw [hcode, hcode]
    exact h.core.childUnique u u' c
  · intro u c
    rw [hcode]
    exact h.core.childOnce u c
  · refine ⟨h.sleepers.nodup, ?_, h.sleepers.notIdle, ?_, ?_⟩
    · intro u hu
      have hb := h.sleepers.blocked u hu
      rw [hstat u (hne u (by rw [hb]; simp))]
      exact hb
    · intro u hu s
      rw [hcode]
      exact h.sleepers.noRetest u hu s
    · intro u hu v
      rw [hcode]
      exact h.sleepers.notChild u hu v

/-- `schedule` from a state whose running thread has left status `running`. -/
theorem Wf.schedule_of (hc : k.Core) (hcur : (k.threads k.current).status ≠ .running)
    (hs : k.Sleepers k.sleepList) : k.schedule.Wf where
  core := (hc.schedule hcur).1
  running _ := (hc.schedule hcur).2
  sleepers := by rw [schedule_sleepList]; exact hs.schedule hc

/-- `thread_block` of a thread that is then on no list (the idle thread's loop). -/
theorem Wf.threadBlock (h : k.Wf) (hp : k.panicked = false) : k.threadBlock.Wf := by
  obtain ⟨hc, hs⟩ := h.setStatus hp .blocked (by simp)
  exact Wf.schedule_of hc (by simp) hs

/-- `thread_yield`: the running thread goes to the back of the ready list, unless it is the
idle thread. -/
theorem Wf.threadYield (h : k.Wf) (hp : k.panicked = false) : k.threadYield.Wf := by
  obtain ⟨hc, hs⟩ := h.setStatus hp .ready (by simp)
  have hnr : k.current ∉ k.readyList := h.current_not_mem_readyList hp
  unfold Kernel.threadYield
  apply Wf.schedule_of _ (by split <;> simp) (by split <;> exact hs.of_threads rfl rfl)
  split
  · -- enqueueing after the status change: the running thread is now a ready member
    refine ⟨?_, ?_, ?_, hc.waiting, hc.waitersNodup, hc.retestHead, hc.idleCode, hc.fresh,
      hc.child, hc.childUnique, hc.childOnce⟩
    · exact hc.runningOnly
    · intro u hu
      rcases List.mem_append.mp hu with hu | hu
      · exact hc.ready u hu
      · rw [List.mem_singleton.mp hu]; simp
    · refine List.nodup_append.mpr ⟨hc.readyNodup, List.nodup_singleton _, ?_⟩
      intro a ha b hb
      rw [List.mem_singleton.mp hb]
      rintro rfl
      exact hnr ha
  · exact hc

/-- Putting a blocked thread that waits on no semaphore at the back of `s`'s waiters, its
next block being the re-test. -/
theorem Core.pushWaiter (h : k.Core) {s : SemaRef} {t : Nat}
    (hb : (k.threads t).status = .blocked) (hhead : (k.threads t).code.head? = some (.semaDownLoop s))
    (hw : ∀ s', t ∉ (k.semas s').waiters) :
    (k.modifySema s fun sm => { sm with waiters := sm.waiters ++ [t] }).Core := by
  refine ⟨h.runningOnly, h.ready, h.readyNodup, ?_, ?_, h.retestHead, h.idleCode, h.fresh, h.child,
    h.childUnique, h.childOnce⟩
  · intro s' u hu
    rw [modifySema_semas] at hu
    split at hu
    · subst s'
      rcases List.mem_append.mp hu with hu | hu
      · exact h.waiting s u hu
      · rw [List.mem_singleton.mp hu]; exact ⟨hb, hhead⟩
    · exact h.waiting s' u hu
  · intro s'
    rw [modifySema_semas]
    split
    · subst s'
      refine List.nodup_append.mpr ⟨h.waitersNodup s, List.nodup_singleton _, ?_⟩
      intro a ha b hbm
      rw [List.mem_singleton.mp hbm]
      rintro rfl
      exact hw s ha
    · exact h.waitersNodup s'

/-- `sema_down` finds `value` zero: the running thread joins the waiters and blocks. -/
theorem Wf.semaBlock (h : k.Wf) (hp : k.panicked = false) {s : SemaRef} {i : Instr}
    {rest : List Instr} (hc : k.code = i :: rest) (hi : i ≠ .idleBlock) :
    (((k.modifySema s fun sm => { sm with waiters := sm.waiters ++ [k.current] }).setCode
      (.semaDownLoop s :: rest)).threadBlock).Wf := by
  have h₁ : (k.setCode (.semaDownLoop s :: rest)).Wf := by
    apply h.setCode hp (h.core.ne_idle hc hi)
    · intro j hj
      have := h.core.retestHead k.current j
      unfold code at hc
      rw [hc] at this
      exact this hj
    · refine startsFrom_of_le fun x => ?_
      rw [hc, List.count_cons, List.count_cons]
      simp
  obtain ⟨hc₂, hs₂⟩ := h₁.setStatus (by simpa using hp) .blocked (by simp)
  have hc₃ := hc₂.pushWaiter (s := s) (t := k.current) (by simp)
    (by simp [setCode_threads_code]) (fun s' => by simpa using h.current_not_mem_waiters hp s')
  exact Wf.schedule_of hc₃ (by simp) (hs₂.of_threads rfl rfl)

theorem Core.with_sleepList (h : k.Core) (l : List Nat) : ({ k with sleepList := l } : Kernel).Core :=
  ⟨h.runningOnly, h.ready, h.readyNodup, h.waiting, h.waitersNodup, h.retestHead, h.idleCode,
    h.fresh, h.child, h.childUnique, h.childOnce⟩

theorem Sleepers.tail {t : Nat} {l : List Nat} (h : k.Sleepers (t :: l)) : k.Sleepers l where
  nodup := h.nodup.of_cons
  blocked u hu := h.blocked u (List.mem_cons_of_mem t hu)
  notIdle u hu := h.notIdle u (List.mem_cons_of_mem t hu)
  noRetest u hu := h.noRetest u (List.mem_cons_of_mem t hu)
  notChild u hu := h.notChild u (List.mem_cons_of_mem t hu)

theorem Sleepers.cons {l : List Nat} (h : k.Sleepers l) {t : Nat} (ht : t ∉ l)
    (hb : (k.threads t).status = .blocked) (hi : t ≠ k.idle)
    (hr : ∀ s, (k.threads t).code.head? ≠ some (.semaDownLoop s))
    (hc : ∀ u, .createStart t ∉ (k.threads u).code) : k.Sleepers (t :: l) where
  nodup := List.nodup_cons.mpr ⟨ht, h.nodup⟩
  blocked u hu := by
    rcases List.mem_cons.mp hu with rfl | hu
    · exact hb
    · exact h.blocked u hu
  notIdle u hu := by
    rcases List.mem_cons.mp hu with rfl | hu
    · exact hi
    · exact h.notIdle u hu
  noRetest u hu := by
    rcases List.mem_cons.mp hu with rfl | hu
    · exact hr
    · exact h.noRetest u hu
  notChild u hu := by
    rcases List.mem_cons.mp hu with rfl | hu
    · exact hc
    · exact h.notChild u hu

theorem Sleepers.perm {l l' : List Nat} (h : k.Sleepers l) (hp : l'.Perm l) : k.Sleepers l' where
  nodup := hp.nodup_iff.mpr h.nodup
  blocked u hu := h.blocked u (hp.subset hu)
  notIdle u hu := h.notIdle u (hp.subset hu)
  noRetest u hu := h.noRetest u (hp.subset hu)
  notChild u hu := h.notChild u (hp.subset hu)

/-- The retest is never past the head, so the rest of a continuation does not start with
it. -/
theorem Core.rest_noRetest (h : k.Core) {t : Nat} {i : Instr} {rest : List Instr}
    (hc : (k.threads t).code = i :: rest) (s : SemaRef) : rest.head? ≠ some (.semaDownLoop s) := by
  intro hr
  have := h.retestHead t (.semaDownLoop s)
  rw [hc] at this
  cases rest with
  | nil => cases hr
  | cons j rest =>
    simp only [List.head?_cons, Option.some.injEq] at hr
    subst hr
    simp [Instr.isRetest] at this

/-- `timer_sleep`: the running thread joins `sleep_list` and blocks. -/
theorem Wf.timerSleep (h : k.Wf) (hp : k.panicked = false) {n : Int} {rest : List Instr}
    (hc : k.code = .timerSleep n :: rest) : (k.timerSleep n rest).Wf := by
  have hidle : k.current ≠ k.idle := h.core.ne_idle hc (by simp)
  unfold Kernel.timerSleep
  split
  · exact h.setCode_append hp (X := []) hc (by simp) (by simp)
  · have h₁ : (k.modifyThread k.current fun th => { th with wakeTime := int64Add k.ticks n }).Wf :=
      h.of_sameShape (sameShape_modifyThread rfl rfl) (by simp)
    have h₂ := h₁.setCode_append (by simpa using hp) (X := []) (i := .timerSleep n)
      (by simpa [code] using hc) (by simp) (by simp)
    obtain ⟨hc₃, hs₃⟩ := h₂.setStatus (by simpa using hp) .blocked (by simp)
    apply Wf.schedule_of (hc₃.with_sleepList _) (by simp)
    -- the running thread joins the sleepers, at the place `list_insert_ordered` chooses
    refine ((hs₃.cons (t := k.current) (h.current_not_mem_sleepList hp) (by simp) hidle ?_ ?_).perm
      (listInsertOrdered_perm _ _ _)).of_threads rfl rfl
    · intro s
      simpa [setCode_threads_code] using h.core.rest_noRetest hc s
    · intro u
      simpa using h₂.current_not_child (by simpa using hp) u

/-- `thread_exit`: the running thread dies, with its donations revoked under `SCHED_PRIO`;
the kernel either panics in `thread_revoke_made_donations` or schedules another thread. -/
theorem Wf.threadExit (h : k.Wf) (hp : k.panicked = false) {rest : List Instr}
    (hc : k.code = .exit :: rest) : (k.threadExit rest).Wf := by
  have h₁ := h.setCode_append hp (X := []) hc (by simp) (by simp)
  obtain ⟨hc₁, hs₁⟩ := h₁.setStatus (by simpa using hp) .dying (by simp)
  unfold Kernel.threadExit
  split
  · exact Wf.schedule_of hc₁ (by simp) hs₁
  · -- `SCHED_PRIO` first drops the donations received, which moves no thread
    have hsh := sameShape_modifyThread (k := (k.setCode rest).modifyThread k.current
      fun th => { th with status := .dying }) (u := k.current)
      (f := fun th => { th with donations := [] }) rfl rfl
    have hc₂ := hc₁.of_sameShape hsh
    have hs₂ := hs₁.of_sameShape hsh
    dsimp only
    split
    · refine ⟨hc₂.of_sameShape ⟨rfl, rfl, rfl, rfl, rfl, fun _ => rfl, fun _ => rfl, fun _ => rfl⟩,
        (fun hf => by cases hf), hs₂.of_threads rfl rfl⟩
    · exact Wf.schedule_of hc₂ (by simp) hs₂

end Block

/-! ## Creating and starting threads -/

section Create

variable {k : Kernel}

/-- `thread_create` sets up the page at `nextThread`: a blocked thread that has not run. -/
theorem Wf.addThread (h : k.Wf) (hp : k.panicked = false) (th : Thread)
    (hb : th.status = .blocked) (hcode : th.code = []) :
    (({ k with nextThread := k.nextThread + 1 } : Kernel).setThread k.nextThread th).Wf := by
  have hfresh := h.core.fresh k.nextThread le_rfl
  -- the fresh page is on no list and named by no pending start
  have hne : ∀ u, (k.threads u).status ≠ .dying → u ≠ k.nextThread := by
    rintro u hu rfl
    exact hu hfresh.1
  have hth : ∀ u, u ≠ k.nextThread →
      (({ k with nextThread := k.nextThread + 1 } : Kernel).setThread k.nextThread th).threads u =
        k.threads u := fun u hu => setThread_threads_of_ne _ hu
  have hnew : (({ k with nextThread := k.nextThread + 1 } : Kernel).setThread k.nextThread
      th).threads k.nextThread = th := setThread_threads_self _ _
  have hnotdying : ∀ {st : ThreadStatus}, st = .ready ∨ st = .blocked ∨ st = .running →
      st ≠ .dying := by
    rintro st (rfl | rfl | rfl) <;> simp
  refine ⟨⟨?_, ?_, h.core.readyNodup, ?_, h.core.waitersNodup, ?_, ?_, ?_, ?_, ?_, ?_⟩, ?_, ?_⟩
  · intro u hu
    by_cases he : u = k.nextThread
    · subst he; rw [hnew, hb] at hu; cases hu
    · rw [hth u he] at hu; exact h.core.runningOnly u hu
  · intro u hu
    have hr := h.core.ready u hu
    rw [hth u (hne u (hnotdying (Or.inl hr)))]
    exact hr
  · intro s u hu
    have hw := h.core.waiting s u hu
    rw [hth u (hne u (hnotdying (Or.inr (Or.inl hw.1))))]
    exact hw
  · intro u
    by_cases he : u = k.nextThread
    · subst he; rw [hnew, hcode]; simp
    · rw [hth u he]; exact h.core.retestHead u
  · have hi : k.idle ≠ k.nextThread := Nat.ne_of_lt h.core.idle_lt
    show ((({ k with nextThread := k.nextThread + 1 } : Kernel).setThread k.nextThread
      th).threads k.idle).code = _
    rw [hth _ hi]
    exact h.core.idleCode
  · intro u hu
    have hu' : k.nextThread + 1 ≤ u := hu
    rw [hth u (by omega)]
    exact h.core.fresh u (by omega)
  · intro u c hc
    by_cases he : u = k.nextThread
    · subst he; rw [hnew, hcode] at hc; cases hc
    · rw [hth u he] at hc
      have hch := h.core.child u c hc
      rw [hth c (hne c (hnotdying (Or.inr (Or.inl hch.1))))]
      exact hch
  · intro u u' c hu hu'
    by_cases he : u = k.nextThread
    · subst he; rw [hnew, hcode] at hu; cases hu
    by_cases he' : u' = k.nextThread
    · subst he'; rw [hnew, hcode] at hu'; cases hu'
    rw [hth u he] at hu
    rw [hth u' he'] at hu'
    exact h.core.childUnique u u' c hu hu'
  · intro u c
    by_cases he : u = k.nextThread
    · subst he; rw [hnew, hcode]; simp
    · rw [hth u he]; exact h.core.childOnce u c
  · intro _
    have hr := h.running hp
    show ((({ k with nextThread := k.nextThread + 1 } : Kernel).setThread k.nextThread
      th).threads k.current).status = _
    rw [hth _ (hne _ (hnotdying (Or.inr (Or.inr hr))))]
    exact hr
  · refine ⟨h.sleepers.nodup, ?_, h.sleepers.notIdle, ?_, ?_⟩
    · intro u hu
      have hb' := h.sleepers.blocked u hu
      rw [hth u (hne u (hnotdying (Or.inr (Or.inl hb'))))]
      exact hb'
    · intro u hu
      have hb' := h.sleepers.blocked u hu
      rw [hth u (hne u (hnotdying (Or.inr (Or.inl hb'))))]
      exact h.sleepers.noRetest u hu
    · intro u hu v
      by_cases he : v = k.nextThread
      · subst he; rw [hnew, hcode]; simp
      · rw [hth v he]; exact h.sleepers.notChild u hu v

/-- The blocks `thread_create` puts before the rest of its caller's continuation. -/
theorem createAlloc_blocks_count (p : SchedPolicy) (c x : Nat) :
    (acquireCode p tidLock ++ [Instr.allocTid c] ++ releaseCode p tidLock ++
      [Instr.createStart c, Instr.yield]).count (Instr.createStart x) = if x = c then 1 else 0 := by
  by_cases hx : x = c
  · subst hx; cases p <;> simp [acquireCode, releaseCode]
  · have hx' : c ≠ x := Ne.symm hx
    cases p <;> simp [acquireCode, releaseCode, hx, hx']

theorem createAlloc_blocks_noRetest (p : SchedPolicy) (c : Nat) :
    ∀ j ∈ acquireCode p tidLock ++ [Instr.allocTid c] ++ releaseCode p tidLock ++
      [Instr.createStart c, Instr.yield], j.isRetest = false := by
  cases p <;> simp [acquireCode, releaseCode, Instr.isRetest]

/-- `thread_create`: a new blocked thread, and the caller's continuation now starts it. -/
theorem Wf.createAlloc (h : k.Wf) (hp : k.panicked = false) {p : Int} {rest : List Instr}
    (hc : k.code = .createAlloc p :: rest) : (k.createAlloc p rest).Wf := by
  have h₁ := h.addThread hp ⟨0, .blocked, p, [], none, 0, []⟩ rfl rfl
  have hfresh := h.core.fresh k.nextThread le_rfl
  have hne : k.current ≠ k.nextThread := by
    intro he
    have := h.running hp
    rw [he, hfresh.1] at this
    cases this
  have hcode₁ : (({ k with nextThread := k.nextThread + 1 } : Kernel).setThread k.nextThread
      ⟨0, .blocked, p, [], none, 0, []⟩).code = .createAlloc p :: rest := by
    show ((({ k with nextThread := k.nextThread + 1 } : Kernel).setThread k.nextThread
      ⟨0, .blocked, p, [], none, 0, []⟩).threads k.current).code = _
    rw [setThread_threads_of_ne _ hne]
    exact hc
  -- no pending start names the fresh page
  have hnone : ∀ u, .createStart k.nextThread ∉ (k.threads u).code := by
    intro u hu
    have := (h.core.child u _ hu).1
    rw [hfresh.1] at this
    cases this
  have hrest : rest.count (.createStart k.nextThread) = 0 := by
    apply List.count_eq_zero.mpr
    intro hm
    apply hnone k.current
    unfold code at hc
    rw [hc]
    exact List.mem_cons_of_mem _ hm
  unfold Kernel.createAlloc
  apply h₁.setCode hp (h₁.core.ne_idle hcode₁ (by simp))
  · intro j hj
    rcases List.mem_append.mp (List.mem_of_mem_tail hj) with hj | hj
    · exact createAlloc_blocks_noRetest k.policy k.nextThread j hj
    · have := h.core.retestHead k.current j
      unfold code at hc
      rw [hc] at this
      exact this hj
  · intro x
    rw [List.count_append, createAlloc_blocks_count]
    by_cases hx : x = k.nextThread
    · -- the fresh thread is the one new child
      subst hx
      refine Or.inr ⟨⟨setThread_threads_self _ _ ▸ rfl, setThread_threads_self _ _ ▸ rfl, ?_, ?_⟩,
        by rw [if_pos rfl, hrest]⟩
      · intro u hu
        by_cases he : u = k.nextThread
        · subst he
          rw [setThread_threads_self] at hu
          cases hu
        · rw [setThread_threads_of_ne _ he] at hu
          exact hnone u hu
      · intro hs
        have := h.sleepers.blocked _ hs
        rw [hfresh.1] at this
        cases this
    · left
      rw [if_neg hx, hcode₁, List.count_cons]
      simp

/-- `thread_unblock` of the child at the end of `thread_create`. -/
theorem Wf.createStart (h : k.Wf) (hp : k.panicked = false) {c : Nat} {rest : List Instr}
    (hc : k.code = .createStart c :: rest) : ((k.setCode rest).threadUnblock c).Wf := by
  have h₁ : (k.setCode rest).Wf := h.setCode_append hp (X := []) hc (by simp) (by simp)
  have hmem : .createStart c ∈ (k.threads k.current).code := by
    unfold code at hc
    rw [hc]
    exact List.mem_cons_self
  obtain ⟨hb, hcc⟩ := h.core.child _ c hmem
  have hne : c ≠ k.current := by
    rintro rfl
    rw [h.running hp] at hb
    cases hb
  -- the start is pending once, so the rest of the continuation does not name the child again
  have hrest : .createStart c ∉ rest := by
    intro hm
    have := h.core.childOnce k.current c
    unfold code at hc
    rw [hc, List.count_cons_self] at this
    have := List.count_pos_iff.mpr hm
    omega
  apply h₁.threadUnblock
  · rw [setCode_status]
    exact hb
  · intro s hw
    have := (h₁.core.waiting s c hw).2
    rw [setCode_threads_code, if_neg hne, hcc] at this
    cases this
  · intro u hu
    rw [setCode_threads_code] at hu
    split at hu
    · exact hrest hu
    · rename_i hu'
      exact hu' (h.core.childUnique u k.current c hu hmem)
  · intro hs
    exact h.sleepers.notChild c hs k.current hmem

end Create

/-! ## `sema_up` and the timer -/

section Wake

variable {k : Kernel}

/-- `sema_up` removes a waiter from the semaphore and unblocks it. -/
theorem Wf.wake (h : k.Wf) {s : SemaRef} {t : Nat} (ht : t ∈ (k.semas s).waiters)
    {f : Sema → Sema} (hf : (f (k.semas s)).waiters = (k.semas s).waiters.erase t) :
    ((k.modifySema s f).threadUnblock t).Wf := by
  obtain ⟨hb, hhead⟩ := h.core.waiting s t ht
  have h₁ : (k.modifySema s f).Wf := h.modifySema (by rw [hf]; exact List.erase_sublist)
  apply h₁.threadUnblock hb
  · intro s' hs'
    rw [modifySema_semas] at hs'
    split at hs'
    · subst s'
      rw [hf] at hs'
      exact ((h.core.waitersNodup s).mem_erase_iff.mp hs').1 rfl
    · rename_i hne
      have := (h.core.waiting s' t hs').2
      rw [hhead] at this
      cases this
      exact hne rfl
  · intro u hu
    have := (h.core.child u t hu).2
    rw [this] at hhead
    cases hhead
  · intro hs
    exact h.sleepers.noRetest t hs s hhead

theorem Wf.semaUpWake (h : k.Wf) (s : SemaRef) : (k.semaUpWake s).1.Wf := by
  unfold Kernel.semaUpWake
  split
  · split
    · exact h
    · rename_i t hm
      have hm' : listMax (fun a b => decide (k.threadGetPriorityOf a < k.threadGetPriorityOf b))
          (k.semas s).waiters = some t := hm
      exact h.wake (listMax_mem hm') rfl
  · split
    · exact h
    · rename_i t ws hw
      exact h.wake (by rw [hw]; exact List.mem_cons_self) (by rw [hw]; simp)

theorem Wf.semaUp (h : k.Wf) (s : SemaRef) : (k.semaUp s).1.Wf := by
  show ((k.semaUpWake s).1.modifySema s fun sm => { sm with value := sm.value + 1 }).Wf
  exact (h.semaUpWake s).of_sameShape (sameShape_modifySema rfl) id

/-- `timer_wake_sleeping_threads`: the sleepers still to be examined are those of `l`. -/
theorem wakeSleeping_wf (now : Int) :
    ∀ (l : List Nat) (k : Kernel), k.Core →
      (k.panicked = false → (k.threads k.current).status = .running) → k.Sleepers l →
      (wakeSleeping now l k).Wf
  | [], k, hc, hr, _ => by
    simp only [wakeSleeping]
    exact ⟨hc.with_sleepList [], hr, ⟨List.nodup_nil, by simp, by simp, by simp, by simp⟩⟩
  | t :: l, k, hc, hr, hs => by
    simp only [wakeSleeping]
    split
    · exact ⟨hc.with_sleepList _, hr, hs.of_threads rfl rfl⟩
    · have hb := hs.blocked t List.mem_cons_self
      apply wakeSleeping_wf now l (k.threadUnblock t)
        (hc.threadUnblock hb (hc.not_mem_waiters_of_head (hs.noRetest t List.mem_cons_self))
          (hs.notChild t List.mem_cons_self))
      · intro hp
        have hne : k.current ≠ t := by
          rintro rfl
          rw [hr hp] at hb
          cases hb
        rw [threadUnblock_current, threadUnblock_status, if_neg hne]
        exact hr hp
      · exact hs.tail.threadUnblock (List.nodup_cons.mp hs.nodup).1

theorem Wf.timerInterrupt (h : k.Wf) (hp : k.panicked = false) : k.timerInterrupt.Wf := by
  have h₀ : ({ k with ticks := k.ticks + 1 } : Kernel).Wf :=
    h.of_sameShape ⟨rfl, rfl, rfl, rfl, rfl, fun _ => rfl, fun _ => rfl, fun _ => rfl⟩ id
  have h₁ := wakeSleeping_wf (k.ticks + 1) k.sleepList _ h₀.core h₀.running h₀.sleepers
  have h₂ : ({ wakeSleeping (k.ticks + 1) k.sleepList { k with ticks := k.ticks + 1 } with
      threadTicks := (wakeSleeping (k.ticks + 1) k.sleepList
        { k with ticks := k.ticks + 1 }).threadTicks + 1 } : Kernel).Wf :=
    h₁.of_sameShape ⟨rfl, rfl, rfl, rfl, rfl, fun _ => rfl, fun _ => rfl, fun _ => rfl⟩ id
  unfold Kernel.timerInterrupt Kernel.timerWakeSleepingThreads
  dsimp only
  split
  · exact h₂.threadYield (by simpa using hp)
  · exact h₂

theorem Wf.irqSemaUp (h : k.Wf) (hp : k.panicked = false) (n : Nat) : (k.irqSemaUp n).Wf := by
  unfold Kernel.irqSemaUp
  split
  · exact (h.semaUp _).threadYield (by simpa using hp)
  · exact h.semaUp _

end Wake


/-! ## Every step -/

section Step

variable {k : Kernel}

/-- A change that moves no thread, then the usual replacement of the executed block. -/
theorem Wf.passive_setCode (h : k.Wf) (hp : k.panicked = false) {k' : Kernel}
    (hs : SameShape k k') (hpan : k'.panicked = k.panicked) {i : Instr} {rest X : List Instr}
    (hc : k.code = i :: rest) (hi : i ≠ .idleBlock) (hX : ∀ x ∈ X, x.isPlain = true) :
    (k'.setCode (X ++ rest)).Wf := by
  have h' := h.of_sameShape hs (fun hf => by rw [← hpan]; exact hf)
  have hc' : k'.code = i :: rest := by
    unfold code
    rw [hs.current, hs.code]
    exact hc
  exact h'.setCode_append (by rw [hpan]; exact hp) hc' hi hX

theorem Wf.semaDownTest (h : k.Wf) (hp : k.panicked = false) {s : SemaRef} {i : Instr}
    {rest : List Instr} (hc : k.code = i :: rest) (hi : i ≠ .idleBlock) :
    (k.semaDownTest s rest).1.Wf := by
  unfold Kernel.semaDownTest
  split
  · exact h.semaBlock hp hc hi
  · exact h.passive_setCode hp (sameShape_modifySema rfl) rfl (X := []) hc hi (by simp)

/-- **Every block keeps the scheduler invariant.** -/
theorem Wf.exec (h : k.Wf) (hp : k.panicked = false) {i : Instr} {rest : List Instr}
    (hc : k.code = i :: rest) : (k.exec i rest).1.Wf := by
  -- the blocks that only replace themselves in the continuation
  have hset : ∀ X, (∀ x ∈ X, x.isPlain = true) → i ≠ .idleBlock → (k.setCode (X ++ rest)).Wf :=
    fun X hX hi => h.setCode_append hp hc hi hX
  cases i with
  | semaDown s => exact h.semaDownTest hp hc (by simp)
  | semaDownLoop s => exact h.semaDownTest hp hc (by simp)
  | semaTryDown s =>
    simp only [Kernel.exec]
    split
    · exact h.passive_setCode hp (sameShape_modifySema rfl) rfl (X := []) hc (by simp) (by simp)
    · exact hset [] (by simp) (by simp)
  | semaUp s =>
    have hc' : (k.semaUp s).1.code = .semaUp s :: rest := by rw [semaUp_code]; exact hc
    exact (h.semaUp s).setCode_append (by simpa using hp) hc' (by simp)
      (X := [.semaUpCheck _]) (by simp [Instr.isPlain])
  | semaUpCheck p =>
    simp only [Kernel.exec]
    split
    · exact hset [.yield] (by simp [Instr.isPlain]) (by simp)
    · exact hset [] (by simp) (by simp)
  | lockDonate l =>
    simp only [Kernel.exec, Kernel.lockDonate]
    split
    · split
      · exact h.passive_setCode hp ((sameShape_modifyThread rfl rfl).trans
          (sameShape_modifyThread rfl rfl)) rfl (X := [.donateLoop _ _]) hc (by simp)
          (by simp [Instr.isPlain])
      · exact hset [] (by simp) (by simp)
    · exact hset [] (by simp) (by simp)
  | donateLoop p r =>
    simp only [Kernel.exec, Kernel.donateLoop]
    split
    · exact hset [] (by simp) (by simp)
    · exact h.passive_setCode hp (sameShape_modifyThread rfl rfl) rfl (X := [.donateLoop _ _]) hc
        (by simp) (by simp [Instr.isPlain])
  | lockSetHolder l =>
    refine h.passive_setCode hp (sameShape_holder _ _) ?_ (X := []) hc (by simp) (by simp)
    rfl
  | lockClearDonatingTo l =>
    exact h.passive_setCode hp (sameShape_modifyThread rfl rfl) rfl (X := []) hc (by simp) (by simp)
  | lockTryAcquire l =>
    simp only [Kernel.exec]
    split
    · exact h.passive_setCode hp (sameShape_modifySema rfl) rfl (X := [.lockTrySetHolder _]) hc
        (by simp) (by simp [Instr.isPlain])
    · exact hset [] (by simp) (by simp)
  | lockTrySetHolder l =>
    refine h.passive_setCode hp (sameShape_holder _ _) ?_ (X := []) hc (by simp) (by simp)
    rfl
  | lockClearHolder l =>
    refine h.passive_setCode hp (sameShape_holder _ _) ?_ (X := []) hc (by simp) (by simp)
    rfl
  | lockRevoke l =>
    simp only [Kernel.exec]
    split
    · exact h.of_sameShape (sameShape_panicked _ _) (fun hf => by cases hf)
    · have hs := sameShape_modifyThread (k := k) (u := k.current)
        (f := fun th => { th with donations := th.donations.filter fun d => d.lock ≠ l }) rfl rfl
      split
      · exact h.passive_setCode hp hs rfl (X := []) hc (by simp) (by simp)
      · exact h.passive_setCode hp hs rfl (X := [.yield]) hc (by simp) (by simp [Instr.isPlain])
  | condWait c l =>
    have h₁ : (k.modifySema (.waiter k.nextWaiter) fun _ => ⟨0, []⟩).Wf :=
      h.modifySema (List.nil_sublist _)
    have hX : ∀ x ∈ releaseCode k.policy l ++ [Instr.semaDown (.waiter k.nextWaiter)] ++
        acquireCode k.policy l, x.isPlain = true := by
      intro x hx
      rcases List.mem_append.mp hx with hx | hx
      · rcases List.mem_append.mp hx with hx | hx
        · exact releaseCode_plain _ _ x hx
        · rw [List.mem_singleton.mp hx]; rfl
      · exact acquireCode_plain _ _ x hx
    refine h₁.passive_setCode (by simpa using hp) ?_ ?_ hc (by simp) hX
    · exact ⟨rfl, rfl, rfl, rfl, rfl, fun _ => rfl, fun _ => rfl, fun _ => rfl⟩
    · rfl
  | condSignal c =>
    simp only [Kernel.exec, Kernel.condSignal]
    split
    · exact hset [] (by simp) (by simp)
    · refine h.passive_setCode hp (sameShape_conds _ _) ?_ (X := [.semaUp _]) hc (by simp)
        (by simp [Instr.isPlain])
      rfl
    · refine h.passive_setCode hp (sameShape_conds _ _) ?_ (X := [.semaUp _]) hc (by simp)
        (by simp [Instr.isPlain])
      rfl
  | condBroadcast c =>
    simp only [Kernel.exec]
    split
    · exact hset [] (by simp) (by simp)
    · exact hset [.condSignal c, .condBroadcast c] (by simp [Instr.isPlain]) (by simp)
  | yield =>
    exact (hset [] (by simp) (by simp)).threadYield (by simpa using hp)
  | setPriority p =>
    have hs := sameShape_modifyThread (k := k) (u := k.current)
      (f := fun th => { th with priority := p }) rfl rfl
    simp only [Kernel.exec, Kernel.setPriority]
    split
    · split
      · exact h.passive_setCode hp hs rfl (X := [.yield]) hc (by simp) (by simp [Instr.isPlain])
      · exact h.passive_setCode hp hs rfl (X := [.updateDonations _ _, .yield]) hc (by simp)
          (by simp [Instr.isPlain])
    · exact h.passive_setCode hp hs rfl (X := [.yield]) hc (by simp) (by simp [Instr.isPlain])
  | updateDonations donor donee =>
    simp only [Kernel.exec, Kernel.updateDonations]
    split
    · split
      · exact h.passive_setCode hp (sameShape_modifyThread rfl rfl) rfl (X := []) hc (by simp)
          (by simp)
      · exact h.passive_setCode hp (sameShape_modifyThread rfl rfl) rfl
          (X := [.updateDonations _ _]) hc (by simp) (by simp [Instr.isPlain])
    · exact hset [] (by simp) (by simp)
  | createAlloc p => exact h.createAlloc hp hc
  | allocTid c =>
    refine h.passive_setCode hp ((sameShape_nextTid _ _).trans (sameShape_modifyThread rfl rfl)) ?_
      (X := []) hc (by simp) (by simp)
    rfl
  | createStart c => exact h.createStart hp hc
  | exit => exact h.threadExit hp hc
  | timerSleep n => exact h.timerSleep hp hc
  | idleBlock => exact h.threadBlock hp

/-- **Every step keeps the scheduler invariant.** -/
theorem Wf.step {e : Event} {k' : Kernel} (h : k.Wf) (hs : Step k e k') : k'.Wf := by
  cases hs with
  | call c hp hidle hnil _ =>
    apply h.setCode hp hidle
    · intro j hj
      have := Call.code_plain k.policy c j (List.mem_of_mem_tail hj)
      cases j <;> simp_all [Instr.isPlain, Instr.isRetest]
    · refine startsFrom_of_le fun x => ?_
      have : (c.code k.policy).count (.createStart x) = 0 := by
        apply List.count_eq_zero.mpr
        intro hx
        have := Call.code_plain k.policy c _ hx
        simp [Instr.isPlain] at this
      omega
  | exec hp hc => exact h.exec hp hc
  | createFail hp hc => exact h.setCode_append hp (X := []) hc (by simp) (by simp)
  | timer hp _ => exact h.timerInterrupt hp
  | irqSemaUp n hp _ => exact h.irqSemaUp hp n

end Step

end Kernel

/-- **The scheduler invariant holds along every run from boot.** -/
theorem KRun.wf {policy : SchedPolicy} {semaInit : Nat → UInt32} {evs : List Event} {k : Kernel}
    (h : KRun policy semaInit evs k) : k.Wf :=
  Lts.Run.inv Kernel.Wf (Kernel.boot_wf policy semaInit) (fun _ _ _ hk hs => hk.step hs) h

end Pintos
