import Mathlib
import Pintos.Userprog.Process

/-!
# The wait protocol over every run

`process_wait (pid)` searches the caller's `children` for `pid` and marks the record waited.  If
the child has not exited yet it releases `children_lock`, blocks on the record's `exit_sema`, and
takes the lock again before it reads the status.  The child's `process_exit` marks the record
exited and ups the semaphore, under the parent's lock.

`WaitInv` is what every state reachable from boot keeps (`waitInv_of_run`):

* `sema` — a record whose `exit_sema` is up belongs to a child that has exited;
* `thread` — a thread's `pcb` is its own slot, its code is what remains of a call (`CodeOk`),
  and a thread in `process_wait` past its search has its record of `pid`, marked waited, and
  marked exited once its `sema_down` has returned.

Each instruction keeps it (`waitInv_exec`): the frame lemma `WaitInv.step_of` reduces a step to
the thread that moves and to the records of the others, which only a child's `notify` changes.

## Results

* `wait_returns_exited_status` — over every run from boot, when `process_wait (pid)` is about to
  read the status, the caller's record of `pid` is marked waited and exited, and the call
  returns the status that record holds.
* `failed_create_keeps_children_lock` — when `thread_create` fails for want of a page,
  `process_execute` and `process_fork` return -1 and leave the caller's PCB as it was, its
  `children_lock` still held.

Not proved: that the status in the record is the one the child passed to `exit` (the child's
PCB is gone by the time the parent reads it).
-/

set_option autoImplicit false

namespace Pintos.Userprog

/-! ## Child records -/

section Records

variable {f : ChildInfo → ChildInfo}

theorem findChild_cons (pid : Nat) (ci : ChildInfo) (l : List ChildInfo) :
    findChild pid (ci :: l) = if ci.pid = pid then some ci else findChild pid l := by
  unfold findChild
  by_cases h : ci.pid = pid <;> simp [h]

/-- Changing the first record of `c` with an `f` that keeps the record's `pid` changes what the
search for `c` finds by `f`, and no other search. -/
theorem findChild_updateChild (hf : ∀ ci, (f ci).pid = ci.pid) (c pid : Nat) :
    ∀ l, findChild pid (updateChild c f l) =
      if c = pid then (findChild pid l).map f else findChild pid l
  | [] => by simp [updateChild, findChild]
  | ci :: l => by
    have ih := findChild_updateChild hf c pid l
    by_cases hc : ci.pid = c
    · by_cases hp : c = pid <;> simp [updateChild, findChild_cons, hc, hf, hp]
    · by_cases hp : ci.pid = pid
      · have hpc : ¬ pid = c := fun h => hc (hp.trans h)
        simp [updateChild, findChild_cons, hp, hpc, Ne.symm hpc]
      · simp [updateChild, findChild_cons, hc, hp, ih]

theorem findChild_append_of_some {pid : Nat} {l : List ChildInfo} {ci : ChildInfo}
    (h : findChild pid l = some ci) (l' : List ChildInfo) : findChild pid (l ++ l') = some ci := by
  simp only [findChild, List.find?_append] at h ⊢
  rw [h]
  rfl

@[simp] theorem Pcb.mapChild_childrenLock (pid : Nat) (pcb : Pcb) :
    (pcb.mapChild pid f).childrenLock = pcb.childrenLock := rfl

/-- A record whose `exit_sema` is up belongs to a child that has exited. -/
def SemaOk (l : List ChildInfo) : Prop := ∀ ci ∈ l, 0 < ci.exitSema → ci.hasExited = true

theorem SemaOk.updateChild {l : List ChildInfo} (h : SemaOk l) (c : Nat)
    (hf : ∀ ci, (0 < ci.exitSema → ci.hasExited = true) →
      0 < (f ci).exitSema → (f ci).hasExited = true) :
    SemaOk (updateChild c f l) := by
  induction l with
  | nil => exact h
  | cons ci l ih =>
    have hl : SemaOk l := fun x hx => h x (List.mem_cons_of_mem ci hx)
    unfold Pintos.Userprog.updateChild
    split
    · intro x hx
      rcases List.mem_cons.mp hx with rfl | hx
      · exact hf ci (h ci List.mem_cons_self)
      · exact hl x hx
    · intro x hx
      rcases List.mem_cons.mp hx with rfl | hx
      · exact h x List.mem_cons_self
      · exact ih hl x hx

theorem SemaOk.append {l l' : List ChildInfo} (h : SemaOk l) (h' : SemaOk l') : SemaOk (l ++ l') :=
  fun ci hci => (List.mem_append.mp hci).elim (h ci) (h' ci)

end Records

/-! ## What the protocol reads of a state -/

namespace PState

/-- What the protocol reads of thread `t`: its code and `t->pcb`. -/
def view (s : PState) (t : Nat) : Option (List PInstr × Option Nat) :=
  (s.threads t).map fun th => (th.code, th.pcb)

/-- The `children` of the live PCB in slot `p`. -/
def kids (s : PState) (p : Nat) : Option (List ChildInfo) := (s.pcbOf p).map Pcb.children

/-- The holder of `children_lock` in the live PCB of slot `p`. -/
def lockOf (s : PState) (p : Nat) : Option (Option Nat) := (s.pcbOf p).map Pcb.childrenLock

section Frame

variable (s : PState)

@[simp] theorem view_mk (sl : Nat → Slot) (nt kp up bl : Nat) (d : Nat → Option (List Nat))
    (f : Option PFault) : (PState.mk sl s.threads nt kp up bl d f).view = s.view := rfl

@[simp] theorem kids_mk (th : Nat → Option PThread) (nt kp up bl : Nat)
    (d : Nat → Option (List Nat)) (f : Option PFault) :
    (PState.mk s.slots th nt kp up bl d f).kids = s.kids := rfl

@[simp] theorem view_setThread (t : Nat) (th : Option PThread) (u : Nat) :
    (s.setThread t th).view u =
      if u = t then th.map (fun th => (th.code, th.pcb)) else s.view u := by
  by_cases hu : u = t <;> simp [view, setThread, hu]

@[simp] theorem kids_setThread (t : Nat) (th : Option PThread) : (s.setThread t th).kids = s.kids :=
  rfl

@[simp] theorem view_setSlot (p : Nat) (x : Slot) : (s.setSlot p x).view = s.view := rfl

@[simp] theorem kids_setSlot (p : Nat) (x : Slot) (u : Nat) :
    (s.setSlot p x).kids u =
      if u = p then (match x with | .live pcb => some pcb.children | _ => none)
      else s.kids u := by
  by_cases hu : u = p <;> cases x <;> simp [kids, pcbOf, setSlot, hu]

@[simp] theorem view_failWith (f : PFault) : (s.failWith f).view = s.view := rfl

@[simp] theorem kids_failWith (f : PFault) : (s.failWith f).kids = s.kids := rfl

@[simp] theorem view_modifyPcb (p : Nat) (f : Pcb → Pcb) : (s.modifyPcb p f).view = s.view := by
  unfold modifyPcb
  split <;> rfl

theorem kids_modifyPcb (p : Nat) (f : Pcb → Pcb) (u : Nat) :
    (s.modifyPcb p f).kids u = if u = p then (s.pcbOf p).map (fun pcb => (f pcb).children)
      else s.kids u := by
  unfold modifyPcb
  split
  · next pcb h => simp [pcbOf, h]
  · next h =>
    have : s.pcbOf p = none := by unfold pcbOf; split <;> simp_all
    rw [kids_failWith]
    by_cases hu : u = p <;> simp [hu, this, kids]

/-- A change of the PCB that keeps `children` keeps every slot's `children`. -/
@[simp] theorem kids_modifyPcb_of_children (p : Nat) (f : Pcb → Pcb)
    (hf : ∀ pcb, (f pcb).children = pcb.children) : (s.modifyPcb p f).kids = s.kids := by
  funext u
  rw [kids_modifyPcb]
  split
  · next hu => subst hu; simp [kids, hf]
  · rfl

@[simp] theorem view_release (t p : Nat) : (s.release t p).view = s.view := by
  unfold release
  split
  · split <;> rfl
  · rfl

@[simp] theorem kids_release (t p : Nat) : (s.release t p).kids = s.kids := by
  unfold release
  split
  · next pcb h =>
    split
    · funext u
      rw [kids_setSlot]
      split
      · next hu => subst hu; simp [kids, pcbOf, h]
      · rfl
    · rfl
  · rfl

theorem acquire_frame {t p : Nat} {s' : PState} (h : s.acquire t p = some s') :
    s'.view = s.view ∧ s'.kids = s.kids := by
  unfold acquire at h
  split at h
  · next pcb hp =>
    split at h
    · cases h
      refine ⟨rfl, funext fun u => ?_⟩
      rw [kids_setSlot]
      split
      · next hu => subst hu; simp [kids, pcbOf, hp]
      · rfl
    · split at h
      · cases h; exact ⟨rfl, rfl⟩
      · cases h
  · cases h; exact ⟨rfl, rfl⟩

@[simp] theorem view_post (c : Nat) (r : Option Nat) : (s.post c r).view = s.view := by
  funext u
  unfold post
  split
  · next th h =>
    rw [view_setThread]
    split
    · next hu => subst hu; simp [view, h]
    · rfl
  · rfl

@[simp] theorem kids_post (c : Nat) (r : Option Nat) : (s.post c r).kids = s.kids := by
  unfold post
  split <;> rfl

/-- `process_exit`'s loop over `children` writes only the children's `parent_pcb`. -/
theorem orphanAll_frame (l : List ChildInfo) :
    ∀ s : PState, (s.orphanAll l).view = s.view ∧ (s.orphanAll l).kids = s.kids := by
  induction l with
  | nil => exact fun _ => ⟨rfl, rfl⟩
  | cons ci l ih =>
    intro s
    unfold orphanAll
    refine ⟨(ih _).1.trans ?_, (ih _).2.trans ?_⟩ <;> simp only [view_mk, kids_mk] <;> split
    -- an exited child is skipped; otherwise its `parent_pcb` is cleared or the pointer is null
    all_goals first
      | rfl
      | split <;> simp

@[simp] theorem lockOf_mk (th : Nat → Option PThread) (nt kp up bl : Nat)
    (d : Nat → Option (List Nat)) (f : Option PFault) :
    (PState.mk s.slots th nt kp up bl d f).lockOf = s.lockOf := rfl

@[simp] theorem lockOf_setThread (t : Nat) (th : Option PThread) :
    (s.setThread t th).lockOf = s.lockOf := rfl

@[simp] theorem lockOf_failWith (f : PFault) : (s.failWith f).lockOf = s.lockOf := rfl

@[simp] theorem lockOf_post (c : Nat) (r : Option Nat) : (s.post c r).lockOf = s.lockOf := by
  unfold post
  split <;> rfl

theorem lockOf_setSlot (p : Nat) (x : Slot) (u : Nat) :
    (s.setSlot p x).lockOf u =
      if u = p then (match x with | .live pcb => some pcb.childrenLock | _ => none)
      else s.lockOf u := by
  by_cases hu : u = p <;> cases x <;> simp [lockOf, pcbOf, setSlot, hu]

/-- A change of the PCB that keeps `children_lock`. -/
@[simp] theorem lockOf_modifyPcb (p : Nat) (f : Pcb → Pcb)
    (hf : ∀ pcb, (f pcb).childrenLock = pcb.childrenLock) :
    (s.modifyPcb p f).lockOf = s.lockOf := by
  funext u
  unfold modifyPcb
  split
  · next pcb h =>
    rw [lockOf_setSlot]
    split
    · next hu => subst hu; simp [lockOf, pcbOf, h, hf]
    · rfl
  · rfl

@[simp] theorem lockOf_modifyPcb_mapChild (p c : Nat) (g : ChildInfo → ChildInfo) :
    (s.modifyPcb p (Pcb.mapChild c g)).lockOf = s.lockOf :=
  s.lockOf_modifyPcb p _ fun _ => rfl

/-- `lock_release` by `t` frees the lock of slot `p` if `t` holds it, and changes nothing
else. -/
theorem lockOf_release (t p u : Nat) :
    (s.release t p).lockOf u = if u = p ∧ s.lockOf p = some (some t) then some none
      else s.lockOf u := by
  unfold release
  split
  · next pcb h =>
    split
    · next hl =>
      rw [lockOf_setSlot]
      by_cases hu : u = p <;> simp [hu, lockOf, pcbOf, h, hl]
    · next hl =>
      by_cases hu : u = p <;> simp [hu, lockOf, pcbOf, h, hl, failWith]
  · next h =>
    have : s.lockOf p = none := by unfold lockOf pcbOf; split <;> simp_all
    simp [this, failWith]

/-- A lock that `t` does not hold stays as it was through `t`'s `lock_release`. -/
@[simp] theorem lockOf_release_of_ne {t p u : Nat} (h : s.lockOf u ≠ some (some t)) :
    (s.release t p).lockOf u = s.lockOf u := by
  rw [lockOf_release]
  split
  · next hu => exact absurd (hu.1 ▸ hu.2) h
  · rfl

/-- `lock_acquire` by `t` takes the lock of slot `p` if it is free, and changes nothing else. -/
theorem acquire_lockOf {t p : Nat} {s' : PState} (h : s.acquire t p = some s') (u : Nat) :
    s'.lockOf u = if u = p ∧ s.lockOf p = some none then some (some t) else s.lockOf u := by
  unfold acquire at h
  split at h
  · next pcb hp =>
    split at h
    · next hl =>
      cases h
      rw [lockOf_setSlot]
      by_cases hu : u = p <;> simp [hu, lockOf, pcbOf, hp, hl]
    · next holder hl =>
      split at h
      · cases h
        by_cases hu : u = p <;> simp [hu, lockOf, pcbOf, hp, hl, failWith]
      · cases h
  · next hp =>
    cases h
    have : s.lockOf p = none := by unfold lockOf pcbOf; split <;> simp_all
    simp [this, failWith]

/-- A `lock_acquire` that does not fault leaves the lock with `t`. -/
theorem acquire_self {t p : Nat} {s' : PState} (h : s.acquire t p = some s')
    (hf : s'.fault = none) : s'.lockOf p = some (some t) := by
  unfold acquire at h
  split at h
  · next pcb hp =>
    split at h
    · cases h
      simp [lockOf_setSlot]
    · split at h
      · cases h
        simp [failWith] at hf
      · cases h
  · cases h
    simp [failWith] at hf

theorem orphanAll_lockOf (l : List ChildInfo) :
    ∀ s : PState, (s.orphanAll l).lockOf = s.lockOf := by
  induction l with
  | nil => exact fun _ => rfl
  | cons ci l ih =>
    intro s
    unfold orphanAll
    refine (ih _).trans ?_
    simp only [lockOf_mk]
    split
    · rfl
    · split <;> simp

end Frame

end PState

/-! ## The code a thread has left -/

/-- `process_wait` past its search when the child had not exited: the `sema_down`, the
`lock_acquire` and the read of the status. -/
def waitTail (pid : Nat) : List PInstr := [.waitSema pid, .acquireOwn, .waitRead pid]

/-- The code a thread can have left: the rest of a call's, of `process_wait` past its search,
or a new thread's. -/
def CodeOk (code : List PInstr) : Prop :=
  (∃ c : PCall, code <:+ c.code) ∨ (∃ pid, code <:+ waitTail pid) ∨
    (∃ creator name, code = [.startProcess creator name]) ∨
    ∃ creator, code = [.forkChild creator]

section Code

theorem CodeOk.call (c : PCall) : CodeOk c.code := Or.inl ⟨c, List.suffix_refl _⟩

theorem codeOk_nil : CodeOk [] := Or.inl ⟨.kill, List.nil_suffix⟩

theorem CodeOk.suffix {code code' : List PInstr} (h : CodeOk code) (hs : code' <:+ code) :
    CodeOk code' := by
  rcases h with ⟨c, hc⟩ | ⟨pid, hp⟩ | hnew
  · exact Or.inl ⟨c, hs.trans hc⟩
  · exact Or.inr (Or.inl ⟨pid, hs.trans hp⟩)
  · -- a new thread's code is one instruction
    obtain ⟨x, rfl⟩ : ∃ x, code = [x] := by
      rcases hnew with ⟨_, _, rfl⟩ | ⟨_, rfl⟩ <;> exact ⟨_, rfl⟩
    rcases List.suffix_cons_iff.mp hs with rfl | hs
    · exact Or.inr (Or.inr hnew)
    · rw [List.suffix_nil.mp hs]
      exact codeOk_nil

theorem CodeOk.tail {i : PInstr} {rest : List PInstr} (h : CodeOk (i :: rest)) : CodeOk rest :=
  h.suffix (List.suffix_cons i rest)

/-- `.waitRead` occurs only in what follows the search of `process_wait`. -/
theorem CodeOk.suffix_waitTail {code : List PInstr} (h : CodeOk code) {pid : Nat}
    (hm : PInstr.waitRead pid ∈ code) : code <:+ waitTail pid := by
  rcases h with ⟨c, hc⟩ | ⟨pid', hp⟩ | ⟨_, _, rfl⟩ | ⟨_, rfl⟩
  · have := hc.subset hm
    cases c <;> simp [PCall.code, exitCode] at this
  · have := hp.subset hm
    simp only [waitTail, List.mem_cons, reduceCtorEq, PInstr.waitRead.injEq, List.not_mem_nil,
      false_or, or_false] at this
    exact this ▸ hp
  all_goals simp at hm

/-- The instruction before a `.waitRead`: the `sema_down`, or the `lock_acquire` after it. -/
theorem CodeOk.cons_waiting {i : PInstr} {rest : List PInstr} (h : CodeOk (i :: rest)) {pid : Nat}
    (hm : PInstr.waitRead pid ∈ rest) :
    (i = .waitSema pid ∧ rest = [.acquireOwn, .waitRead pid]) ∨
      (i = .acquireOwn ∧ rest = [.waitRead pid]) := by
  have hs := h.suffix_waitTail (List.mem_cons_of_mem i hm)
  simp only [waitTail, List.suffix_cons_iff, List.cons.injEq, List.suffix_nil, reduceCtorEq,
    or_false] at hs
  rcases hs with ⟨rfl, rfl⟩ | ⟨rfl, rfl⟩ | ⟨_, rfl⟩
  · exact Or.inl ⟨rfl, rfl⟩
  · exact Or.inr ⟨rfl, rfl⟩
  · simp at hm

theorem waitRead_not_mem_call (c : PCall) (pid : Nat) : PInstr.waitRead pid ∉ c.code := by
  cases c <;> simp [PCall.code, exitCode]

end Code

/-! ## The invariant -/

/-- The caller's record of `pid` is marked waited, and exited if `exited`. -/
def Rec (s : PState) (t pid : Nat) (exited : Bool) : Prop :=
  ∃ l ci, s.kids t = some l ∧ findChild pid l = some ci ∧ ci.hasBeenWaited = true ∧
    (exited = true → ci.hasExited = true)

/-- What thread `t`, with `code` left and `t->pcb = pcb`, keeps. -/
structure ThreadOk (s : PState) (t : Nat) (code : List PInstr) (pcb : Option Nat) : Prop where
  own : ∀ p, pcb = some p → p = t
  shape : CodeOk code
  /-- In `sema_down`: the record is marked waited. -/
  blocked : ∀ pid, code = waitTail pid → Rec s t pid false
  /-- Past `sema_down`, or past a search that found the child exited: marked exited too. -/
  woken : ∀ pid, code = [.acquireOwn, .waitRead pid] ∨ code = [.waitRead pid] →
    Rec s t pid true
  /-- In `process_wait`'s tail the thread has its PCB. -/
  waiter : ∀ pid, PInstr.waitRead pid ∈ code → pcb = some t

/-- What the wait protocol keeps in every reachable state. -/
structure WaitInv (s : PState) : Prop where
  sema : ∀ p l, s.kids p = some l → SemaOk l
  thread : ∀ t code pcb, s.view t = some (code, pcb) → ThreadOk s t code pcb

section Invariant

variable {s s' : PState} {t : Nat} {code : List PInstr} {pcb : Option Nat}

/-- A thread outside `process_wait`'s tail keeps only its own `pcb` and the shape of its code. -/
theorem ThreadOk.quiet (hown : ∀ p, pcb = some p → p = t) (hc : CodeOk code)
    (hq : ∀ pid, PInstr.waitRead pid ∉ code) : ThreadOk s t code pcb where
  own := hown
  shape := hc
  blocked pid h := absurd (by simp [h, waitTail]) (hq pid)
  woken pid h := absurd (by rcases h with rfl | rfl <;> simp) (hq pid)
  waiter pid h := absurd h (hq pid)

theorem ThreadOk.of_rec (h : ThreadOk s t code pcb)
    (hr : ∀ pid ex, Rec s t pid ex → Rec s' t pid ex) : ThreadOk s' t code pcb where
  own := h.own
  shape := h.shape
  blocked pid hc := hr _ _ (h.blocked pid hc)
  woken pid hc := hr _ _ (h.woken pid hc)
  waiter := h.waiter

/-- The call returns to user mode. -/
theorem ThreadOk.ret {i : PInstr} {rest : List PInstr} (h : ThreadOk s t (i :: rest) pcb) :
    ThreadOk s' t [] pcb :=
  .quiet h.own codeOk_nil (fun _ => List.not_mem_nil)

/-- After an instruction that is neither the `sema_down` nor a `lock_acquire`, the thread is not
in `process_wait`'s tail. -/
theorem ThreadOk.next_quiet {i : PInstr} {rest : List PInstr} (h : ThreadOk s t (i :: rest) pcb)
    (hi : i ≠ .acquireOwn) (hi' : ∀ pid, i ≠ .waitSema pid) (pid : Nat) :
    PInstr.waitRead pid ∉ rest := fun hm => by
  rcases h.shape.cons_waiting hm with ⟨rfl, _⟩ | ⟨rfl, _⟩
  · exact hi' pid rfl
  · exact hi rfl

theorem ThreadOk.next {i : PInstr} {rest : List PInstr} (h : ThreadOk s t (i :: rest) pcb)
    (hi : i ≠ .acquireOwn) (hi' : ∀ pid, i ≠ .waitSema pid) : ThreadOk s' t rest pcb :=
  .quiet h.own h.shape.tail (h.next_quiet hi hi')

/-- `lock_acquire` keeps what the thread keeps: past it in `process_wait`'s tail, the record is
the one the `sema_down` saw. -/
theorem ThreadOk.acquired {rest : List PInstr} (h : ThreadOk s t (.acquireOwn :: rest) pcb) :
    ThreadOk s t rest pcb where
  own := h.own
  shape := h.shape.tail
  blocked pid hc := by
    rcases h.shape.cons_waiting (by simp [hc, waitTail] : PInstr.waitRead pid ∈ rest) with
      ⟨h1, _⟩ | ⟨_, h2⟩
    · cases h1
    · simp [hc, waitTail] at h2
  woken pid hc := by
    rcases hc with hc | hc
    · rcases h.shape.cons_waiting (by simp [hc] : PInstr.waitRead pid ∈ rest) with
        ⟨h1, _⟩ | ⟨_, h2⟩
      · cases h1
      · simp [hc] at h2
    · exact h.woken pid (Or.inl (by rw [hc]))
  waiter pid hm := h.waiter pid (List.mem_cons_of_mem _ hm)

/-- In `sema_down` with the record marked waited. -/
theorem ThreadOk.of_blocked {pid : Nat} (hp : pcb = some t) (hr : Rec s t pid false) :
    ThreadOk s t (waitTail pid) pcb where
  own p h := Option.some.inj (h.symm.trans hp)
  shape := Or.inr (Or.inl ⟨pid, List.suffix_refl _⟩)
  blocked pid' hc := by
    simp only [waitTail, List.cons.injEq, PInstr.waitSema.injEq] at hc
    exact hc.1 ▸ hr
  woken pid' hc := by rcases hc with hc | hc <;> simp [waitTail] at hc
  waiter _ _ := hp

/-- Past `sema_down`, or past a search that found the child exited, with the record marked. -/
theorem ThreadOk.of_woken {pid : Nat} (hp : pcb = some t)
    (hcode : code = [.acquireOwn, .waitRead pid] ∨ code = [.waitRead pid])
    (hr : Rec s t pid true) : ThreadOk s t code pcb where
  own p h := Option.some.inj (h.symm.trans hp)
  shape := by
    refine Or.inr (Or.inl ⟨pid, ?_⟩)
    rcases hcode with rfl | rfl <;> simp [waitTail, List.suffix_cons_iff]
  blocked pid' hc := by rcases hcode with rfl | rfl <;> simp [waitTail] at hc
  woken pid' hc := by
    have : pid' = pid := by rcases hcode with rfl | rfl <;> rcases hc with hc | hc <;> simp_all
    exact this ▸ hr
  waiter _ _ := hp

theorem Rec.of_kids {pid : Nat} {ex : Bool} (h : Rec s t pid ex) (hk : s'.kids t = s.kids t) :
    Rec s' t pid ex := by
  unfold Rec
  rw [hk]
  exact h

theorem WaitInv.threadOk (hI : WaitInv s) {th : PThread} (ht : s.threads t = some th) :
    ThreadOk s t th.code th.pcb :=
  hI.thread t _ _ (by simp [PState.view, ht])

/-- The frame of a step of thread `t`: the records of the other threads are kept, and every
other thread is as it was or keeps what it must. -/
theorem WaitInv.step_of (hI : WaitInv s) (t : Nat)
    (hsema : ∀ p l, s'.kids p = some l → SemaOk l)
    (hview : ∀ u, u ≠ t → s'.view u = s.view u ∨
      ∀ code pcb, s'.view u = some (code, pcb) → ThreadOk s' u code pcb)
    (hrec : ∀ u, u ≠ t → ∀ pid ex, Rec s u pid ex → Rec s' u pid ex)
    (hself : ∀ code pcb, s'.view t = some (code, pcb) → ThreadOk s' t code pcb) :
    WaitInv s' where
  sema := hsema
  thread u code pcb hu := by
    by_cases hut : u = t
    · subst hut
      exact hself code pcb hu
    · rcases hview u hut with hv | hok
      · exact (hI.thread u code pcb (hv ▸ hu)).of_rec (hrec u hut)
      · exact hok code pcb hu

theorem WaitInv.of_eq (hI : WaitInv s) (hk : s'.kids = s.kids) (hv : s'.view = s.view) :
    WaitInv s' where
  sema := hk ▸ hI.sema
  thread u code pcb hu :=
    (hI.thread u code pcb (hv ▸ hu)).of_rec fun _ _ h => h.of_kids (by rw [hk])

/-- A step of thread `t` that changes no record and no other thread. -/
theorem WaitInv.update (hI : WaitInv s) {v : Option (List PInstr × Option Nat)}
    (hk : s'.kids = s.kids) (hv : ∀ u, s'.view u = if u = t then v else s.view u)
    (hself : ∀ code pcb, v = some (code, pcb) → ThreadOk s' t code pcb) : WaitInv s' :=
  hI.step_of t (hk ▸ hI.sema) (fun u hu => Or.inl (by rw [hv, if_neg hu]))
    (fun _ _ _ _ h => by unfold Rec; rw [hk]; exact h)
    (fun code pcb h => hself code pcb (by rw [← h, hv, if_pos rfl]))

end Invariant

/-! ## What each instruction does to the records -/

section Records

variable {s : PState}

theorem CodeOk.waitFind {pid : Nat} {rest : List PInstr} (h : CodeOk (.waitFind pid :: rest)) :
    rest = [] := by
  rcases h with ⟨c, hc⟩ | ⟨_, hp⟩ | ⟨_, _, he⟩ | ⟨_, he⟩
  · cases c <;> simp_all [PCall.code, exitCode, List.suffix_cons_iff]
  · simp [waitTail, List.suffix_cons_iff] at hp
  all_goals simp at he

theorem CodeOk.waitSema {pid : Nat} {rest : List PInstr} (h : CodeOk (.waitSema pid :: rest)) :
    rest = [.acquireOwn, .waitRead pid] := by
  rcases h with ⟨c, hc⟩ | ⟨_, hp⟩ | ⟨_, _, he⟩ | ⟨_, he⟩
  · cases c <;> simp [PCall.code, exitCode, List.suffix_cons_iff] at hc
  · simp only [waitTail, List.suffix_cons_iff, List.cons.injEq, PInstr.waitSema.injEq,
      List.suffix_nil, reduceCtorEq, false_and, or_false] at hp
    rw [hp.2, hp.1]
  all_goals simp at he

/-- `thread_current ()->pcb` read through `withOwn`: a fault, or the thread's live PCB. -/
theorem withOwn_cases {th : PThread} {k : Nat → Pcb → Option (PEvent × PState)} {e : PEvent}
    {s' : PState} (h : s.withOwn th k = some (e, s')) :
    (∃ f, s' = s.failWith f) ∨
      ∃ p pcb, th.pcb = some p ∧ s.pcbOf p = some pcb ∧ k p pcb = some (e, s') := by
  unfold PState.withOwn at h
  split at h
  · cases h
    exact Or.inl ⟨_, rfl⟩
  · next p hp =>
    split at h
    · next pcb hpcb => exact Or.inr ⟨p, pcb, hp, hpcb, h⟩
    · cases h
      exact Or.inl ⟨_, rfl⟩

theorem kids_of_pcbOf {p : Nat} {pcb : Pcb} (h : s.pcbOf p = some pcb) :
    s.kids p = some pcb.children := by
  simp [PState.kids, h]

theorem kids_modifyPcb_of_ne {p u : Nat} (f : Pcb → Pcb) (hu : u ≠ p) :
    (s.modifyPcb p f).kids u = s.kids u := by
  rw [PState.kids_modifyPcb, if_neg hu]

/-- A change of a PCB that keeps every record's flag of exit up keeps `sema`. -/
theorem WaitInv.sema_modifyPcb (hI : WaitInv s) {p : Nat} {f : Pcb → Pcb}
    (hf : ∀ pcb, SemaOk pcb.children → SemaOk (f pcb).children) :
    ∀ q l, (s.modifyPcb p f).kids q = some l → SemaOk l := by
  intro q l hl
  rw [PState.kids_modifyPcb] at hl
  split at hl
  · obtain ⟨pcb, hp, rfl⟩ := Option.map_eq_some_iff.mp hl
    exact hf pcb (hI.sema p _ (kids_of_pcbOf hp))
  · exact hI.sema q l hl

/-- A change of one record that keeps its `pid`, its mark of waited and its mark of exited keeps
every `Rec`. -/
theorem Rec.mapChild {u pid : Nat} {ex : Bool} (hr : Rec s u pid ex) (q c : Nat)
    {g : ChildInfo → ChildInfo} (hg : ∀ ci, (g ci).pid = ci.pid)
    (hw : ∀ ci, ci.hasBeenWaited = true → (g ci).hasBeenWaited = true)
    (he : ∀ ci, ci.hasExited = true → (g ci).hasExited = true) :
    Rec (s.modifyPcb q (Pcb.mapChild c g)) u pid ex := by
  obtain ⟨l, ci, hl, hci, hwait, hex⟩ := hr
  by_cases hu : u = q
  · subst hu
    obtain ⟨pcb, hp, rfl⟩ := Option.map_eq_some_iff.mp hl
    refine ⟨updateChild c g pcb.children, if c = pid then g ci else ci,
      by simp [PState.kids_modifyPcb, hp, Pcb.mapChild], ?_, ?_, ?_⟩
    · rw [findChild_updateChild hg, hci]
      split <;> rfl
    · split
      · exact hw ci hwait
      · exact hwait
    · intro hx
      split
      · exact he ci (hex hx)
      · exact hex hx
  · exact ⟨l, ci, (kids_modifyPcb_of_ne _ hu).trans hl, hci, hwait, hex⟩

/-- The record of `pid` in the caller's PCB, changed by `g`. -/
theorem findChild_modifyPcb {p pid : Nat} {pcb : Pcb} {ci : ChildInfo} (hp : s.pcbOf p = some pcb)
    (hci : findChild pid pcb.children = some ci) {g : ChildInfo → ChildInfo}
    (hg : ∀ ci, (g ci).pid = ci.pid) :
    ∃ l, (s.modifyPcb p (Pcb.mapChild pid g)).kids p = some l ∧ findChild pid l = some (g ci) :=
  ⟨updateChild pid g pcb.children, by simp [PState.kids_modifyPcb, hp, Pcb.mapChild], by
    rw [findChild_updateChild hg, if_pos rfl, hci]
    rfl⟩

end Records

/-! ## Threads that start or end -/

section Fresh

variable {s s' : PState} {t : Nat}

/-- Thread `t` is in user mode with a PCB without children, or gone; nothing else changed. -/
structure FreshSelf (s s' : PState) (t : Nat) : Prop where
  others : ∀ u, u ≠ t → s'.view u = s.view u ∧ s'.kids u = s.kids u
  locks : ∀ u, u ≠ t → s'.lockOf u = s.lockOf u
  self : s'.view t = some ([], some t) ∨ s'.view t = none
  kids : ∀ l, s'.kids t = some l → l = []

theorem WaitInv.of_fresh (hI : WaitInv s) (h : FreshSelf s s' t) : WaitInv s' := by
  refine hI.step_of t (fun q l hl => ?_) (fun u hu => Or.inl (h.others u hu).1)
    (fun u hu _ _ hr => hr.of_kids (h.others u hu).2) (fun code pcb hv => ?_)
  · by_cases hq : q = t
    · subst hq
      rw [h.kids l hl]
      exact fun _ h => absurd h List.not_mem_nil
    · exact hI.sema q l ((h.others q hq).2 ▸ hl)
  · rcases h.self with h' | h' <;> rw [h'] at hv <;> cases hv
    exact .quiet (fun p hp => (Option.some.inj hp).symm) codeOk_nil (fun _ => List.not_mem_nil)

theorem FreshSelf.ite {c : Prop} [Decidable c] {a b : PEvent × PState} (ha : FreshSelf s a.2 t)
    (hb : FreshSelf s b.2 t) : FreshSelf s (if c then a else b).2 t := by
  split
  · exact ha
  · exact hb

/-- `start_process` either runs the process, with a PCB whose `children` is empty, or frees the
PCB and ends the thread. -/
theorem startProcess_fresh (creator name : Nat) :
    FreshSelf s (s.startProcess t creator name).2 t := by
  unfold PState.startProcess
  dsimp only
  refine FreshSelf.ite ⟨fun u hu => by simp [hu], fun u hu => by simp [hu, PState.lockOf_setSlot],
    by simp [PThread.user], fun l hl => ?_⟩
    ⟨fun u hu => by simp [hu], fun u hu => by simp [hu, PState.lockOf_setSlot], by simp,
      fun l hl => by simp at hl⟩
  simpa [newPcb] using hl.symm

theorem forkChild_fresh (creator : Nat) : FreshSelf s (s.forkChild t creator).2 t := by
  unfold PState.forkChild
  dsimp only
  split
  · refine ⟨fun u hu => by simp [hu], fun u hu => by simp [hu, PState.lockOf_setSlot],
      by simp [PThread.user], fun l hl => ?_⟩
    simpa [newPcb] using hl.symm
  · exact ⟨fun u hu => by simp [hu], fun u hu => by simp [hu, PState.lockOf_setSlot], by simp,
      fun l hl => by simp at hl⟩

/-- `free (pcb_to_free)` and `thread_exit`. -/
theorem freePcb_fresh (k b : Nat) :
    FreshSelf s (({ s.setSlot t .freed with blocks := b, kernelPages := k }).setThread t none) t :=
  ⟨fun u hu => ⟨by simp [hu], by simp [hu]⟩, fun u hu => by simp [hu, PState.lockOf_setSlot],
    Or.inr (by simp), fun l hl => by simp at hl⟩

end Fresh

/-! ## Every step keeps the invariant -/

section Step

variable {s s' : PState} {t : Nat} {th : PThread} {rest : List PInstr} {e : PEvent}

/-- The thread moves on to `rest`, in a state with the same records and other threads. -/
theorem WaitInv.cont {i : PInstr} (hI : WaitInv s) (hth : ThreadOk s t (i :: rest) th.pcb)
    (hi : i ≠ .acquireOwn) (hi' : ∀ pid, i ≠ .waitSema pid) (hk : s'.kids = s.kids)
    (hv : ∀ u, s'.view u = if u = t then some (rest, th.pcb) else s.view u) : WaitInv s' :=
  hI.update hk hv fun _ _ h => by
    cases h
    exact hth.next hi hi'

/-- The call returns to user mode, in a state with the same records and other threads. -/
theorem WaitInv.ret {i : PInstr} (hI : WaitInv s) (hth : ThreadOk s t (i :: rest) th.pcb)
    (hk : s'.kids = s.kids)
    (hv : ∀ u, s'.view u = if u = t then some ([], th.pcb) else s.view u) :
    WaitInv s' :=
  hI.update hk hv fun _ _ h => by
    cases h
    exact hth.ret

/-- A step of thread `t` that changes one record, of `c` in slot `q`, by a `g` that keeps its
`pid` and its marks, and keeps `exit_sema` up only for a child that has exited. -/
theorem WaitInv.mapChild (hI : WaitInv s) (q c : Nat) (g : ChildInfo → ChildInfo)
    (hg : ∀ ci, (g ci).pid = ci.pid)
    (hw : ∀ ci, ci.hasBeenWaited = true → (g ci).hasBeenWaited = true)
    (he : ∀ ci, ci.hasExited = true → (g ci).hasExited = true)
    (hsema : ∀ ci, (0 < ci.exitSema → ci.hasExited = true) →
      0 < (g ci).exitSema → (g ci).hasExited = true)
    (hk : s'.kids = (s.modifyPcb q (Pcb.mapChild c g)).kids)
    (hv : ∀ u, u ≠ t → s'.view u = s.view u)
    (hself : ∀ code pcb, s'.view t = some (code, pcb) → ThreadOk s' t code pcb) : WaitInv s' :=
  hI.step_of t (hk ▸ hI.sema_modifyPcb fun _ h => h.updateChild c hsema)
    (fun u hu => Or.inl (hv u hu))
    (fun _ _ _ _ hr => (hr.mapChild q c hg hw he).of_kids (by rw [hk]))
    hself

theorem ThreadOk.created {u : Nat} {code : List PInstr} (hc : CodeOk code)
    (hq : ∀ pid, PInstr.waitRead pid ∉ code) : ThreadOk s u code none :=
  .quiet (fun _ h => by cases h) hc hq

/-- `thread_create` by `t`: thread `c` is made to run `[x]`, and `t` goes on to `rest`. -/
theorem WaitInv.spawn {i x : PInstr} (hI : WaitInv s) (hth : ThreadOk s t (i :: rest) th.pcb)
    (hi : i ≠ .acquireOwn) (hi' : ∀ pid, i ≠ .waitSema pid) (c : Nat) (hx : CodeOk [x])
    (hxr : ∀ pid, x ≠ .waitRead pid) (hk : s'.kids = s.kids)
    (hv : ∀ u, s'.view u = if u = t then some (rest, th.pcb)
      else if u = c then some ([x], none) else s.view u) : WaitInv s' :=
  hI.step_of t (hk ▸ hI.sema)
    (fun u hu => by
      by_cases huc : u = c
      · refine Or.inr fun code pcb h => ?_
        rw [hv, if_neg hu, if_pos huc] at h
        cases h
        exact .created hx fun pid hm => hxr pid (List.mem_singleton.mp hm).symm
      · exact Or.inl (by rw [hv, if_neg hu, if_neg huc]))
    (fun _ _ _ _ hr => hr.of_kids (by rw [hk]))
    fun code pcb h => by
      rw [hv, if_pos rfl] at h
      cases h
      exact hth.next hi hi'

theorem semaOk_newChildInfo (pid cp : Nat) : SemaOk [newChildInfo pid cp] := by
  simp [SemaOk, newChildInfo]

/-- `process_wait`'s search of `children` keeps the invariant. -/
theorem waitInv_waitFind {pid : Nat} (hI : WaitInv s) (ht : s.threads t = some th)
    (hcode : th.code = .waitFind pid :: rest)
    (h : s.exec t th rest (.waitFind pid) = some (e, s')) :
    WaitInv s' := by
  have hth : ThreadOk s t (.waitFind pid :: rest) th.pcb := hcode ▸ hI.threadOk ht
  have hrest : rest = [] := hth.shape.waitFind
  subst hrest
  simp only [PState.exec, PState.ret, PState.cont] at h
  rcases withOwn_cases h with ⟨f, rfl⟩ | ⟨p, pcb, hp, hpcb, h⟩
  · exact hI.of_eq (by simp) (by simp)
  have hpt : p = t := hth.own p hp
  subst hpt
  split at h
  · cases h
    exact hI.ret hth (by simp) (fun u => by simp)
  · next ci hci =>
    split at h
    · cases h
      exact hI.ret hth (by simp) (fun u => by simp)
    · -- the record is marked waited; the search goes on to the read or to `sema_down`
      obtain ⟨l, hl, hfind⟩ := findChild_modifyPcb (s := s) hpcb hci
        (g := fun ci => { ci with hasBeenWaited := true }) (fun _ => rfl)
      split at h
      · next hexited =>
        cases h
        refine hI.mapChild (t := p) p pid (fun ci => { ci with hasBeenWaited := true })
          (fun _ => rfl) (fun _ _ => rfl) (fun _ h => h) (fun _ h => h) (by simp)
          (fun u hu => by simp [hu]) fun code pcb' hv => ?_
        simp at hv
        obtain ⟨rfl, rfl⟩ := hv
        exact .of_woken hp (Or.inr rfl) ⟨l, _, by simpa using hl, hfind, rfl, fun _ => hexited⟩
      · cases h
        refine hI.mapChild (t := p) p pid (fun ci => { ci with hasBeenWaited := true })
          (fun _ => rfl) (fun _ _ => rfl) (fun _ h => h) (fun _ h => h) (by simp)
          (fun u hu => by simp [hu]) fun code pcb' hv => ?_
        simp at hv
        obtain ⟨rfl, rfl⟩ := hv
        exact .of_blocked hp ⟨l, _, by simpa using hl, hfind, rfl, nofun⟩

/-- `sema_down (&matching_child->exit_sema)` returns only for a child that has exited. -/
theorem waitInv_waitSema {pid : Nat} (hI : WaitInv s) (ht : s.threads t = some th)
    (hcode : th.code = .waitSema pid :: rest)
    (h : s.exec t th rest (.waitSema pid) = some (e, s')) :
    WaitInv s' := by
  have hth : ThreadOk s t (.waitSema pid :: rest) th.pcb := hcode ▸ hI.threadOk ht
  have hrest : rest = [.acquireOwn, .waitRead pid] := hth.shape.waitSema
  subst hrest
  simp only [PState.exec, PState.cont] at h
  rcases withOwn_cases h with ⟨f, rfl⟩ | ⟨p, pcb, hp, hpcb, h⟩
  · exact hI.of_eq (by simp) (by simp)
  have hpt : p = t := hth.own p hp
  subst hpt
  split at h
  · cases h
    exact hI.of_eq (by simp) (by simp)
  · next ci hci =>
    split at h
    · cases h
    · next hup =>
      cases h
      -- the record `sema_down` saw is the one the search marked, and its semaphore was up
      have hwaited : ci.hasBeenWaited = true := by
        obtain ⟨l, ci', hl, hci', hw, -⟩ := hth.blocked pid rfl
        rw [kids_of_pcbOf hpcb] at hl
        cases hl
        rw [hci] at hci'
        cases hci'
        exact hw
      have hexited : ci.hasExited = true :=
        hI.sema p _ (kids_of_pcbOf hpcb) ci (List.mem_of_find?_eq_some hci) (Nat.pos_of_ne_zero hup)
      obtain ⟨l, hl, hfind⟩ := findChild_modifyPcb (s := s) hpcb hci
        (g := fun ci => { ci with exitSema := ci.exitSema - 1 }) (fun _ => rfl)
      refine hI.mapChild (t := p) p pid (fun ci => { ci with exitSema := ci.exitSema - 1 })
        (fun _ => rfl) (fun _ h => h) (fun _ h => h)
        (fun _ h hpos => h (lt_of_lt_of_le hpos (Nat.sub_le _ _))) (by simp)
        (fun u hu => by simp [hu]) fun code pcb' hv => ?_
      simp at hv
      obtain ⟨rfl, rfl⟩ := hv
      exact .of_woken hp (Or.inl rfl)
        ⟨l, _, by simpa using hl, hfind, hwaited, fun _ => hexited⟩

/-- The child's `process_exit` marks its record in the parent exited and ups the semaphore. -/
theorem waitInv_notify (hI : WaitInv s) (ht : s.threads t = some th)
    (hcode : th.code = .notify :: rest) (h : s.exec t th rest .notify = some (e, s')) :
    WaitInv s' := by
  have hth : ThreadOk s t (.notify :: rest) th.pcb := hcode ▸ hI.threadOk ht
  simp only [PState.exec, PState.cont] at h
  rcases withOwn_cases h with ⟨f, rfl⟩ | ⟨p, pcb, hp, hpcb, h⟩
  · exact hI.of_eq (by simp) (by simp)
  split at h
  · cases h
    exact hI.of_eq (by simp) (by simp)
  · next q hq =>
    cases h
    refine hI.mapChild (t := t) q t
      (fun ci => { ci with exitStatus := pcb.exitStatus, hasExited := true, pcb := none,
                           exitSema := ci.exitSema + 1 })
      (fun _ => rfl) (fun _ h => h) (fun _ _ => rfl) (fun _ _ _ => rfl) (by simp)
      (fun u hu => by simp [hu]) fun code pcb' hv => ?_
    simp at hv
    obtain ⟨rfl, rfl⟩ := hv
    exact hth.next (by simp) (by simp)

/-- `process_exit`'s loop destroys the records; other PCBs lose only their `parent_pcb`. -/
theorem waitInv_orphan (hI : WaitInv s) (ht : s.threads t = some th)
    (hcode : th.code = .orphan :: rest) (h : s.exec t th rest .orphan = some (e, s')) :
    WaitInv s' := by
  have hth : ThreadOk s t (.orphan :: rest) th.pcb := hcode ▸ hI.threadOk ht
  simp only [PState.exec, PState.cont] at h
  rcases withOwn_cases h with ⟨f, rfl⟩ | ⟨p, pcb, hp, hpcb, h⟩
  · exact hI.of_eq (by simp) (by simp)
  have hpt : p = t := hth.own p hp
  subst hpt
  cases h
  obtain ⟨hv₁, hk₁⟩ := PState.orphanAll_frame pcb.children s
  refine hI.step_of p (fun q l hl => ?_) (fun u hu => Or.inl (by simp [hu, hv₁]))
    (fun u hu _ _ hr => hr.of_kids (by simp [kids_modifyPcb_of_ne _ hu, hk₁]))
    fun code pcb' hv => ?_
  · simp only [PState.kids_setThread, PState.kids_modifyPcb, hk₁] at hl
    split at hl
    · obtain ⟨_, _, rfl⟩ := Option.map_eq_some_iff.mp hl
      exact fun _ h => absurd h List.not_mem_nil
    · exact hI.sema q l hl
  · simp at hv
    obtain ⟨rfl, rfl⟩ := hv
    exact hth.next (by simp) (by simp)

/-- Every instruction keeps the invariant. -/
theorem waitInv_exec {i : PInstr} (hI : WaitInv s) (ht : s.threads t = some th)
    (hcode : th.code = i :: rest) (h : s.exec t th rest i = some (e, s')) : WaitInv s' := by
  have hth : ThreadOk s t (i :: rest) th.pcb := hcode ▸ hI.threadOk ht
  cases i with
  | waitFind pid => exact waitInv_waitFind hI ht hcode h
  | waitSema pid => exact waitInv_waitSema hI ht hcode h
  | notify => exact waitInv_notify hI ht hcode h
  | orphan => exact waitInv_orphan hI ht hcode h
  | startProcess creator name =>
    obtain rfl : (s.startProcess t creator name).2 = s' := congrArg Prod.snd (Option.some.inj h)
    exact hI.of_fresh (startProcess_fresh creator name)
  | forkChild creator =>
    obtain rfl : (s.forkChild t creator).2 = s' := congrArg Prod.snd (Option.some.inj h)
    exact hI.of_fresh (forkChild_fresh creator)
  | copyName =>
    simp only [PState.exec, PState.ret, PState.cont] at h
    split at h <;> cases h
    · exact hI.ret hth (by simp) (fun u => by simp)
    · exact hI.cont hth (by simp) (by simp) (by simp) (fun u => by simp)
  | acquireOwn =>
    simp only [PState.exec, PState.cont] at h
    split at h
    · cases h
      exact hI.of_eq (by simp) (by simp)
    · obtain ⟨s₁, hacq, he⟩ := Option.map_eq_some_iff.mp h
      obtain ⟨-, rfl⟩ := Prod.mk.inj he
      obtain ⟨hv₁, hk₁⟩ := s.acquire_frame hacq
      -- past the `lock_acquire` in `process_wait`'s tail the record is unchanged
      exact hI.update (t := t) (v := some (rest, th.pcb)) (by simp [hk₁])
        (fun u => by simp [hv₁]) fun _ _ hv => by
        cases hv
        exact hth.acquired.of_rec fun _ _ hr => hr.of_kids (by simp [hk₁])
  | releaseOwn =>
    simp only [PState.exec, PState.cont] at h
    split at h <;> cases h
    · exact hI.of_eq (by simp) (by simp)
    · exact hI.cont hth (by simp) (by simp) (by simp) (fun u => by simp)
  | createExec name =>
    simp only [PState.exec, PState.ret, PState.cont] at h
    split at h <;> cases h
    · exact hI.ret hth (by simp) (fun u => by simp)
    · -- the new thread, about to run `start_process`
      exact hI.spawn hth (by simp) (by simp) s.nextTid (Or.inr (Or.inr (Or.inl ⟨t, name, rfl⟩)))
        (by simp) (by simp) (fun u => by simp [PThread.created])
  | createFork =>
    simp only [PState.exec, PState.ret, PState.cont] at h
    split at h <;> cases h
    · exact hI.ret hth (by simp) (fun u => by simp)
    · -- the new thread, about to run `fork_child_process`
      exact hI.spawn hth (by simp) (by simp) s.nextTid (Or.inr (Or.inr (Or.inr ⟨t, rfl⟩)))
        (by simp) (by simp) (fun u => by simp [PThread.created])
  | awaitChild fork =>
    simp only [PState.exec, PState.ret] at h
    split at h
    · cases h
    · cases h
      exact hI.of_eq (by simp) (by simp)
    · cases h
      exact hI.ret hth (by simp) (fun u => by simp)
    · next cp p _ hp =>
      cases h
      -- `list_push_back` of the new record, in the caller's own PCB
      have hpt : p = t := hth.own p hp
      subst hpt
      have hsema := hI.sema_modifyPcb (p := p) (f := fun pcb =>
        { pcb with children := pcb.children ++ [newChildInfo th.childTid cp] })
        fun _ h => h.append (semaOk_newChildInfo _ _)
      refine hI.step_of p (by simpa using hsema) (fun u hu => Or.inl (by simp [hu]))
        (fun u hu _ _ hr => hr.of_kids (by simp [kids_modifyPcb_of_ne _ hu])) fun code pcb hv => ?_
      simp at hv
      obtain ⟨rfl, rfl⟩ := hv
      exact hth.ret
  | waitRead pid =>
    simp only [PState.exec, PState.ret] at h
    rcases withOwn_cases h with ⟨f, rfl⟩ | ⟨p, pcb, hp, hpcb, h⟩
    · exact hI.of_eq (by simp) (by simp)
    split at h <;> cases h
    · exact hI.of_eq (by simp) (by simp)
    · exact hI.ret hth (by simp) (fun u => by simp)
  | setStatus status =>
    simp only [PState.exec, PState.cont] at h
    rcases withOwn_cases h with ⟨f, rfl⟩ | ⟨p, pcb, hp, hpcb, h⟩
    · exact hI.of_eq (by simp) (by simp)
    cases h
    exact hI.cont hth (by simp) (by simp) (by simp) (fun u => by simp)
  | exitTestParent =>
    simp only [PState.exec, PState.cont] at h
    split at h
    · cases h
      exact hI.update (t := t) (v := none) (by simp) (fun u => by simp) fun _ _ h => by cases h
    · rcases withOwn_cases h with ⟨f, rfl⟩ | ⟨p, pcb, hp, hpcb, h⟩
      · exact hI.of_eq (by simp) (by simp)
      split at h <;> cases h
      · -- no parent: `process_exit` skips to its own `children_lock`
        exact hI.update (t := t) (v := some (rest.drop 4, th.pcb)) (by simp) (fun u => by simp)
          fun _ _ hv => by
            cases hv
            exact .quiet hth.own (hth.shape.tail.suffix (List.drop_suffix 4 rest)) fun pid hm =>
              hth.next_quiet (by simp) (by simp) pid (List.mem_of_mem_drop hm)
      · exact hI.cont hth (by simp) (by simp) (by simp) (fun u => by simp)
  | loadParent =>
    simp only [PState.exec, PState.cont] at h
    rcases withOwn_cases h with ⟨f, rfl⟩ | ⟨p, pcb, hp, hpcb, h⟩
    · exact hI.of_eq (by simp) (by simp)
    cases h
    exact hI.cont hth (by simp) (by simp) (by simp) (fun u => by simp)
  | acquireParent =>
    simp only [PState.exec, PState.cont] at h
    split at h
    · cases h
      exact hI.of_eq (by simp) (by simp)
    · obtain ⟨s₁, hacq, he⟩ := Option.map_eq_some_iff.mp h
      obtain ⟨-, rfl⟩ := Prod.mk.inj he
      obtain ⟨hv₁, hk₁⟩ := s.acquire_frame hacq
      exact hI.cont hth (by simp) (by simp) (by simp [hk₁]) (fun u => by simp [hv₁])
  | releaseParent =>
    simp only [PState.exec, PState.cont] at h
    rcases withOwn_cases h with ⟨f, rfl⟩ | ⟨p, pcb, hp, hpcb, h⟩
    · exact hI.of_eq (by simp) (by simp)
    split at h <;> cases h
    · exact hI.of_eq (by simp) (by simp)
    · exact hI.cont hth (by simp) (by simp) (by simp) (fun u => by simp)
  | freePcb =>
    simp only [PState.exec] at h
    split at h <;> cases h
    · exact hI.of_eq (by simp) (by simp)
    · next p hp =>
      have hpt : p = t := hth.own p hp
      subst hpt
      exact hI.of_fresh (freePcb_fresh _ _)

/-- Every action keeps the invariant. -/
theorem waitInv_act {a : PAction} (hI : WaitInv s) (h : s.act a = some (e, s')) : WaitInv s' := by
  cases a with
  | call t c =>
    simp only [PState.act, PState.cont] at h
    split at h
    · next th _ ht =>
      split at h
      · cases h
        exact hI.update (t := t) (v := some (c.code, th.pcb)) (by simp) (fun u => by simp)
          fun _ _ hv => by
          cases hv
          exact .quiet (hI.threadOk ht).own (.call c) (waitRead_not_mem_call c)
      · cases h
    · cases h
  | step t =>
    simp only [PState.act] at h
    split at h
    · next th _ ht =>
      split at h
      · next i rest hcode => exact waitInv_exec hI ht hcode h
      · cases h
    · cases h

end Step

/-! ## Runs from boot -/

theorem waitInv_boot (kp up : Nat) (disk : Nat → Option (List Nat)) :
    WaitInv (PState.boot kp up disk) where
  sema p l hl := by
    by_cases hp : p = 1 <;> simp [PState.boot, PState.kids, PState.pcbOf, hp, newPcb] at hl
    subst hl
    exact fun _ h => absurd h List.not_mem_nil
  thread t code pcb hv := by
    by_cases ht : t = 1 <;> simp [PState.boot, PState.view, ht, PThread.user] at hv
    obtain ⟨rfl, rfl⟩ := hv
    subst ht
    exact .quiet (fun p hp => (Option.some.inj hp).symm) codeOk_nil fun _ => List.not_mem_nil

/-- Every state reachable from boot keeps the invariant. -/
theorem waitInv_of_run {kp up : Nat} {disk : Nat → Option (List Nat)} {evs : List PEvent}
    {s : PState} (h : Lts.Run PStep (PState.boot kp up disk) evs s) : WaitInv s :=
  Lts.Run.inv WaitInv (waitInv_boot kp up disk) (fun _ _ _ hI ⟨_, ha⟩ => waitInv_act hI ha) h

/-- Over every run from boot, when `process_wait (pid)` is about to read the status, the caller's
record of `pid` is marked waited and exited, and the call returns the status that record holds. -/
theorem wait_returns_exited_status {kp up : Nat} {disk : Nat → Option (List Nat)}
    {evs : List PEvent} {s : PState} (h : Lts.Run PStep (PState.boot kp up disk) evs s)
    (hf : s.fault = none) {t pid : Nat} {th : PThread} (ht : s.threads t = some th)
    (hcode : th.code = [.waitRead pid]) :
    ∃ pcb ci, s.pcbOf t = some pcb ∧ findChild pid pcb.children = some ci ∧
      ci.hasBeenWaited = true ∧ ci.hasExited = true ∧
      ∃ s', s.act (.step t) = some (.returned t ci.exitStatus, s') := by
  have hth := (waitInv_of_run h).threadOk ht
  rw [hcode] at hth
  have hp : th.pcb = some t := hth.waiter pid List.mem_cons_self
  obtain ⟨l, ci, hl, hfind, hw, hex⟩ := hth.woken pid (Or.inr rfl)
  obtain ⟨pcb, hpcb, rfl⟩ := Option.map_eq_some_iff.mp hl
  refine ⟨pcb, ci, hpcb, hfind, hw, hex rfl, ((s.release t t).ret t th ci.exitStatus).2, ?_⟩
  simp [PState.act, hf, ht, hcode, PState.exec, PState.withOwn, hp, hpcb, hfind, PState.ret]

/-- Process 1 runs 2 and waits for it before it exits: the search finds the child running, the
parent blocks in `sema_down`, 2 exits with status 3, and 1 takes its lock again. -/
def waitBlockSchedule : List PAction :=
  [.call 1 (.exec 7), .step 1, .step 1, .step 1, .step 2, .step 1,
    .call 1 (.wait 2), .step 1, .step 1,
    .call 2 (.exit 3), .step 2, .step 2, .step 2, .step 2, .step 2, .step 2,
    .step 1, .step 1]

theorem wait_returns_exited_status_blocked :
    ∃ evs s, Lts.Run PStep (PState.boot 20 20 oneFile) evs s ∧
      ∃ pcb ci, s.pcbOf 1 = some pcb ∧ findChild 2 pcb.children = some ci ∧
        ci.hasBeenWaited = true ∧ ci.hasExited = true ∧
        ∃ s', s.act (.step 1) = some (.returned 1 ci.exitStatus, s') := by
  have hreplay : Lts.replayEndsIn PState.act (PState.boot 20 20 oneFile) waitBlockSchedule
      (fun _ s => s.fault = none ∧ (s.threads 1).map PThread.code = some [.waitRead 2]) =
        true := by
    decide
  obtain ⟨evs, s, hrun, hf, hcode⟩ := Lts.exists_run_of_replayEndsIn hreplay
  obtain ⟨th, ht, hth⟩ := Option.map_eq_some_iff.mp hcode
  exact ⟨evs, s, hrun, wait_returns_exited_status hrun hf ht hth⟩

/-! ## `children_lock` over every run -/

/-- The instructions a thread runs holding its own `children_lock`: `thread_create` and the
`sema_down (&load_sema)` of `process_execute` and `process_fork`, `process_wait`'s search and its
read of the status, and `process_exit`'s loop over `children` up to the release. -/
def PInstr.underOwnLock : PInstr → Bool
  | .createExec _ | .createFork | .awaitChild _ | .waitFind _ | .waitRead _ | .orphan
  | .releaseOwn => true
  | _ => false

/-- The next instruction of `code` runs under the thread's own `children_lock`. -/
def UnderOwnLock (code : List PInstr) : Prop :=
  ∃ i rest, code = i :: rest ∧ i.underOwnLock = true

/-- Only the `lock_acquire` of the thread's own lock, or an instruction already under it, comes
before one under it. -/
theorem CodeOk.underOwnLock_tail {i : PInstr} {rest : List PInstr} (h : CodeOk (i :: rest))
    (hr : UnderOwnLock rest) : i = .acquireOwn ∨ i.underOwnLock = true := by
  obtain ⟨j, rest', rfl, hj⟩ := hr
  rcases h with ⟨c, hc⟩ | ⟨pid, hp⟩ | ⟨_, _, he⟩ | ⟨_, he⟩
  · cases c <;> simp [PCall.code, exitCode, List.suffix_cons_iff] at hc <;>
      grind [PInstr.underOwnLock]
  · simp [waitTail, List.suffix_cons_iff] at hp
    grind [PInstr.underOwnLock]
  all_goals simp at he

theorem not_underOwnLock_nil : ¬ UnderOwnLock [] := fun ⟨_, _, h, _⟩ => by cases h

theorem CodeOk.not_underOwnLock_tail {i : PInstr} {rest : List PInstr} (h : CodeOk (i :: rest))
    (hi : i ≠ .acquireOwn) (hi' : i.underOwnLock = false) : ¬ UnderOwnLock rest := fun hr => by
  rcases h.underOwnLock_tail hr with h1 | h1
  · exact hi h1
  · simp [hi'] at h1

/-- After `process_exit`'s `lock_release` of its own lock comes only `free (pcb_to_free)`. -/
theorem CodeOk.releaseOwn {rest : List PInstr} (h : CodeOk (.releaseOwn :: rest)) :
    ¬ UnderOwnLock rest := by
  rintro ⟨j, rest', rfl, hj⟩
  rcases h with ⟨c, hc⟩ | ⟨_, hp⟩ | ⟨_, _, he⟩ | ⟨_, he⟩
  · cases c <;> simp [PCall.code, exitCode, List.suffix_cons_iff] at hc
    all_goals
      obtain ⟨rfl, -⟩ := hc
      simp [PInstr.underOwnLock] at hj
  · simp [waitTail, List.suffix_cons_iff] at hp
  all_goals simp at he

/-- `process_exit` up to its test of the parent pointer is the start of `process_exit`. -/
theorem CodeOk.exitTestParent {rest : List PInstr} (h : CodeOk (.exitTestParent :: rest)) :
    rest = exitCode.tail := by
  rcases h with ⟨c, hc⟩ | ⟨_, hp⟩ | ⟨_, _, he⟩ | ⟨_, he⟩
  · cases c <;> simp [PCall.code, exitCode, List.suffix_cons_iff] at hc <;> simp [hc, exitCode]
  · simp [waitTail, List.suffix_cons_iff] at hp
  all_goals simp at he

/-- In a state without a fault, a thread about to run under its own `children_lock` holds it. -/
def LockInv (s : PState) : Prop :=
  s.fault = none → ∀ t code pcb, s.view t = some (code, pcb) → UnderOwnLock code →
    s.lockOf t = some (some t)

section LockStep

variable {s s' : PState} {t : Nat} {th : PThread} {rest : List PInstr} {e : PEvent}

/-- The frame of a step of thread `t` for the locks: every other thread is as it was or not under
its lock, and every lock another thread holds stays with it. -/
theorem LockInv.step_of (hL : LockInv s) (hf : s.fault = none) (t : Nat)
    (hview : ∀ u, u ≠ t → s'.view u = s.view u ∨
      ∀ code pcb, s'.view u = some (code, pcb) → ¬ UnderOwnLock code)
    (hlock : ∀ u, u ≠ t → s.lockOf u = some (some u) → s'.lockOf u = some (some u))
    (hself : s'.fault = none → ∀ code pcb, s'.view t = some (code, pcb) →
      UnderOwnLock code → s'.lockOf t = some (some t)) : LockInv s' := by
  intro hf' u code pcb hu hown
  by_cases hut : u = t
  · subst hut
    exact hself hf' code pcb hu hown
  · rcases hview u hut with hv | hq
    · exact hlock u hut (hL hf u code pcb (hv ▸ hu) hown)
    · exact absurd hown (hq code pcb hu)

/-- A step of thread `t` that changes no other thread. -/
theorem LockInv.update (hL : LockInv s) (hf : s.fault = none)
    {v : Option (List PInstr × Option Nat)}
    (hv : ∀ u, s'.view u = if u = t then v else s.view u)
    (hlock : ∀ u, u ≠ t → s.lockOf u = some (some u) → s'.lockOf u = some (some u))
    (hself : s'.fault = none → ∀ code pcb, v = some (code, pcb) → UnderOwnLock code →
      s'.lockOf t = some (some t)) : LockInv s' :=
  hL.step_of hf t (fun u hu => Or.inl (by rw [hv, if_neg hu])) hlock
    fun hf' code pcb h => hself hf' code pcb (by rw [← h, hv, if_pos rfl])

/-- The thread goes on to code not under its lock. -/
theorem LockInv.quiet (hL : LockInv s) (hf : s.fault = none) (t : Nat) (code : List PInstr)
    (pcb : Option Nat) (hq : ¬ UnderOwnLock code)
    (hv : ∀ u, s'.view u = if u = t then some (code, pcb) else s.view u)
    (hlock : ∀ u, u ≠ t → s.lockOf u = some (some u) → s'.lockOf u = some (some u)) :
    LockInv s' :=
  hL.update hf hv hlock fun _ _ _ h hown => by
    cases h
    exact absurd hown hq

/-- The thread goes on under its lock, which the step leaves as it was. -/
theorem LockInv.kept (hL : LockInv s) (hf : s.fault = none) (t : Nat) (code : List PInstr)
    (pcb : Option Nat) (hheld : s.lockOf t = some (some t)) (hk : s'.lockOf t = s.lockOf t)
    (hv : ∀ u, s'.view u = if u = t then some (code, pcb) else s.view u)
    (hlock : ∀ u, u ≠ t → s.lockOf u = some (some u) → s'.lockOf u = some (some u)) :
    LockInv s' :=
  hL.update hf hv hlock fun _ _ _ _ _ => hk.trans hheld

theorem lockInv_of_fault (h : s.fault ≠ none) : LockInv s := fun hf => absurd hf h

/-- A lock its holder keeps through another thread's `lock_acquire`. -/
theorem acquire_lockOf_held {q u : Nat} {s₁ : PState} (h : s.acquire t q = some s₁)
    (hu : s.lockOf u = some (some u)) : s₁.lockOf u = some (some u) := by
  rw [s.acquire_lockOf h]
  split
  · next hc =>
    rw [← hc.1, hu] at hc
    simp at hc
  · exact hu

theorem LockInv.of_fresh (hL : LockInv s) (hf : s.fault = none) (h : FreshSelf s s' t) :
    LockInv s' :=
  hL.step_of hf t (fun u hu => Or.inl (h.others u hu).1) (fun u hu hl => (h.locks u hu).trans hl)
    fun _ code pcb hv hown => by
      rcases h.self with h' | h' <;> rw [h'] at hv <;> cases hv
      exact absurd hown not_underOwnLock_nil

theorem not_underOwnLock_singleton {x : PInstr} (hx : x.underOwnLock = false) :
    ¬ UnderOwnLock [x] := by
  rintro ⟨i, rest, h, hi⟩
  cases h
  simp [hx] at hi

/-- `thread_create` by `t`, which holds its own lock and keeps it: thread `c` is made to run
`[x]`, not under a lock. -/
theorem LockInv.spawn {x : PInstr} (hL : LockInv s) (hf : s.fault = none) (c : Nat)
    (hxl : x.underOwnLock = false) (hheld : s.lockOf t = some (some t))
    (hlock : s'.lockOf = s.lockOf)
    (hv : ∀ u, u ≠ t → s'.view u = if u = c then some ([x], none) else s.view u) :
    LockInv s' :=
  hL.step_of hf t
    (fun u hu => by
      by_cases huc : u = c
      · refine Or.inr fun code pcb h => ?_
        rw [hv u hu, if_pos huc] at h
        cases h
        exact not_underOwnLock_singleton hxl
      · exact Or.inl (by rw [hv u hu, if_neg huc]))
    (fun u _ h => by rw [hlock]; exact h) fun _ _ _ _ _ => by rw [hlock]; exact hheld

theorem not_underOwnLock_call (c : PCall) : ¬ UnderOwnLock c.code := by
  rintro ⟨i, rest, hc, hi⟩
  cases c <;> simp [PCall.code, exitCode] at hc <;> simp [← hc.1, PInstr.underOwnLock] at hi

/-- Every instruction keeps the locks: a thread takes its own lock only through `lock_acquire`,
and another thread's `lock_release` of a lock it does not hold changes nothing. -/
theorem lockInv_exec {i : PInstr} (hW : WaitInv s) (hL : LockInv s) (hf : s.fault = none)
    (ht : s.threads t = some th) (hcode : th.code = i :: rest)
    (h : s.exec t th rest i = some (e, s')) : LockInv s' := by
  have hth : ThreadOk s t (i :: rest) th.pcb := hcode ▸ hW.threadOk ht
  have hheld : i.underOwnLock = true → s.lockOf t = some (some t) := fun hi =>
    hL hf t (i :: rest) th.pcb (by simp [PState.view, ht, hcode]) ⟨i, rest, rfl, hi⟩
  have hnext : i ≠ .acquireOwn → i.underOwnLock = false → ¬ UnderOwnLock rest :=
    hth.shape.not_underOwnLock_tail
  cases i with
  | copyName =>
    simp only [PState.exec, PState.ret, PState.cont] at h
    split at h <;> cases h
    · exact hL.quiet hf t _ th.pcb not_underOwnLock_nil (fun u => by simp)
        (fun u _ h => by simpa using h)
    · exact hL.quiet hf t _ th.pcb (hnext (by simp) rfl) (fun u => by simp)
        (fun u _ h => by simpa using h)
  | acquireOwn =>
    simp only [PState.exec, PState.cont] at h
    split at h
    · cases h
      exact lockInv_of_fault (by simp [PState.failWith])
    · next p hp =>
      obtain ⟨s₁, hacq, he⟩ := Option.map_eq_some_iff.mp h
      obtain ⟨-, rfl⟩ := Prod.mk.inj he
      have hpt : p = t := hth.own p hp
      subst hpt
      -- the thread now holds its own lock
      exact hL.update (t := p) (v := some (rest, th.pcb)) hf
        (fun u => by simp [(s.acquire_frame hacq).1])
        (fun u _ hu => by simpa using acquire_lockOf_held hacq hu)
        fun hf' _ _ _ _ => by
          simpa using s.acquire_self hacq (by simpa [PState.setThread] using hf')
  | releaseOwn =>
    simp only [PState.exec, PState.cont] at h
    split at h <;> cases h
    · exact lockInv_of_fault (by simp [PState.failWith])
    · exact hL.quiet hf t _ th.pcb hth.shape.releaseOwn (fun u => by simp)
        (fun u hu h => by simp [h, hu])
  | createExec name =>
    simp only [PState.exec, PState.ret, PState.cont] at h
    split at h <;> cases h
    · exact hL.quiet hf t _ th.pcb not_underOwnLock_nil (fun u => by simp)
        (fun u _ h => by simpa using h)
    · -- the new thread is not under a lock; the caller keeps its own
      exact hL.spawn (x := .startProcess t name) hf s.nextTid rfl (hheld rfl) (by simp)
        (fun u hu => by simp [hu, PThread.created])
  | createFork =>
    simp only [PState.exec, PState.ret, PState.cont] at h
    split at h <;> cases h
    · exact hL.quiet hf t _ th.pcb not_underOwnLock_nil (fun u => by simp)
        (fun u _ h => by simpa using h)
    · exact hL.spawn (x := .forkChild t) hf s.nextTid rfl (hheld rfl) (by simp)
        (fun u hu => by simp [hu, PThread.created])
  | awaitChild fork =>
    simp only [PState.exec, PState.ret] at h
    split at h
    · cases h
    · cases h
      exact lockInv_of_fault (by simp [PState.failWith])
    · cases h
      exact hL.quiet hf t _ th.pcb not_underOwnLock_nil (fun u => by simp)
          (fun u hu h => by simp [h, hu])
    · cases h
      exact hL.quiet hf t _ th.pcb not_underOwnLock_nil (fun u => by simp)
          (fun u hu h => by simp [h, hu])
  | startProcess creator name =>
    obtain rfl : (s.startProcess t creator name).2 = s' := congrArg Prod.snd (Option.some.inj h)
    exact hL.of_fresh hf (startProcess_fresh creator name)
  | forkChild creator =>
    obtain rfl : (s.forkChild t creator).2 = s' := congrArg Prod.snd (Option.some.inj h)
    exact hL.of_fresh hf (forkChild_fresh creator)
  | waitFind pid =>
    have hrest : rest = [] := hth.shape.waitFind
    subst hrest
    simp only [PState.exec, PState.ret, PState.cont] at h
    rcases withOwn_cases h with ⟨f, rfl⟩ | ⟨p, pcb, hp, hpcb, h⟩
    · exact lockInv_of_fault (by simp [PState.failWith])
    have hpt : p = t := hth.own p hp
    subst hpt
    split at h
    · cases h
      exact hL.quiet hf p _ th.pcb not_underOwnLock_nil (fun u => by simp)
          (fun u hu h => by simp [h, hu])
    · split at h
      · cases h
        exact hL.quiet hf p _ th.pcb not_underOwnLock_nil (fun u => by simp)
            (fun u hu h => by simp [h, hu])
      · split at h <;> cases h
        · -- the child had exited: the search keeps the lock for the read
          exact hL.kept hf p [.waitRead pid] th.pcb (hheld rfl) (by simp) (fun u => by simp)
              (fun u _ h => by simpa using h)
        · refine hL.quiet hf p [.waitSema pid, .acquireOwn, .waitRead pid] th.pcb ?_
            (fun u => by simp) (fun u hu h => by simp [h, hu])
          rintro ⟨_, _, hc, hi⟩
          cases hc
          cases hi
  | waitSema pid =>
    simp only [PState.exec, PState.cont] at h
    rcases withOwn_cases h with ⟨f, rfl⟩ | ⟨p, pcb, hp, hpcb, h⟩
    · exact lockInv_of_fault (by simp [PState.failWith])
    split at h
    · cases h
      exact lockInv_of_fault (by simp [PState.failWith])
    · split at h <;> cases h
      exact hL.quiet hf t _ th.pcb (hnext (by simp) rfl) (fun u => by simp)
          (fun u _ h => by simpa using h)
  | waitRead pid =>
    simp only [PState.exec, PState.ret] at h
    rcases withOwn_cases h with ⟨f, rfl⟩ | ⟨p, pcb, hp, hpcb, h⟩
    · exact lockInv_of_fault (by simp [PState.failWith])
    split at h <;> cases h
    · exact lockInv_of_fault (by simp [PState.failWith])
    · exact hL.quiet hf t _ th.pcb not_underOwnLock_nil (fun u => by simp)
        (fun u hu h => by simp [h, hu])
  | setStatus status =>
    simp only [PState.exec, PState.cont] at h
    rcases withOwn_cases h with ⟨f, rfl⟩ | ⟨p, pcb, hp, hpcb, h⟩
    · exact lockInv_of_fault (by simp [PState.failWith])
    cases h
    exact hL.quiet hf t _ th.pcb (hnext (by simp) rfl) (fun u => by simp)
        (fun u _ h => by simpa using h)
  | exitTestParent =>
    simp only [PState.exec, PState.cont] at h
    split at h
    · cases h
      exact hL.update (t := t) (v := none) hf (fun u => by simp) (fun u _ h => by simpa using h)
        fun _ _ _ h => by cases h
    · rcases withOwn_cases h with ⟨f, rfl⟩ | ⟨p, pcb, hp, hpcb, h⟩
      · exact lockInv_of_fault (by simp [PState.failWith])
      have hrest : rest = exitCode.tail := hth.shape.exitTestParent
      subst hrest
      split at h <;> cases h
      · refine hL.quiet hf t (exitCode.tail.drop 4) th.pcb ?_ (fun u => by simp)
          (fun u _ h => by simpa using h)
        rintro ⟨_, _, hc, hi⟩
        simp [exitCode] at hc
        simp [← hc.1, PInstr.underOwnLock] at hi
      · exact hL.quiet hf t _ th.pcb (hnext (by simp) rfl) (fun u => by simp)
          (fun u _ h => by simpa using h)
  | loadParent =>
    simp only [PState.exec, PState.cont] at h
    rcases withOwn_cases h with ⟨f, rfl⟩ | ⟨p, pcb, hp, hpcb, h⟩
    · exact lockInv_of_fault (by simp [PState.failWith])
    cases h
    exact hL.quiet hf t _ th.pcb (hnext (by simp) rfl) (fun u => by simp)
        (fun u _ h => by simpa using h)
  | acquireParent =>
    simp only [PState.exec, PState.cont] at h
    split at h
    · cases h
      exact lockInv_of_fault (by simp [PState.failWith])
    · obtain ⟨s₁, hacq, he⟩ := Option.map_eq_some_iff.mp h
      obtain ⟨-, rfl⟩ := Prod.mk.inj he
      exact hL.quiet hf t _ th.pcb (hnext (by simp) rfl)
          (fun u => by simp [(s.acquire_frame hacq).1])
        (fun u _ hu => by simpa using acquire_lockOf_held hacq hu)
  | notify =>
    simp only [PState.exec, PState.cont] at h
    rcases withOwn_cases h with ⟨f, rfl⟩ | ⟨p, pcb, hp, hpcb, h⟩
    · exact lockInv_of_fault (by simp [PState.failWith])
    split at h <;> cases h
    · exact lockInv_of_fault (by simp [PState.failWith])
    · exact hL.quiet hf t _ th.pcb (hnext (by simp) rfl) (fun u => by simp)
        (fun u _ h => by simpa using h)
  | releaseParent =>
    simp only [PState.exec, PState.cont] at h
    rcases withOwn_cases h with ⟨f, rfl⟩ | ⟨p, pcb, hp, hpcb, h⟩
    · exact lockInv_of_fault (by simp [PState.failWith])
    split at h <;> cases h
    · exact lockInv_of_fault (by simp [PState.failWith])
    · exact hL.quiet hf t _ th.pcb (hnext (by simp) rfl) (fun u => by simp)
        (fun u hu h => by simp [h, hu])
  | orphan =>
    simp only [PState.exec, PState.cont] at h
    rcases withOwn_cases h with ⟨f, rfl⟩ | ⟨p, pcb, hp, hpcb, h⟩
    · exact lockInv_of_fault (by simp [PState.failWith])
    cases h
    -- the loop over `children` runs under the lock, and the release follows
    have hk := PState.orphanAll_lockOf pcb.children s
    have hv := (PState.orphanAll_frame pcb.children s).1
    exact hL.kept hf t rest th.pcb (hheld rfl) (by simp [hk]) (fun u => by simp [hv])
      (fun u _ h => by simpa [hk] using h)
  | freePcb =>
    simp only [PState.exec] at h
    split at h <;> cases h
    · exact lockInv_of_fault (by simp [PState.failWith])
    · next p hp =>
      have hpt : p = t := hth.own p hp
      subst hpt
      exact hL.of_fresh hf (freePcb_fresh _ _)

/-- Every action keeps the locks. -/
theorem lockInv_act {a : PAction} (hW : WaitInv s) (hL : LockInv s) (h : s.act a = some (e, s')) :
    LockInv s' := by
  cases a with
  | call t c =>
    simp only [PState.act, PState.cont] at h
    split at h
    · next th hf _ =>
      split at h
      · cases h
        exact hL.update (t := t) (v := some (c.code, th.pcb)) hf (fun u => by simp)
          (fun u _ h => by simpa using h) fun _ _ _ h hown => by
            cases h
            exact absurd hown (not_underOwnLock_call c)
      · cases h
    · cases h
  | step t =>
    simp only [PState.act] at h
    split at h
    · next hf ht =>
      split at h
      · next i rest hcode => exact lockInv_exec hW hL hf ht hcode h
      · cases h
    · cases h

end LockStep

theorem lockInv_boot (kp up : Nat) (disk : Nat → Option (List Nat)) :
    LockInv (PState.boot kp up disk) := by
  intro _ t code pcb hv hown
  by_cases ht : t = 1 <;> simp [PState.boot, PState.view, ht, PThread.user] at hv
  obtain ⟨rfl, -⟩ := hv
  exact absurd hown not_underOwnLock_nil

/-- Every state reachable from boot keeps both invariants. -/
theorem procInv_of_run {kp up : Nat} {disk : Nat → Option (List Nat)} {evs : List PEvent}
    {s : PState} (h : Lts.Run PStep (PState.boot kp up disk) evs s) : WaitInv s ∧ LockInv s :=
  Lts.Run.inv (fun s => WaitInv s ∧ LockInv s)
    ⟨waitInv_boot kp up disk, lockInv_boot kp up disk⟩
    (fun _ _ _ hI ⟨_, ha⟩ => ⟨waitInv_act hI.1 ha, lockInv_act hI.1 hI.2 ha⟩) h

/-- Over every run from boot, when `thread_create` fails for want of a page, `process_execute`
and `process_fork` return -1 with the caller's PCB as it was and its `children_lock` still held
by the caller. -/
theorem failed_create_keeps_children_lock {kp up : Nat} {disk : Nat → Option (List Nat)}
    {evs : List PEvent} {s : PState} (h : Lts.Run PStep (PState.boot kp up disk) evs s)
    (hf : s.fault = none) {t : Nat} {th : PThread} {i : PInstr} {rest : List PInstr}
    (ht : s.threads t = some th) (hcode : th.code = i :: rest)
    (hi : i = .createFork ∨ ∃ name, i = .createExec name) (hpages : s.kernelPages = 0) :
    ∃ s', s.act (.step t) = some (.returned t (-1), s') ∧
      s'.threads t = some { th with code := [], childResult := none } ∧ s'.slots = s.slots ∧
      s'.lockOf t = some (some t) := by
  have hheld : s.lockOf t = some (some t) :=
    (procInv_of_run h).2 hf t th.code th.pcb (by simp [PState.view, ht])
      ⟨i, rest, hcode, by rcases hi with rfl | ⟨_, rfl⟩ <;> rfl⟩
  refine ⟨({ s with kernelPages := s.kernelPages + 1 }.ret t th (-1)).2, ?_,
    by simp [PState.ret, PState.setThread], rfl, by simpa [PState.ret] using hheld⟩
  rcases hi with rfl | ⟨name, rfl⟩ <;>
    simp [PState.act, hf, ht, hcode, PState.exec, hpages, PState.ret]

/-- `exec` with one free kernel page: `fn_copy` takes it, and process 1 takes its
`children_lock` before `thread_create`. -/
def execCreateFail : List PAction := [.call 1 (.exec 7), .step 1, .step 1]

/-- The same for `fork`. -/
def forkCreateFail : List PAction := [.call 1 .fork, .step 1, .step 1]

theorem failed_create_keeps_children_lock_boot :
    (∃ evs s s', Lts.Run PStep (PState.boot 1 10 noFiles) evs s ∧
      (s.threads 1).map PThread.code = some [.createExec 7, .awaitChild false] ∧
      s.act (.step 1) = some (.returned 1 (-1), s') ∧ s'.lockOf 1 = some (some 1)) ∧
    (∃ evs s s', Lts.Run PStep (PState.boot 1 10 noFiles) evs s ∧
      (s.threads 1).map PThread.code = some [.createFork, .awaitChild true] ∧
      s.act (.step 1) = some (.returned 1 (-1), s') ∧ s'.lockOf 1 = some (some 1)) := by
  have hexec : Lts.replayEndsIn PState.act (PState.boot 1 10 noFiles) execCreateFail
      (fun _ s => s.fault = none ∧ s.kernelPages = 0 ∧
        (s.threads 1).map PThread.code = some [.createExec 7, .awaitChild false]) = true := by
    decide
  have hfork : Lts.replayEndsIn PState.act (PState.boot 1 10 noFiles) forkCreateFail
      (fun _ s => s.fault = none ∧ s.kernelPages = 0 ∧
        (s.threads 1).map PThread.code = some [.createFork, .awaitChild true]) = true := by
    decide
  obtain ⟨evs, s, hrun, hf, hpages, hcode⟩ := Lts.exists_run_of_replayEndsIn hexec
  obtain ⟨evs', s₂, hrun', hf', hpages', hcode'⟩ := Lts.exists_run_of_replayEndsIn hfork
  obtain ⟨th, ht, hth⟩ := Option.map_eq_some_iff.mp hcode
  obtain ⟨th', ht', hth'⟩ := Option.map_eq_some_iff.mp hcode'
  obtain ⟨s', hstep, -, -, hlock⟩ :=
    failed_create_keeps_children_lock hrun hf ht hth (Or.inr ⟨7, rfl⟩) hpages
  obtain ⟨s₂', hstep', -, -, hlock'⟩ :=
    failed_create_keeps_children_lock hrun' hf' ht' hth' (Or.inl rfl) hpages'
  exact ⟨⟨evs, s, s', hrun, hcode, hstep, hlock⟩,
    ⟨evs', s₂, s₂', hrun', hcode', hstep', hlock'⟩⟩

end Pintos.Userprog
