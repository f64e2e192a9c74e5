import Mathlib.Algebra.BigOperators.Group.Finset.Piecewise
import Mathlib.Algebra.Order.BigOperators.Group.Finset
import Mathlib.Data.Fintype.Fin
import Pintos.Lib.Run

/-!
# The readers-writers lock: `rw_lock_acquire` and `rw_lock_release`

`struct rw_lock` is a monitor: a guard lock, the conditions `read` and `write`, and the counters
`AR`, `WR`, `AW`, `WW` of active and waiting readers and writers.  Every access to the counters
holds the guard lock, whose mutual exclusion `lock_mutual_exclusion` proves, so the code between
two blocking points runs as one step here:

* `acquire` — `rw_lock_acquire` from outside: the loop test, then either `cond_wait` (count the
  waiter, put it on the condition's list, give the guard up) or take the lock;
* `recheck` — a waiter woken by `cond_signal` or `cond_broadcast` takes the guard back, returns
  from `cond_wait`, uncounts itself and tests again (Mesa style: others may run before it);
* `release` — `rw_lock_release` by a holder, in the mode it acquired in.

The `n` threads are `Fin n`, each at a place `RwAt`.  Which waiter `cond_signal` wakes depends
on the scheduling policy (the first of the list under `SCHED_FIFO`, the one of highest priority
under `SCHED_PRIO`); a release names it by a position `pick`, so the results hold for every
choice.

## Results

* `Books` — the counters count the threads in each place, and the conditions' lists hold exactly
  the threads waiting on them; `Safe` — at most one writer, never with readers, no reader left on
  `read` once no writer is active or waiting, and a writer signalled whenever writers wait and
  nobody holds the lock.
* `Inv.step` — every step keeps both; `rw_lock_safe` — so does every run from `rw_lock_init`.
-/

set_option autoImplicit false

namespace Pintos

/-- Where a thread is in the code of a readers-writers lock. -/
inductive RwAt where
  | idle
  /-- In `cond_wait` on `read` (a reader) or `write`, on the condition's list. -/
  | waiting (reader : Bool)
  /-- Woken from `cond_wait`, to take the guard back and test again. -/
  | signalled (reader : Bool)
  /-- Holding the readers-writers lock. -/
  | active (reader : Bool)
  deriving DecidableEq

/-- `struct rw_lock` (the waiters of its conditions as lists), and where each thread is. -/
structure RwLock (n : Nat) where
  AR : Int
  WR : Int
  AW : Int
  WW : Int
  read : List (Fin n)
  write : List (Fin n)
  threads : Fin n → RwAt

namespace RwLock

variable {n : Nat}

/-- `rw_lock_init`. -/
def rwLockInit (n : Nat) : RwLock n := ⟨0, 0, 0, 0, [], [], fun _ => .idle⟩

/-- Thread `t` moves to `a`. -/
@[simp] def setAt (s : RwLock n) (t : Fin n) (a : RwAt) : RwLock n :=
  { s with threads := Function.update s.threads t a }

/-- The test of `rw_lock_acquire`'s loop and what follows it, under the guard: `cond_wait`
(counted, on the condition's list) or the lock taken. -/
def acquireLoop (s : RwLock n) (t : Fin n) (reader : Bool) : RwLock n :=
  if reader then
    if s.AW + s.WW > 0 then { s.setAt t (.waiting true) with WR := s.WR + 1, read := s.read ++ [t] }
    else { s.setAt t (.active true) with AR := s.AR + 1 }
  else
    if s.AR + s.AW > 0 then
      { s.setAt t (.waiting false) with WW := s.WW + 1, write := s.write ++ [t] }
    else { s.setAt t (.active false) with AW := s.AW + 1 }

/-- `rw_lock_acquire`, from outside. -/
def rwLockAcquire (s : RwLock n) (t : Fin n) (reader : Bool) : RwLock n :=
  acquireLoop s t reader

/-- Back from `cond_wait` with the guard: `WR--` or `WW--`, and the loop test again. -/
def recheck (s : RwLock n) (t : Fin n) (reader : Bool) : RwLock n :=
  acquireLoop (if reader then { s with WR := s.WR - 1 } else { s with WW := s.WW - 1 }) t reader

/-- `cond_signal (&write)`: the waiter at position `pick` (modulo their number) leaves the list,
woken; nothing without waiters. -/
def signalWrite (s : RwLock n) (pick : Nat) : RwLock n :=
  match s.write with
  | [] => s
  | w₀ :: rest =>
    let w := (w₀ :: rest).getD (pick % (rest.length + 1)) w₀
    { s.setAt w (.signalled false) with write := s.write.erase w }

/-- `cond_broadcast (&read)`: every waiter is woken. -/
def broadcastRead (s : RwLock n) : RwLock n :=
  { s with read := [], threads := fun u => if u ∈ s.read then .signalled true else s.threads u }

/-- `rw_lock_release` by a holder in mode `reader`; `pick` is the writer a `cond_signal` wakes. -/
def rwLockRelease (s : RwLock n) (t : Fin n) (reader : Bool) (pick : Nat) : RwLock n :=
  if reader then
    let s₁ := { s.setAt t .idle with AR := s.AR - 1 }
    -- the last reader out wakes a writer
    if s₁.AR = 0 ∧ s₁.WW > 0 then signalWrite s₁ pick else s₁
  else
    let s₁ := { s.setAt t .idle with AW := s.AW - 1 }
    -- a waiting writer first, else all waiting readers
    if s₁.WW > 0 then signalWrite s₁ pick
    else if s₁.WR > 0 then broadcastRead s₁
    else s₁

/-- What a thread does next. -/
inductive RwAction (n : Nat) where
  | acquire (t : Fin n) (reader : Bool)
  | recheck (t : Fin n)
  | release (t : Fin n) (pick : Nat)
  deriving DecidableEq

/-- A step: an idle thread calls `rw_lock_acquire`, a woken waiter tests again, or a holder calls
`rw_lock_release` in its mode. -/
def act (s : RwLock n) : RwAction n → Option (RwAction n × RwLock n)
  | .acquire t reader =>
    if s.threads t = .idle then some (.acquire t reader, rwLockAcquire s t reader) else none
  | .recheck t =>
    match s.threads t with
    | .signalled reader => some (.recheck t, recheck s t reader)
    | _ => none
  | .release t pick =>
    match s.threads t with
    | .active reader => some (.release t pick, rwLockRelease s t reader pick)
    | _ => none

/-- The readers-writers lock as a system. -/
def RwStep : RwLock n → RwAction n → RwLock n → Prop := Lts.ActStep act

/-! ## Counting threads -/

/-- The threads at place `a`. -/
def count (th : Fin n → RwAt) (a : RwAt) : Int := ∑ t, if th t = a then 1 else 0

theorem count_nonneg (th : Fin n → RwAt) (a : RwAt) : 0 ≤ count th a :=
  Finset.sum_nonneg fun _ _ => by split <;> omega

theorem count_eq (th : Fin n → RwAt) (a : RwAt) (t : Fin n) :
    count th a = (if th t = a then 1 else 0) +
      ∑ u ∈ Finset.univ.erase t, if th u = a then 1 else 0 :=
  (Finset.add_sum_erase _ _ (Finset.mem_univ t)).symm

theorem one_le_count {th : Fin n → RwAt} {a : RwAt} {t : Fin n} (h : th t = a) :
    1 ≤ count th a := by
  have hrest : 0 ≤ ∑ u ∈ Finset.univ.erase t, if th u = a then (1 : Int) else 0 :=
    Finset.sum_nonneg fun _ _ => by split <;> omega
  rw [count_eq th a t, if_pos h]
  omega

/-- One thread moves from its place to `b`. -/
theorem count_update (th : Fin n → RwAt) (t : Fin n) (b a : RwAt) :
    count (Function.update th t b) a =
      count th a - (if th t = a then 1 else 0) + (if b = a then 1 else 0) := by
  have hrest : ∑ u ∈ Finset.univ.erase t, (if Function.update th t b u = a then (1 : Int) else 0) =
      ∑ u ∈ Finset.univ.erase t, if th u = a then 1 else 0 :=
    Finset.sum_congr rfl fun u hu => by rw [Function.update_of_ne (Finset.ne_of_mem_erase hu)]
  rw [count_eq _ a t, count_eq th a t, Function.update_self, hrest]
  omega

/-- Counts that agree thread by thread. -/
theorem count_congr {th th' : Fin n → RwAt} {a b a' b' : RwAt}
    (h : ∀ u, ((if th' u = a' then 1 else 0) + if th' u = b' then 1 else 0 : Int) =
      (if th u = a then 1 else 0) + if th u = b then 1 else 0) :
    count th' a' + count th' b' = count th a + count th b := by
  unfold count
  rw [← Finset.sum_add_distrib, ← Finset.sum_add_distrib]
  exact Finset.sum_congr rfl fun u _ => h u

theorem count_eq_zero {th : Fin n → RwAt} {a : RwAt} (h : ∀ u, th u ≠ a) : count th a = 0 :=
  Finset.sum_eq_zero fun u _ => if_neg (h u)

/-! ## The invariant -/

/-- The counters count the threads in each place, and the conditions' lists hold exactly the
threads waiting on them. -/
structure Books (s : RwLock n) : Prop where
  AR_eq : s.AR = count s.threads (.active true)
  AW_eq : s.AW = count s.threads (.active false)
  WR_eq : s.WR = count s.threads (.waiting true) + count s.threads (.signalled true)
  WW_eq : s.WW = count s.threads (.waiting false) + count s.threads (.signalled false)
  mem_read : ∀ t, t ∈ s.read ↔ s.threads t = .waiting true
  mem_write : ∀ t, t ∈ s.write ↔ s.threads t = .waiting false
  read_nodup : s.read.Nodup
  write_nodup : s.write.Nodup

/-- At most one writer, never with readers; no reader left on `read` once no writer is active
or waiting; and a writer woken whenever writers wait and nobody holds the lock. -/
structure Safe (s : RwLock n) : Prop where
  AW_le : s.AW ≤ 1
  excl : s.AW = 1 → s.AR = 0
  readers_parked : s.AW + s.WW = 0 → s.read = []
  writers_woken : s.AR + s.AW = 0 → s.write ≠ [] → ∃ u, s.threads u = .signalled false

/-- The invariant of every run. -/
structure Inv (s : RwLock n) : Prop where
  books : Books s
  safe : Safe s

section Books

variable {s : RwLock n}

theorem Books.AR_nonneg (hb : Books s) : 0 ≤ s.AR := hb.AR_eq ▸ count_nonneg _ _

theorem Books.AW_nonneg (hb : Books s) : 0 ≤ s.AW := hb.AW_eq ▸ count_nonneg _ _

theorem Books.WR_nonneg (hb : Books s) : 0 ≤ s.WR := by
  rw [hb.WR_eq]
  have := count_nonneg s.threads (.waiting true)
  have := count_nonneg s.threads (.signalled true)
  omega

theorem Books.WW_nonneg (hb : Books s) : 0 ≤ s.WW := by
  rw [hb.WW_eq]
  have := count_nonneg s.threads (.waiting false)
  have := count_nonneg s.threads (.signalled false)
  omega

/-- No counted waiting writer, none on the list. -/
theorem Books.write_eq_nil (hb : Books s) (h : s.WW = 0) : s.write = [] := by
  rcases hw : s.write with _ | ⟨u, rest⟩
  · rfl
  · have hu : s.threads u = .waiting false := (hb.mem_write u).mp (by simp [hw])
    have := one_le_count hu
    have := count_nonneg s.threads (.signalled false)
    have := hb.WW_eq
    omega

/-- No counted waiting reader, none on the list. -/
theorem Books.read_eq_nil (hb : Books s) (h : s.WR = 0) : s.read = [] := by
  rcases hr : s.read with _ | ⟨u, rest⟩
  · rfl
  · have hu : s.threads u = .waiting true := (hb.mem_read u).mp (by simp [hr])
    have := one_le_count hu
    have := count_nonneg s.threads (.signalled true)
    have := hb.WR_eq
    omega

/-! ### Lists of waiters while threads move -/

theorem mem_update_iff {l : List (Fin n)} {th : Fin n → RwAt} {a : RwAt}
    (hl : ∀ u, u ∈ l ↔ th u = a) {t : Fin n} {b : RwAt} (hb : b ≠ a) (ht : th t ≠ a) :
    ∀ u, u ∈ l ↔ Function.update th t b u = a := by
  intro u
  by_cases hu : u = t
  · subst hu
    rw [Function.update_self]
    exact ⟨fun h => absurd ((hl u).mp h) ht, fun h => absurd h hb⟩
  · rw [Function.update_of_ne hu]
    exact hl u

theorem mem_append_update_iff {l : List (Fin n)} {th : Fin n → RwAt} {a : RwAt}
    (hl : ∀ u, u ∈ l ↔ th u = a) {t : Fin n} (ht : th t ≠ a) :
    ∀ u, u ∈ l ++ [t] ↔ Function.update th t a u = a := by
  intro u
  by_cases hu : u = t
  · subst hu
    simp
  · rw [Function.update_of_ne hu, List.mem_append, List.mem_singleton, ← hl u]
    exact ⟨fun h => h.resolve_right hu, .inl⟩

theorem mem_erase_update_iff {l : List (Fin n)} {th : Fin n → RwAt} {a : RwAt}
    (hl : ∀ u, u ∈ l ↔ th u = a) (hnd : l.Nodup) {t : Fin n} {b : RwAt} (hb : b ≠ a) :
    ∀ u, u ∈ l.erase t ↔ Function.update th t b u = a := by
  intro u
  rw [hnd.mem_erase_iff]
  by_cases hu : u = t
  · subst hu
    rw [Function.update_self]
    exact ⟨fun h => absurd rfl h.1, fun h => absurd h hb⟩
  · rw [Function.update_of_ne hu, ← hl u]
    exact ⟨fun h => h.2, fun h => ⟨hu, h⟩⟩

/-- A thread moves between places that are not waiting on a condition, and the counters follow
it. -/
theorem Books.move {s' : RwLock n} (hb : Books s) {t : Fin n} {a b : RwAt} (ht : s.threads t = a)
    (hth : s'.threads = Function.update s.threads t b) (hread : s'.read = s.read)
    (hwrite : s'.write = s.write) (ha : ∀ r, a ≠ .waiting r) (hb' : ∀ r, b ≠ .waiting r)
    (hAR : s'.AR = s.AR - (if a = .active true then 1 else 0) +
      (if b = .active true then 1 else 0))
    (hAW : s'.AW = s.AW - (if a = .active false then 1 else 0) +
      (if b = .active false then 1 else 0))
    (hWR : s'.WR = s.WR - (if a = .signalled true then 1 else 0) +
      (if b = .signalled true then 1 else 0))
    (hWW : s'.WW = s.WW - (if a = .signalled false then 1 else 0) +
      (if b = .signalled false then 1 else 0)) : Books s' := by
  have hwait : ∀ r, count s'.threads (.waiting r) = count s.threads (.waiting r) := by
    intro r
    rw [hth, count_update, ht, if_neg (ha r), if_neg (hb' r)]
    omega
  refine ⟨?_, ?_, ?_, ?_, ?_, ?_, ?_, ?_⟩
  · rw [hAR, hth, count_update, ht, hb.AR_eq]
  · rw [hAW, hth, count_update, ht, hb.AW_eq]
  · rw [hWR, hwait, hth, count_update _ _ _ (.signalled true), ht, hb.WR_eq]
    omega
  · rw [hWW, hwait, hth, count_update _ _ _ (.signalled false), ht, hb.WW_eq]
    omega
  · rw [hread, hth]
    exact mem_update_iff hb.mem_read (hb' true) (ht ▸ ha true)
  · rw [hwrite, hth]
    exact mem_update_iff hb.mem_write (hb' false) (ht ▸ ha false)
  · exact hread ▸ hb.read_nodup
  · exact hwrite ▸ hb.write_nodup

/-- An idle thread starts waiting on `read` (a reader) or `write`, counted. -/
theorem Books.wait (hb : Books s) {t : Fin n} (ht : s.threads t = .idle) (reader : Bool) :
    Books (if reader then
      { s.setAt t (.waiting true) with WR := s.WR + 1, read := s.read ++ [t] }
    else { s.setAt t (.waiting false) with WW := s.WW + 1, write := s.write ++ [t] }) := by
  have hnot : ∀ r, s.threads t ≠ .waiting r := fun r => by simp [ht]
  have hcounts := And.intro hb.AR_eq (And.intro hb.AW_eq (And.intro hb.WR_eq hb.WW_eq))
  have hnodup : ∀ {l : List (Fin n)} {a : RwAt}, (∀ u, u ∈ l ↔ s.threads u = a) → l.Nodup →
      s.threads t ≠ a → (l ++ [t]).Nodup := fun hl hnd hta =>
    List.nodup_append.mpr ⟨hnd, List.nodup_singleton t, fun u hu v hv he => by
      rw [List.mem_singleton] at hv
      exact hta ((hl u).mp hu ▸ congrArg s.threads (he.trans hv)).symm⟩
  cases reader with
  | true =>
    refine ⟨?_, ?_, ?_, ?_, ?_, ?_, ?_, ?_⟩
    all_goals try (simp [setAt, count_update, ht] at hcounts ⊢; omega)
    · exact mem_append_update_iff hb.mem_read (hnot true)
    · exact mem_update_iff hb.mem_write (by simp) (hnot false)
    · exact hnodup hb.mem_read hb.read_nodup (hnot true)
    · exact hb.write_nodup
  | false =>
    refine ⟨?_, ?_, ?_, ?_, ?_, ?_, ?_, ?_⟩
    all_goals try (simp [setAt, count_update, ht] at hcounts ⊢; omega)
    · exact mem_update_iff hb.mem_read (by simp) (hnot true)
    · exact mem_append_update_iff hb.mem_write (hnot false)
    · exact hb.read_nodup
    · exact hnodup hb.mem_write hb.write_nodup (hnot false)

/-- `rw_lock_acquire`'s loop test, from an idle thread. -/
theorem books_acquireLoop (hb : Books s) {t : Fin n} (ht : s.threads t = .idle) (reader : Bool) :
    Books (acquireLoop s t reader) := by
  cases reader with
  | true =>
    by_cases hc : s.AW + s.WW > 0
    · simpa [RwLock.acquireLoop, hc] using hb.wait ht true
    · rw [RwLock.acquireLoop, if_pos rfl, if_neg hc]
      exact hb.move ht rfl rfl rfl (by simp) (by simp) (by simp) (by simp) (by simp) (by simp)
  | false =>
    by_cases hc : s.AR + s.AW > 0
    · simpa [RwLock.acquireLoop, hc] using hb.wait ht false
    · rw [RwLock.acquireLoop, if_neg Bool.false_ne_true, if_neg hc]
      exact hb.move ht rfl rfl rfl (by simp) (by simp) (by simp) (by simp) (by simp) (by simp)

/-- A woken waiter back from `cond_wait`, uncounted and not yet tested. -/
def leaveLoop (s : RwLock n) (t : Fin n) (reader : Bool) : RwLock n :=
  if reader then { s.setAt t .idle with WR := s.WR - 1 } else { s.setAt t .idle with WW := s.WW - 1 }

/-- The loop test overwrites the place of the thread, so a recheck is the test from
`leaveLoop`. -/
theorem recheck_eq (s : RwLock n) (t : Fin n) (reader : Bool) :
    recheck s t reader = acquireLoop (leaveLoop s t reader) t reader := by
  cases reader <;>
    simp only [recheck, leaveLoop, acquireLoop, setAt, Function.update_idem, Bool.false_eq_true,
      if_true, if_false]

theorem books_leaveLoop (hb : Books s) {t : Fin n} {reader : Bool}
    (ht : s.threads t = .signalled reader) : Books (leaveLoop s t reader) := by
  cases reader <;>
    exact hb.move ht rfl rfl rfl (by simp) (by simp) (by simp [leaveLoop]) (by simp [leaveLoop])
      (by simp [leaveLoop]) (by simp [leaveLoop])

/-- `cond_signal (&write)` wakes nobody, or one writer of the list. -/
theorem signalWrite_cases (s : RwLock n) (pick : Nat) :
    (s.write = [] ∧ signalWrite s pick = s) ∨
      ∃ w ∈ s.write,
        signalWrite s pick = { s.setAt w (.signalled false) with write := s.write.erase w } := by
  unfold signalWrite
  split
  · rename_i hw
    exact .inl ⟨hw, rfl⟩
  · rename_i w₀ rest hw
    have hlt : pick % (rest.length + 1) < (w₀ :: rest).length := Nat.mod_lt _ (Nat.succ_pos _)
    refine .inr ⟨_, ?_, rfl⟩
    rw [hw, List.getD_eq_getElem?_getD, List.getElem?_eq_getElem hlt, Option.getD_some]
    exact List.getElem_mem hlt

theorem books_signalWrite (hb : Books s) (pick : Nat) : Books (signalWrite s pick) := by
  rcases signalWrite_cases s pick with ⟨-, h⟩ | ⟨w, hw, h⟩
  · rw [h]
    exact hb
  · have hwait : s.threads w = .waiting false := (hb.mem_write w).mp hw
    rw [h]
    refine ⟨?_, ?_, ?_, ?_, ?_, ?_, ?_, ?_⟩ <;> simp only [setAt]
    · simp [count_update, hwait, hb.AR_eq]
    · simp [count_update, hwait, hb.AW_eq]
    · simp [count_update, hwait, hb.WR_eq]
    · simp [count_update, hwait, hb.WW_eq]
    · exact mem_update_iff hb.mem_read (by simp) (by simp [hwait])
    · exact mem_erase_update_iff hb.mem_write hb.write_nodup (by simp)
    · exact hb.read_nodup
    · exact hb.write_nodup.erase w

/-- Counts of one place that agree thread by thread. -/
theorem count_eq_of_iff {th th' : Fin n → RwAt} {a : RwAt} (h : ∀ u, th' u = a ↔ th u = a) :
    count th' a = count th a :=
  Finset.sum_congr rfl fun u _ => by simp only [h u]

theorem books_broadcastRead (hb : Books s) : Books (broadcastRead s) := by
  -- the woken readers were waiting on `read`, and nothing else moves
  have hplace : ∀ u, u ∈ s.read → s.threads u = .waiting true := fun u => (hb.mem_read u).mp
  have hother : ∀ a, (∀ r, a ≠ .waiting r) → (∀ r, a ≠ .signalled r) →
      count (broadcastRead s).threads a = count s.threads a := by
    intro a hw hs
    refine count_eq_of_iff fun u => ?_
    by_cases hu : u ∈ s.read
    · simp only [broadcastRead, hu, if_true, hplace u hu]
      exact ⟨fun h => absurd h.symm (hs true), fun h => absurd h.symm (hw true)⟩
    · simp only [broadcastRead, hu, if_false]
  refine ⟨?_, ?_, ?_, ?_, ?_, ?_, ?_, ?_⟩
  · rw [hother _ (by simp) (by simp)]
    exact hb.AR_eq
  · rw [hother _ (by simp) (by simp)]
    exact hb.AW_eq
  · show s.WR = _
    rw [hb.WR_eq]
    refine (count_congr fun u => ?_).symm
    by_cases hu : u ∈ s.read
    · simp [broadcastRead, hu, hplace u hu]
    · simp [broadcastRead, hu]
  · show s.WW = _
    rw [hb.WW_eq]
    refine (count_congr fun u => ?_).symm
    by_cases hu : u ∈ s.read
    · simp [broadcastRead, hu, hplace u hu]
    · simp [broadcastRead, hu]
  · intro u
    by_cases hu : u ∈ s.read
    · simp [broadcastRead, hu]
    · simp [broadcastRead, hu, ← hb.mem_read u]
  · intro u
    by_cases hu : u ∈ s.read
    · simp [broadcastRead, hu, hb.mem_write u, hplace u hu]
    · simp [broadcastRead, hu, hb.mem_write u]
  · exact List.nodup_nil
  · exact hb.write_nodup

end Books

/-! ## Safety -/

section Safe

variable {s : RwLock n}

/-- A signalled writer stays signalled while another thread moves. -/
theorem exists_signalled_update {th : Fin n → RwAt} (h : ∃ u, th u = .signalled false) {t : Fin n}
    (ht : th t ≠ .signalled false) (b : RwAt) : ∃ u, Function.update th t b u = .signalled false := by
  obtain ⟨u, hu⟩ := h
  have hne : u ≠ t := by
    rintro rfl
    exact ht hu
  exact ⟨u, by rw [Function.update_of_ne hne, hu]⟩

/-- The loop test from an idle thread is safe when the state before it is, as far as the test
reads it: a reader that enters reads the readers' condition, and one that waits the writers'. -/
theorem safe_acquireLoop (hb : Books s) {t : Fin n} (ht : s.threads t = .idle) (reader : Bool)
    (hle : s.AW ≤ 1) (hexcl : s.AW = 1 → s.AR = 0)
    (hpark : reader = true → s.AW + s.WW = 0 → s.read = [])
    (hwoken : reader = true → s.AR + s.AW = 0 → s.write ≠ [] →
      ∃ u, s.threads u = .signalled false) :
    Safe (acquireLoop s t reader) := by
  have hAR := hb.AR_nonneg
  have hAW := hb.AW_nonneg
  have hWW := hb.WW_nonneg
  cases reader with
  | true =>
    by_cases hc : s.AW + s.WW > 0
    · -- the reader waits; the writers' side is untouched
      rw [acquireLoop, if_pos rfl, if_pos hc]
      refine ⟨hle, hexcl, fun h => absurd h (by simp; omega), fun h hw => ?_⟩
      exact exists_signalled_update (hwoken rfl h hw) (by simp [ht]) _
    · -- no writer at all: the reader enters
      rw [acquireLoop, if_pos rfl, if_neg hc]
      refine ⟨hle, fun h => absurd h (by simp; omega), hpark rfl, fun h => absurd h (by simp; omega)⟩
  | false =>
    by_cases hc : s.AR + s.AW > 0
    · rw [acquireLoop, if_neg Bool.false_ne_true, if_pos hc]
      exact ⟨hle, hexcl, fun h => absurd h (by simp; omega), fun h => absurd h (by simp; omega)⟩
    · -- nobody holds the lock: the writer enters alone
      rw [acquireLoop, if_neg Bool.false_ne_true, if_neg hc]
      exact ⟨by simp; omega, fun _ => by simp; omega, fun h => absurd h (by simp; omega),
        fun h => absurd h (by simp; omega)⟩

theorem safe_recheck (hi : Inv s) {t : Fin n} {reader : Bool}
    (ht : s.threads t = .signalled reader) : Safe (recheck s t reader) := by
  have hfields : (leaveLoop s t reader).AR = s.AR ∧ (leaveLoop s t reader).AW = s.AW ∧
      (leaveLoop s t reader).read = s.read ∧ (leaveLoop s t reader).write = s.write ∧
      (leaveLoop s t reader).threads = Function.update s.threads t .idle := by
    cases reader <;> simp [leaveLoop]
  obtain ⟨hAR, hAW, hread, hwrite, hth⟩ := hfields
  rw [recheck_eq]
  refine safe_acquireLoop (books_leaveLoop hi.books ht) (by simp [hth]) reader
    (hAW ▸ hi.safe.AW_le) (by rw [hAR, hAW]; exact hi.safe.excl) ?_ ?_
  · -- a reader left `WW` alone
    rintro rfl h
    rw [hread]
    exact hi.safe.readers_parked (by simpa [leaveLoop] using h)
  · rintro rfl h hw
    rw [hth]
    rw [hAR, hAW] at h
    exact exists_signalled_update (hi.safe.writers_woken h (hwrite ▸ hw)) (by simp [ht]) _

/-- Waking a writer while writers are counted waiting. -/
theorem safe_signalWrite (hb : Books s) (hle : s.AW ≤ 1) (hexcl : s.AW = 1 → s.AR = 0)
    (hWW : 0 < s.WW) (pick : Nat) : Safe (signalWrite s pick) := by
  have hAW := hb.AW_nonneg
  rcases signalWrite_cases s pick with ⟨hw, h⟩ | ⟨w, -, h⟩ <;> rw [h]
  · exact ⟨hle, hexcl, fun h => absurd h (by omega), fun _ h => absurd hw h⟩
  · exact ⟨hle, hexcl, fun h => absurd h (by simp; omega), fun _ _ => ⟨w, by simp⟩⟩

/-- The holder leaves and, in its mode, wakes a writer or the readers. -/
theorem Inv.release (hi : Inv s) {t : Fin n} {reader : Bool}
    (ht : s.threads t = .active reader) (pick : Nat) : Inv (rwLockRelease s t reader pick) := by
  have hb := hi.books
  have hAW := hb.AW_nonneg
  have hWW := hb.WW_nonneg
  have hWR := hb.WR_nonneg
  cases reader with
  | true =>
    -- a reader holds the lock, so no writer does
    have hAR : 1 ≤ s.AR := hb.AR_eq ▸ one_le_count ht
    have hAW0 : s.AW = 0 := by
      have := hi.safe.AW_le
      have := hi.safe.excl
      omega
    have h₁ : Books { s.setAt t .idle with AR := s.AR - 1 } :=
      hb.move ht rfl rfl rfl (by simp) (by simp) (by simp) (by simp) (by simp) (by simp)
    rw [rwLockRelease, if_pos rfl]
    dsimp only
    split
    · rename_i hlast
      exact ⟨books_signalWrite h₁ pick,
        safe_signalWrite h₁ (by simp; omega) (by simp; omega) hlast.2 pick⟩
    · rename_i hlast
      refine ⟨h₁, by simp; omega, fun h => absurd h (by simp; omega), hi.safe.readers_parked, ?_⟩
      -- the lock is free only if this was the last reader, and then no writer is counted
      intro h hw
      simp only [setAt] at h hlast hw
      exact absurd (hb.write_eq_nil (by omega)) hw
  | false =>
    -- the writer holds the lock alone
    have hAW1 : s.AW = 1 := by
      have := hb.AW_eq ▸ one_le_count ht
      have := hi.safe.AW_le
      omega
    have hAR0 : s.AR = 0 := hi.safe.excl hAW1
    have h₁ : Books { s.setAt t .idle with AW := s.AW - 1 } :=
      hb.move ht rfl rfl rfl (by simp) (by simp) (by simp) (by simp) (by simp) (by simp)
    rw [rwLockRelease, if_neg Bool.false_ne_true]
    dsimp only
    split
    · rename_i hwriters
      exact ⟨books_signalWrite h₁ pick,
        safe_signalWrite h₁ (by simp; omega) (by simp; omega) hwriters pick⟩
    · rename_i hwriters
      simp only [setAt] at hwriters
      have hwrite : s.write = [] := hb.write_eq_nil (by omega)
      split
      · exact ⟨books_broadcastRead h₁, by simp [broadcastRead]; omega,
          fun h => absurd h (by simp [broadcastRead]; omega), fun _ => rfl,
          fun _ hw => absurd hwrite hw⟩
      · rename_i hreaders
        simp only [setAt] at hreaders
        exact ⟨h₁, by simp; omega, fun h => absurd h (by simp; omega),
          fun _ => hb.read_eq_nil (by omega), fun _ hw => absurd hwrite hw⟩

end Safe

/-! ## Runs -/

theorem rwLockInit_inv : Inv (rwLockInit n) where
  books :=
    { AR_eq := by simp [rwLockInit, count]
      AW_eq := by simp [rwLockInit, count]
      WR_eq := by simp [rwLockInit, count]
      WW_eq := by simp [rwLockInit, count]
      mem_read := by simp [rwLockInit]
      mem_write := by simp [rwLockInit]
      read_nodup := List.nodup_nil
      write_nodup := List.nodup_nil }
  safe := ⟨by simp [rwLockInit], by simp [rwLockInit], fun _ => rfl, fun _ h => absurd rfl h⟩

/-- Every step keeps the invariant. -/
theorem Inv.step {s s' : RwLock n} {e : RwAction n} (hi : Inv s) (h : RwStep s e s') : Inv s' := by
  obtain ⟨a, ha⟩ := h
  cases a with
  | acquire t reader =>
    simp only [act] at ha
    split at ha
    · rename_i ht
      cases ha
      exact ⟨books_acquireLoop hi.books ht reader,
        safe_acquireLoop hi.books ht reader hi.safe.AW_le hi.safe.excl
          (fun _ => hi.safe.readers_parked) (fun _ => hi.safe.writers_woken)⟩
    · cases ha
  | recheck t =>
    simp only [act] at ha
    split at ha
    · rename_i reader ht
      cases ha
      exact ⟨recheck_eq s t reader ▸ books_acquireLoop (books_leaveLoop hi.books ht)
        (by cases reader <;> simp [leaveLoop]) reader, safe_recheck hi ht⟩
    · cases ha
  | release t pick =>
    simp only [act] at ha
    split at ha
    · rename_i reader ht
      cases ha
      exact hi.release ht pick
    · cases ha

theorem Inv.run {evs : List (RwAction n)} {s : RwLock n}
    (h : Lts.Run RwStep (rwLockInit n) evs s) : Inv s :=
  Lts.Run.inv Inv rwLockInit_inv (fun _ _ _ hi hs => hi.step hs) h

/-- **Readers-writers lock safety.**  Along every interleaving of acquires, rechecks and
releases: the counters are not negative, at most one writer holds the lock and never with a
reader, `WR` and `WW` count the threads inside the loops of `rw_lock_acquire`, and no waiter is
stranded — writers wait only while the lock is held or one of them is woken, readers only while
a writer is active or waiting, or all of them are woken. -/
theorem rw_lock_safe {evs : List (RwAction n)} {s : RwLock n}
    (h : Lts.Run RwStep (rwLockInit n) evs s) :
    0 ≤ s.AR ∧ 0 ≤ s.WR ∧ 0 ≤ s.AW ∧ 0 ≤ s.WW ∧ s.AW ≤ 1 ∧ ¬ (s.AW = 1 ∧ 0 < s.AR) ∧
      s.WR = count s.threads (.waiting true) + count s.threads (.signalled true) ∧
      s.WW = count s.threads (.waiting false) + count s.threads (.signalled false) ∧
      (0 < s.WW → 0 < s.AR + s.AW ∨ ∃ u, s.threads u = .signalled false) ∧
      (0 < s.WR → 0 < s.AW + s.WW ∨ ∀ u, s.threads u ≠ .waiting true) := by
  obtain ⟨hb, hs⟩ := Inv.run h
  have hAR := hb.AR_nonneg
  have hAW := hb.AW_nonneg
  refine ⟨hAR, hb.WR_nonneg, hAW, hb.WW_nonneg, hs.AW_le, fun ⟨h1, h2⟩ => ?_, hb.WR_eq, hb.WW_eq,
    fun hWW => ?_, fun hWR => ?_⟩
  · rw [hs.excl h1] at h2
    exact absurd h2 (lt_irrefl 0)
  · -- with the lock free, a counted writer is on `write` (then one is woken) or already woken
    by_cases hfree : s.AR + s.AW = 0
    · right
      by_cases hw : s.write = []
      · by_contra hnone
        push Not at hnone
        have hzero : count s.threads (.waiting false) = 0 ∧
            count s.threads (.signalled false) = 0 := by
          refine ⟨count_eq_zero fun u hu => ?_, count_eq_zero hnone⟩
          exact List.not_mem_nil ((hw ▸ (hb.mem_write u).mpr hu))
        rw [hb.WW_eq] at hWW
        omega
      · exact hs.writers_woken hfree hw
    · left
      omega
  · by_cases hwait : 0 < s.AW + s.WW
    · exact .inl hwait
    · -- no writer: `read` is empty, so no reader waits on it
      right
      intro u hu
      have hpark := hs.readers_parked (by have := hb.WW_nonneg; omega)
      exact List.not_mem_nil (hpark ▸ (hb.mem_read u).mpr hu)

/-- A reader holds the lock while a writer and a second reader arrive; the writer is woken by the
last reader out and the waiting reader by the writer's release. -/
def handoffSchedule : List (RwAction 3) :=
  [.acquire 0 true, .acquire 1 false, .acquire 2 true, .release 0 0, .recheck 1, .release 1 0,
    .recheck 2]

theorem rw_lock_safe_handoff :
    ∃ evs s, Lts.Run RwStep (rwLockInit 3) evs s ∧ s.threads 2 = .active true ∧
      (0 ≤ s.AR ∧ 0 ≤ s.WR ∧ 0 ≤ s.AW ∧ 0 ≤ s.WW ∧ s.AW ≤ 1 ∧ ¬ (s.AW = 1 ∧ 0 < s.AR) ∧
        s.WR = count s.threads (.waiting true) + count s.threads (.signalled true) ∧
        s.WW = count s.threads (.waiting false) + count s.threads (.signalled false) ∧
        (0 < s.WW → 0 < s.AR + s.AW ∨ ∃ u, s.threads u = .signalled false) ∧
        (0 < s.WR → 0 < s.AW + s.WW ∨ ∀ u, s.threads u ≠ .waiting true)) := by
  have h : Lts.replayEndsIn act (rwLockInit 3) handoffSchedule
      (fun _ s => s.threads 2 = .active true) = true := by decide
  obtain ⟨evs, s, hrun, hs⟩ := Lts.exists_run_of_replayEndsIn h
  exact ⟨evs, s, hrun, hs, rw_lock_safe hrun⟩

end RwLock

end Pintos
