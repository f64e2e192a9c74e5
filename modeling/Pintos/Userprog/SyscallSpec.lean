import Pintos.Userprog.Syscall

/-!
# What the system-call handler guarantees

Two properties of `syscallHandler`, for every call number, stack pointer, argument word, memory
(mapped or not) and answer of the file system, proved together (`syscallHandler_spec`):

* **`filesys_lock` discipline.**  The handler returns to user mode with `filesys_lock` free.  It
  stops only by an exit or a power-off, except in `SYS_WRITE` and `SYS_SEEK`: these call
  `syscall_exit` while holding the lock, so that `destroy_file_descriptor_table` fails
  `lock_acquire`'s assertion, and `SYS_SEEK` hands a position of `2 ^ 31` or more to
  `file_seek` as a negative `off_t`.
* **Confinement.**  No address above `PHYS_BASE` is read or written on the process's behalf.
  `PHYS_BASE` itself is read: `strnlen` reads `string[length]` before it compares `length` with
  `maxlen`.  Every buffer handed on ends at or below `PHYS_BASE`, and every string handed on has
  its NUL below it.

The proof follows the handler.  There is one triple per primitive (`readByte_spec`,
`readWord_spec`, `strnlen_spec`, the validators) and one per case of the switch, assembled in
`syscallSwitch_spec`.  Between them the state satisfies `At k b m`: the call in progress is `k`,
`filesys_lock` is held iff `b`, the memory is `m`, and everything touched or handed on is
confined.  Each memory access happens with `b = syscallUsesFilesysLock k`.  So a page fault
releases the lock exactly when it is held, and exits (`pageFault_spec`).
-/

set_option autoImplicit false

namespace Pintos.Userprog

open Prog

/-! ## Addresses -/

/-- Every buffer handed on ends at or below `PHYS_BASE`; every string has its NUL below it. -/
def Passed.Confined : Passed → Prop
  | .buffer p length => p.toNat + length.toNat ≤ PHYS_BASE.toNat
  | .string p length => p.toNat + length.toNat < PHYS_BASE.toNat

/-- Nothing above `PHYS_BASE` was touched, and nothing handed on reaches it. -/
def Confined (c : Ctx) : Prop := (∀ a ∈ c.touched, a ≤ PHYS_BASE) ∧ ∀ q ∈ c.passed, q.Confined

@[simp] theorem confined_touch {c : Ctx} {a : UInt32} :
    Confined { c with touched := a :: c.touched } ↔ a ≤ PHYS_BASE ∧ Confined c := by
  simp [Confined, and_assoc]

@[simp] theorem confined_pass {c : Ctx} {q : Passed} :
    Confined { c with passed := q :: c.passed } ↔ q.Confined ∧ Confined c := by
  simp only [Confined, List.mem_cons, forall_eq_or_imp]
  exact ⟨fun ⟨ht, hq, hp⟩ => ⟨hq, ht, hp⟩, fun ⟨hq, ht, hp⟩ => ⟨ht, hq, hp⟩⟩

/-- The string at `s` has its first NUL at `s + n`. -/
def NulAt (m : UserMem) (s : UInt32) (n : Nat) : Prop :=
  m.byte (s + UInt32.ofNat n) = 0 ∧ ∀ j < n, m.byte (s + UInt32.ofNat j) ≠ 0

/-- The string at `s` ends below `PHYS_BASE`. -/
def StringBelow (m : UserMem) (s : UInt32) : Prop :=
  ∃ n, s.toNat + n < PHYS_BASE.toNat ∧ NulAt m s n

theorem PHYS_BASE_toNat : PHYS_BASE.toNat = 3221225472 := rfl

/-- An offset into the part of the address space below `PHYS_BASE` does not wrap around. -/
theorem toNat_add_of_le {p q : UInt32} (h : p.toNat + q.toNat ≤ PHYS_BASE.toNat) :
    (p + q).toNat = p.toNat + q.toNat := by
  rw [UInt32.toNat_add, Nat.mod_eq_of_lt (by rw [PHYS_BASE_toNat] at h; omega)]

theorem toNat_ofNat_of_le {n : Nat} (h : n ≤ PHYS_BASE.toNat) : (UInt32.ofNat n).toNat = n := by
  rw [UInt32.toNat_ofNat', Nat.mod_eq_of_lt (by rw [PHYS_BASE_toNat] at h; omega)]

theorem le_PHYS_BASE {a : UInt32} (h : a.toNat ≤ PHYS_BASE.toNat) : a ≤ PHYS_BASE :=
  UInt32.le_iff_toNat_le.mpr h

/-- The byte `j` of a region `[p, p + n)` below `PHYS_BASE`. -/
theorem offset_toNat {p : UInt32} {n j : Nat} (hp : p.toNat + n ≤ PHYS_BASE.toNat) (hj : j ≤ n) :
    (p + UInt32.ofNat j).toNat = p.toNat + j := by
  have hj' : (UInt32.ofNat j).toNat = j := toNat_ofNat_of_le (by omega)
  rw [toNat_add_of_le (by omega), hj']

/-- `validate_buffer_in_user_region`'s test, read as a bound without wrap-around. -/
theorem bufferBelow_iff {p length : UInt32} :
    (isUserVaddr p && decide (length ≤ PHYS_BASE - p)) = true ↔
      p < PHYS_BASE ∧ p.toNat + length.toNat ≤ PHYS_BASE.toNat := by
  simp only [isUserVaddr, Bool.and_eq_true, decide_eq_true_eq]
  constructor
  · rintro ⟨hp, hl⟩
    have hp' := UInt32.lt_iff_toNat_lt.mp hp
    rw [UInt32.le_iff_toNat_le, UInt32.toNat_sub_of_le _ _ (UInt32.le_of_lt hp)] at hl
    exact ⟨hp, by omega⟩
  · rintro ⟨hp, hl⟩
    have hp' := UInt32.lt_iff_toNat_lt.mp hp
    rw [UInt32.le_iff_toNat_le, UInt32.toNat_sub_of_le _ _ (UInt32.le_of_lt hp)]
    exact ⟨hp, by omega⟩

theorem toInt32_of_lt {w : UInt32} (h : w.toNat < 2 ^ 31) : toInt32 w = w.toNat := by
  rw [toInt32, if_pos h]

theorem toNat_delta {s : UInt32} (hs : s < PHYS_BASE) :
    s.toNat + (PHYS_BASE - s).toNat = PHYS_BASE.toNat := by
  rw [UInt32.toNat_sub_of_le _ _ (UInt32.le_of_lt hs)]
  have := UInt32.lt_iff_toNat_lt.mp hs
  omega

/-! ## The handler's state -/

/-- The handler at work for call `k`: `filesys_lock` is held iff `b`, the memory is `m`, and
nothing outside the user space was touched or handed on. -/
structure At (k : Int) (b : Bool) (m : UserMem) (c : Ctx) : Prop where
  call : c.currentSyscall = k
  lock : c.holdsFilesysLock = b
  mem : c.mem = m
  confined : Confined c

/-- A stop that is no failure: the process exited, or the machine was powered off. -/
def Stop.Safe : Stop → Prop
  | .exit _ | .halt => True
  | .panic _ => False

/-- `syscall_exit` from a state satisfying `P` stops as `E` allows. -/
def ExitsOk (P : Ctx → Prop) (E : Stop → Ctx → Prop) : Prop :=
  ∀ st c, P c → ((syscallExit st : SysM Unit) c).Sat (fun _ _ => False) E

/-! ## Locks and exits -/

theorem lockAcquire_apply (c : Ctx) :
    lockAcquire c = if c.holdsFilesysLock then .stop (.panic .lockAcquireHeld) c
      else .ok () { c with holdsFilesysLock := true } := by
  by_cases h : c.holdsFilesysLock = true <;> simp [lockAcquire, bind_apply, h]

theorem lockRelease_apply (c : Ctx) :
    lockRelease c = if c.holdsFilesysLock then .ok () { c with holdsFilesysLock := false }
      else .stop (.panic .lockReleaseNotHeld) c := by
  by_cases h : c.holdsFilesysLock = true <;> simp [lockRelease, bind_apply, h]

/-- `syscall_exit` ends in `process_exit`, whose `destroy_file_descriptor_table` takes
`filesys_lock`: that fails `lock_acquire`'s assertion if the lock is already held. -/
theorem syscallExit_apply {α : Type} (st : Int) (c : Ctx) :
    (syscallExit st : SysM α) c = if c.holdsFilesysLock then
        .stop (.panic .lockAcquireHeld) { c with exitStatus := st }
      else .stop (.exit st) { c with exitStatus := st, openFiles := [] } := by
  by_cases h : c.holdsFilesysLock = true <;>
    simp [syscallExit, processExit, lockAcquire, lockRelease, bind_apply, h]

section Exits

variable {k : Int} {b : Bool} {m : UserMem} {α : Type} {P : Ctx → Prop} {Q : α → Ctx → Prop}
  {E : Stop → Ctx → Prop}

theorem ExitsOk.triple (hx : ExitsOk P E) (st : Int) : Triple P (syscallExit st : SysM α) Q E := by
  intro c hc
  have h := hx st c hc
  rw [syscallExit_apply] at h ⊢
  by_cases hl : c.holdsFilesysLock = true
  · rw [if_pos hl] at h ⊢
    exact h
  · rw [if_neg hl] at h ⊢
    exact h

/-- Exiting without the lock is safe. -/
theorem exitsOk_free (hE : ∀ e c, e.Safe → Confined c → E e c) : ExitsOk (At k false m) E := by
  intro st c hc
  rw [syscallExit_apply, if_neg (by simp [hc.lock])]
  exact hE _ _ trivial hc.confined

/-- Exiting with the lock held fails `lock_acquire`'s assertion. -/
theorem exitsOk_held (hbad : ∀ c, Confined c → c.currentSyscall = k →
    E (.panic .lockAcquireHeld) c) : ExitsOk (At k true m) E := by
  intro st c hc
  rw [syscallExit_apply, if_pos hc.lock]
  exact hbad _ hc.confined hc.call

theorem lockAcquire_spec : Triple (At k false m) lockAcquire (fun _ => At k true m) E := by
  intro c hc
  rw [lockAcquire_apply, if_neg (by simp [hc.lock])]
  exact ⟨hc.call, rfl, hc.mem, hc.confined⟩

theorem lockRelease_spec : Triple (At k true m) lockRelease (fun _ => At k false m) E := by
  intro c hc
  rw [lockRelease_apply, if_pos hc.lock]
  exact ⟨hc.call, rfl, hc.mem, hc.confined⟩

theorem pos_of_syscallUsesFilesysLock {k : Int} (h : syscallUsesFilesysLock k = true) : 0 < k := by
  simp only [syscallUsesFilesysLock, filesysCalls, decide_eq_true_eq, List.mem_cons,
    List.not_mem_nil, or_false] at h
  omega

/-- A page fault on a user address during a call: `page_fault` releases `filesys_lock` if the
call takes it, which is exactly when it is held, and exits. -/
theorem pageFault_spec (hE : ∀ e c, e.Safe → Confined c → E e c) (hk : k ≠ -1)
    (hb : b = syscallUsesFilesysLock k) {a : UInt32} (ha : isUserVaddr a = true) :
    Triple (At k b m) (pageFault a : SysM α) Q E := by
  refine Triple.get_bind fun c₀ h₀ => ?_
  rw [h₀.call, if_pos ⟨hk, ha⟩]
  cases b with
  | false =>
    have hnot : ¬(k > 0 ∧ syscallUsesFilesysLock k = true) := by simp [← hb]
    rw [if_neg hnot]
    exact Triple.seq (Triple.pure fun _ h => h) ((exitsOk_free hE).triple _)
  | true =>
    rw [if_pos ⟨pos_of_syscallUsesFilesysLock hb.symm, hb.symm⟩]
    exact Triple.seq lockRelease_spec ((exitsOk_free hE).triple _)

end Exits

theorem ofNat_lt_iff {n : Nat} {x : UInt32} (h : n ≤ PHYS_BASE.toNat) :
    UInt32.ofNat n < x ↔ n < x.toNat := by
  rw [UInt32.lt_iff_toNat_lt, toNat_ofNat_of_le h]

theorem ofNat_succ (n : Nat) : UInt32.ofNat n + 1 = UInt32.ofNat (n + 1) := by
  rw [UInt32.ofNat_add]
  rfl

/-- `args[2]` and `args[3]` lie in a region validated from `&args[1]` on. -/
theorem arg1_below {args : UInt32} {n : Nat} (h : (args + 4).toNat + n ≤ PHYS_BASE.toNat)
    (hn : 4 ≤ n) : (args + 4).toNat + 4 ≤ PHYS_BASE.toNat := by
  omega

theorem arg2_below {args : UInt32} {n : Nat} (h : (args + 4).toNat + n ≤ PHYS_BASE.toNat)
    (hn : 8 ≤ n) : (args + 8).toNat + 4 ≤ PHYS_BASE.toNat := by
  have e : args + 8 = args + 4 + 4 := by rw [UInt32.add_assoc]; rfl
  rw [e, toNat_add_of_le (by have : (4 : UInt32).toNat = 4 := rfl; omega)]
  exact Nat.le_trans (by have : (4 : UInt32).toNat = 4 := rfl; omega) h

theorem arg3_below {args : UInt32} {n : Nat} (h : (args + 4).toNat + n ≤ PHYS_BASE.toNat)
    (hn : 12 ≤ n) : (args + 12).toNat + 4 ≤ PHYS_BASE.toNat := by
  have e : args + 12 = args + 4 + 8 := by rw [UInt32.add_assoc]; rfl
  rw [e, toNat_add_of_le (by have : (8 : UInt32).toNat = 8 := rfl; omega)]
  exact Nat.le_trans (by have : (8 : UInt32).toNat = 8 := rfl; omega) h

/-! ## Memory -/

section Memory

variable {k : Int} {b : Bool} {m : UserMem} {E : Stop → Ctx → Prop}
  (hE : ∀ e c, e.Safe → Confined c → E e c) (hk : k ≠ -1) (hb : b = syscallUsesFilesysLock k)
include hE hk hb

/-- A byte read for the process: it faults (and the process exits) on an unmapped user page. -/
theorem readByte_spec {a : UInt32} (ha : a ≤ PHYS_BASE) :
    Triple (At k b m) (readByte a) (fun v c => v = m.byte a ∧ At k b m c) E := by
  refine Triple.get_bind fun c₀ h₀ => Triple.ite (fun hf => pageFault_spec hE hk hb hf.1) fun _ => ?_
  refine Triple.seq (I := At k b m) (Triple.modify fun c hc => ?_) (Triple.pure fun c hc => ⟨by rw [h₀.mem], hc⟩)
  exact ⟨hc.call, hc.lock, hc.mem, confined_touch.mpr ⟨ha, hc.confined⟩⟩

theorem writeByte_spec {a : UInt32} (ha : a ≤ PHYS_BASE) (v : UInt8) :
    Triple (At k b m) (writeByte a v)
      (fun _ => At k b { m with byte := Function.update m.byte a v }) E := by
  refine Triple.get_bind fun c₀ h₀ => Triple.ite (fun hf => pageFault_spec hE hk hb hf.1) fun _ => ?_
  refine Triple.modify fun c hc => ⟨hc.call, hc.lock, by rw [← hc.mem], ?_⟩
  exact (confined_touch.mpr ⟨ha, hc.confined⟩ : Confined { c with touched := a :: c.touched })

/-- `args[k]`: four bytes below `PHYS_BASE`. -/
theorem readWord_spec {a : UInt32} (ha : a.toNat + 4 ≤ PHYS_BASE.toNat) :
    Triple (At k b m) (readWord a) (fun w c => w = m.word a ∧ At k b m c) E := by
  have hoff : ∀ j : UInt32, j.toNat < 4 → a + j ≤ PHYS_BASE := fun j hj =>
    le_PHYS_BASE (by rw [toNat_add_of_le (by omega)]; omega)
  refine (readByte_spec hE hk hb (le_PHYS_BASE (by omega))).bind fun b₀ =>
    Triple.pure_pre fun h₀ => ?_
  refine (readByte_spec hE hk hb (hoff 1 (by decide))).bind fun b₁ => Triple.pure_pre fun h₁ => ?_
  refine (readByte_spec hE hk hb (hoff 2 (by decide))).bind fun b₂ => Triple.pure_pre fun h₂ => ?_
  refine (readByte_spec hE hk hb (hoff 3 (by decide))).bind fun b₃ => Triple.pure_pre fun h₃ => ?_
  exact Triple.pure fun c hc => ⟨by rw [h₀, h₁, h₂, h₃]; rfl, hc⟩

/-- The loop over `[p, p + n)` reads only below `PHYS_BASE`. -/
theorem readBuffer_spec {p : UInt32} {n : Nat} (hp : p.toNat + n ≤ PHYS_BASE.toNat) :
    Triple (At k b m) (readBuffer p n) (fun _ => At k b m) E :=
  Triple.forRange (I := fun _ => At k b m) fun i hi =>
    (readByte_spec hE hk hb (le_PHYS_BASE (by rw [offset_toNat hp (Nat.le_of_lt hi)]; omega))).bind
      fun _ => Triple.pure fun _ hc => hc.2

/-- The loop over `[p, p + n)` writes only below `PHYS_BASE`; the memory it leaves is
any. -/
theorem writeBuffer_spec {p : UInt32} {n : Nat} (hp : p.toNat + n ≤ PHYS_BASE.toNat) (v : UInt8) :
    Triple (At k b m) (writeBuffer p n v) (fun _ c => ∃ m', At k b m' c) E := by
  refine (Triple.forRange (I := fun _ c => ∃ m', At k b m' c) fun i hi => ?_).conseq
    (fun c hc => ⟨m, hc⟩) (fun _ _ h => h) (fun _ _ h => h)
  refine Triple.exists_pre fun m' => (writeByte_spec hE hk hb ?_ v).conseq (fun _ h => h)
    (fun _ c h => ⟨_, h⟩) (fun _ _ h => h)
  exact le_PHYS_BASE (by rw [offset_toNat hp (Nat.le_of_lt hi)]; omega)

/-- `strnlen`'s loop from `length` on, when `string[length']` is not NUL for `length' <
length`: it returns `maxlen` or the place of the first NUL before it. -/
theorem strnlenFrom_spec {s maxlen : UInt32} (hs : s.toNat + maxlen.toNat ≤ PHYS_BASE.toNat)
    (fuel len : Nat) (hlen : len ≤ maxlen.toNat) (hfuel : maxlen.toNat - len < fuel)
    (hnz : ∀ j < len, m.byte (s + UInt32.ofNat j) ≠ 0) :
    Triple (At k b m) (strnlenFrom s maxlen fuel (UInt32.ofNat len))
      (fun r c => (r ≠ maxlen → ∃ n < maxlen.toNat, NulAt m s n) ∧ At k b m c) E := by
  induction fuel generalizing len with
  | zero => exact absurd hfuel (Nat.not_lt_zero _)
  | succ fuel ih =>
    have hlen' : len ≤ PHYS_BASE.toNat := by omega
    have haddr : s + UInt32.ofNat len ≤ PHYS_BASE :=
      le_PHYS_BASE (by rw [offset_toNat hs hlen]; omega)
    rw [strnlenFrom]
    refine (readByte_spec hE hk hb haddr).bind fun v => Triple.pure_pre fun hv =>
      Triple.ite (fun hmore => ?_) (fun hstop => ?_)
    · -- `string[length]` is no NUL and `length < maxlen`: one more turn
      have hlt : len < maxlen.toNat := (ofNat_lt_iff hlen').mp hmore.2
      rw [ofNat_succ]
      refine ih (len + 1) hlt (by omega) fun j hj => ?_
      rcases Nat.lt_succ_iff_lt_or_eq.mp hj with hj | rfl
      · exact hnz j hj
      · exact hv ▸ hmore.1
    · -- the loop ends at `length`, on a NUL unless `length = maxlen`
      refine Triple.pure fun c hc => ⟨fun hne => ⟨len, ?_, ?_, hnz⟩, hc⟩
      · exact Nat.lt_of_le_of_ne hlen fun h => hne (by rw [h]; exact UInt32.ofNat_toNat)
      · have hlt : len < maxlen.toNat :=
          Nat.lt_of_le_of_ne hlen fun h => hne (by rw [h]; exact UInt32.ofNat_toNat)
        have hv0 : v = 0 := by
          by_contra h0
          exact hstop ⟨h0, (ofNat_lt_iff hlen').mpr hlt⟩
        rw [← hv, hv0]

/-- `strnlen (s, maxlen)` over a region below `PHYS_BASE`: a result other than `maxlen` is the
place of the string's first NUL. -/
theorem strnlen_spec {s maxlen : UInt32} (hs : s.toNat + maxlen.toNat ≤ PHYS_BASE.toNat) :
    Triple (At k b m) (strnlen s maxlen)
      (fun r c => (r ≠ maxlen → ∃ n < maxlen.toNat, NulAt m s n) ∧ At k b m c) E :=
  strnlenFrom_spec hE hk hb hs (maxlen.toNat + 1) 0 (Nat.zero_le _) (by omega)
    fun _ h => absurd h (Nat.not_lt_zero _)

/-- `strlen` on a string whose first NUL lies below `PHYS_BASE` reads up to it. -/
theorem strlenFrom_spec {s : UInt32} {n : Nat} (hn : s.toNat + n < PHYS_BASE.toNat)
    (hnul : NulAt m s n) (fuel len : Nat) (hlen : len ≤ n) (hfuel : n - len < fuel) :
    Triple (At k b m) (strlenFrom s fuel (UInt32.ofNat len))
      (fun r c => r = UInt32.ofNat n ∧ At k b m c) E := by
  induction fuel generalizing len with
  | zero => exact absurd hfuel (Nat.not_lt_zero _)
  | succ fuel ih =>
    have haddr : s + UInt32.ofNat len ≤ PHYS_BASE :=
      le_PHYS_BASE (by rw [offset_toNat (Nat.le_of_lt hn) hlen]; omega)
    rw [strlenFrom]
    refine (readByte_spec hE hk hb haddr).bind fun v => Triple.pure_pre fun hv =>
      Triple.ite (fun h0 => ?_) (fun h0 => ?_)
    · -- a NUL at `len`: it is the first one, at `n`
      have hln : len = n := by
        by_contra hne
        exact hnul.2 len (Nat.lt_of_le_of_ne hlen hne) (hv ▸ h0)
      exact Triple.pure fun c hc => ⟨by rw [hln], hc⟩
    · have hne : len ≠ n := fun h => h0 (by rw [hv, h]; exact hnul.1)
      rw [ofNat_succ]
      exact ih (len + 1) (by omega) (by omega)

theorem strlen_spec {s : UInt32} {n : Nat} (hn : s.toNat + n < PHYS_BASE.toNat)
    (hnul : NulAt m s n) :
    Triple (At k b m) (strlen s) (fun r c => r = UInt32.ofNat n ∧ At k b m c) E :=
  strlenFrom_spec hE hk hb hn hnul (2 ^ 32) 0 (Nat.zero_le _)
    (by rw [PHYS_BASE_toNat] at hn; omega)

/-- A string that ends below `PHYS_BASE` is handed on with its NUL below it. -/
theorem passString_spec {s : UInt32} (h : StringBelow m s) :
    Triple (At k b m) (passString s) (fun _ => At k b m) E := by
  obtain ⟨n, hn, hnul⟩ := h
  refine (strlen_spec hE hk hb hn hnul).bind fun r => Triple.pure_pre fun hr =>
    Triple.modify fun c hc => ⟨hc.call, hc.lock, hc.mem, confined_pass.mpr ⟨?_, hc.confined⟩⟩
  show s.toNat + r.toNat < PHYS_BASE.toNat
  rw [hr, toNat_ofNat_of_le (by omega)]
  exact hn

end Memory

/-! ## Validation -/

section Validation

variable {k : Int} {b : Bool} {m : UserMem} {E : Stop → Ctx → Prop}

theorem bufferBelow_of_safe {p length : UInt32} (h : safeValidateBufferInUserRegion p length = true) :
    p.toNat + length.toNat ≤ PHYS_BASE.toNat :=
  (bufferBelow_iff.mp h).2

/-- `validate_buffer_in_user_region` returns only for a buffer below `PHYS_BASE`. -/
theorem validateBuffer_spec (hx : ExitsOk (At k b m) E) (p length : UInt32) :
    Triple (At k b m) (validateBufferInUserRegion p length)
      (fun _ c => p.toNat + length.toNat ≤ PHYS_BASE.toNat ∧ At k b m c) E := by
  refine Triple.ite (fun _ => hx.triple _) fun hok => Triple.pure fun c hc => ⟨?_, hc⟩
  refine (bufferBelow_iff.mp ?_).2
  cases hu : isUserVaddr p <;> simp_all

/-- A string on which `strnlen (s, PHYS_BASE - s)` stops short of `PHYS_BASE` ends below it. -/
theorem stringBelow_of_strnlen {s : UInt32} (hs : s < PHYS_BASE)
    (h : ∃ n < (PHYS_BASE - s).toNat, NulAt m s n) : StringBelow m s := by
  obtain ⟨n, hn, hnul⟩ := h
  have := toNat_delta hs
  exact ⟨n, by omega, hnul⟩

theorem lt_of_isUserVaddr {s : UInt32} (h : isUserVaddr s = true) : s < PHYS_BASE :=
  of_decide_eq_true h

section Strings

variable (hE : ∀ e c, e.Safe → Confined c → E e c) (hk : k ≠ -1)
  (hb : b = syscallUsesFilesysLock k)
include hE hk hb

/-- `validate_string_in_user_region` returns only for a string that ends below `PHYS_BASE`. -/
theorem validateString_spec (hx : ExitsOk (At k b m) E) (s : UInt32) :
    Triple (At k b m) (validateStringInUserRegion s) (fun _ c => StringBelow m s ∧ At k b m c) E := by
  refine Triple.ite (fun _ => hx.triple _) fun huser => ?_
  have hs : s < PHYS_BASE := lt_of_isUserVaddr (by simpa using huser)
  refine (strnlen_spec hE hk hb (Nat.le_of_eq (toNat_delta hs))).bind fun r =>
    Triple.pure_pre fun hr => Triple.ite (fun _ => hx.triple _) fun hne => ?_
  exact Triple.pure fun c hc => ⟨stringBelow_of_strnlen hs (hr hne), hc⟩

theorem safeValidateString_spec (s : UInt32) :
    Triple (At k b m) (safeValidateStringInUserRegion s)
      (fun ok c => (ok = true → StringBelow m s) ∧ At k b m c) E := by
  refine Triple.ite (fun huser => ?_) fun _ => Triple.pure fun c hc => ⟨(fun h => nomatch h), hc⟩
  have hs : s < PHYS_BASE := lt_of_isUserVaddr huser
  refine (strnlen_spec hE hk hb (Nat.le_of_eq (toNat_delta hs))).bind fun r =>
    Triple.pure_pre fun hr => Triple.pure fun c hc => ⟨fun hok => ?_, hc⟩
  exact stringBelow_of_strnlen hs (hr (of_decide_eq_true hok))

/-- The test of `SYS_CREATE`, `SYS_REMOVE` and `SYS_OPEN` passes only for argument words and a
name below `PHYS_BASE`. -/
theorem safeValidateName_spec {args words : UInt32} (hw : 4 ≤ words.toNat) :
    Triple (At k b m) (safeValidateName args words)
      (fun ok c => (ok = true → (args + 4).toNat + words.toNat ≤ PHYS_BASE.toNat ∧
        StringBelow m (m.word (args + 4))) ∧ At k b m c) E := by
  refine Triple.ite (fun hv => ?_) fun _ => Triple.pure fun c hc => ⟨(fun h => nomatch h), hc⟩
  have hbuf := bufferBelow_of_safe hv
  refine (readWord_spec hE hk hb (by omega)).bind fun file => Triple.pure_pre fun hf => ?_
  subst hf
  exact (safeValidateString_spec hE hk hb _).conseq (fun _ h => h)
    (fun ok c h => ⟨fun hok => ⟨hbuf, h.1 hok⟩, h.2⟩) (fun _ _ h => h)

/-- The test of `SYS_READ` passes only for argument words and a buffer below `PHYS_BASE`. -/
theorem safeValidateReadArgs_spec (args : UInt32) :
    Triple (At k b m) (safeValidateReadArgs args)
      (fun ok c => (ok = true → (args + 4).toNat + 12 ≤ PHYS_BASE.toNat ∧
        (m.word (args + 8)).toNat + (m.word (args + 12)).toNat ≤ PHYS_BASE.toNat) ∧
        At k b m c) E := by
  refine Triple.ite (fun hv => ?_) fun _ => Triple.pure fun c hc => ⟨(fun h => nomatch h), hc⟩
  have hargs := bufferBelow_of_safe hv
  refine (readWord_spec hE hk hb (arg2_below hargs (by decide))).bind fun buffer =>
    Triple.pure_pre fun h₂ => ?_
  refine (readWord_spec hE hk hb (arg3_below hargs (by decide))).bind fun size =>
    Triple.pure_pre fun h₃ => ?_
  subst h₂ h₃
  exact Triple.pure fun c hc => ⟨fun hok => ⟨hargs, bufferBelow_of_safe hok⟩, hc⟩

end Strings

end Validation

/-! ## The calls -/

section Calls

variable {k : Int} {b : Bool} {m : UserMem} {E : Stop → Ctx → Prop}

theorem passBuffer_spec {p length : UInt32} (h : p.toNat + length.toNat ≤ PHYS_BASE.toNat) :
    Triple (At k b m) (passBuffer p length) (fun _ => At k b m) E :=
  Triple.modify fun _ hc => ⟨hc.call, hc.lock, hc.mem, confined_pass.mpr ⟨h, hc.confined⟩⟩

theorem setEax_spec (v : UInt32) : Triple (At k b m) (setEax v) (fun _ => At k b m) E :=
  Triple.modify fun _ hc => ⟨hc.call, hc.lock, hc.mem, hc.confined⟩

/-- `find_file_descriptor` only reads the state. -/
theorem findFileDescriptor_spec {P : Ctx → Prop} (fd : Int) :
    Triple P (findFileDescriptor fd) (fun _ => P) E :=
  Triple.ite (fun _ => Triple.pure fun _ h => h) fun _ =>
    Triple.get_bind fun _ _ => Triple.pure fun _ h => h

theorem syscallFilesize_spec {P : Ctx → Prop} (env : Env) (fd : Int) :
    Triple P (syscallFilesize env fd) (fun _ => P) E :=
  (findFileDescriptor_spec fd).bind fun o => by
    cases o with
    | none => exact Triple.pure fun _ h => h
    | some _ => exact Triple.pure fun _ h => h

theorem syscallTell_spec {P : Ctx → Prop} (env : Env) (fd : Int) :
    Triple P (syscallTell env fd) (fun _ => P) E :=
  (findFileDescriptor_spec fd).bind fun o => by
    cases o with
    | none => exact Triple.pure fun _ h => h
    | some _ => exact Triple.pure fun _ h => h

theorem syscallClose_spec (fd : Int) :
    Triple (At k b m) (syscallClose fd) (fun _ => At k b m) E :=
  (findFileDescriptor_spec fd).bind fun o => by
    cases o with
    | none => exact Triple.pure fun _ h => h
    | some _ =>
      exact Triple.seq (Triple.modify fun _ hc => ⟨hc.call, hc.lock, hc.mem, hc.confined⟩)
        (Triple.pure fun _ h => h)

/-- `syscall_seek` fails an assertion twice over: it exits holding `filesys_lock` on a bad
descriptor, and `file_seek` gets a position of `2 ^ 31` or more as a negative `off_t`. -/
theorem syscallSeek_spec (hx : ExitsOk (At k b m) E)
    (hseek : ∀ c, At k b m c → E (.panic .fileSeekNegative) c) (fd : Int) (position : UInt32) :
    Triple (At k b m) (syscallSeek fd position) (fun _ => At k b m) E :=
  (findFileDescriptor_spec fd).bind fun o => by
    cases o with
    | none => exact hx.triple _
    | some _ => exact Triple.ite (fun _ => Triple.pure fun _ h => h) fun _ => Triple.stop hseek

/-- The failure branch of a locked case releases `filesys_lock` before it exits. -/
theorem releaseAndExitUnless_spec (hE : ∀ e c, e.Safe → Confined c → E e c) {valid : Bool}
    {φ : Prop} (h : valid = true → φ) :
    Triple (At k true m) (releaseAndExitUnless valid) (fun _ c => φ ∧ At k true m c) E :=
  Triple.ite (fun hv => Triple.pure fun _ hc => ⟨h hv, hc⟩) fun _ =>
    Triple.seq lockRelease_spec ((exitsOk_free hE).triple _)

section Memory

variable (hE : ∀ e c, e.Safe → Confined c → E e c) (hk : k ≠ -1)
  (hb : b = syscallUsesFilesysLock k)
include hE hk hb

theorem syscallWrite_spec (env : Env) (fd : Int) {buffer size : UInt32}
    (hbuf : buffer.toNat + size.toNat ≤ PHYS_BASE.toNat) :
    Triple (At k b m) (syscallWrite env fd buffer size) (fun _ => At k b m) E := by
  refine Triple.ite (fun _ => Triple.pure fun _ h => h) fun _ =>
    Triple.ite (fun _ => Triple.pure fun _ h => h) fun _ => Triple.ite (fun _ => ?_) fun _ => ?_
  · -- `putbuf`
    exact Triple.seq (passBuffer_spec hbuf)
      (Triple.seq (readBuffer_spec hE hk hb hbuf) (Triple.pure fun _ h => h))
  · refine (findFileDescriptor_spec fd).bind fun o => ?_
    cases o with
    | none => exact Triple.pure fun _ h => h
    | some file =>
      exact Triple.seq (passBuffer_spec hbuf)
        (Triple.seq (readBuffer_spec hE hk hb (by omega)) (Triple.pure fun _ h => h))

theorem syscallRead_spec (env : Env) (fd : Int) {buffer size : UInt32}
    (hbuf : buffer.toNat + size.toNat ≤ PHYS_BASE.toNat) :
    Triple (At k b m) (syscallRead env fd buffer size) (fun _ c => ∃ m', At k b m' c) E := by
  refine Triple.ite (fun _ => ?_) fun _ => ?_
  · -- `input_getc` into every byte
    exact Triple.seq (passBuffer_spec hbuf)
      (Triple.seq (writeBuffer_spec hE hk hb hbuf _) (Triple.pure fun _ h => h))
  · refine (findFileDescriptor_spec fd).bind fun o => ?_
    cases o with
    | none => exact Triple.pure fun _ h => ⟨m, h⟩
    | some file =>
      exact Triple.seq (passBuffer_spec hbuf)
        (Triple.seq (writeBuffer_spec hE hk hb (by omega) _) (Triple.pure fun _ h => h))

theorem syscallCreate_spec (env : Env) {file : UInt32} (hs : StringBelow m file)
    (initialSize : UInt32) :
    Triple (At k b m) (syscallCreate env file initialSize) (fun _ => At k b m) E :=
  Triple.seq (passString_spec hE hk hb hs) (Triple.pure fun _ h => h)

theorem syscallRemove_spec (env : Env) {file : UInt32} (hs : StringBelow m file) :
    Triple (At k b m) (syscallRemove env file) (fun _ => At k b m) E :=
  Triple.ite (fun _ => Triple.pure fun _ h => h) fun _ =>
    Triple.seq (passString_spec hE hk hb hs) (Triple.pure fun _ h => h)

theorem syscallOpen_spec (env : Env) {file : UInt32} (hs : StringBelow m file) :
    Triple (At k b m) (syscallOpen env file) (fun _ => At k b m) E := by
  refine Triple.ite (fun _ => Triple.pure fun _ h => h) fun _ =>
    Triple.seq (passString_spec hE hk hb hs) ?_
  cases env.openFile file with
  | none => exact Triple.pure fun _ h => h
  | some f =>
    refine Triple.ite (fun _ => Triple.get_bind fun _ _ => ?_) fun _ => Triple.pure fun _ h => h
    exact Triple.seq (Triple.modify fun _ hc => ⟨hc.call, hc.lock, hc.mem, hc.confined⟩)
      (Triple.pure fun _ h => h)

end Memory

end Calls

/-! ## The cases of the switch -/

/-- The switch is done: `filesys_lock` is free and nothing outside the user space was touched. -/
def Released (c : Ctx) : Prop := c.holdsFilesysLock = false ∧ Confined c

/-- The labels of the switch, the call numbers of `syscall-nr.h` it handles. -/
def switchLabels : List Nat := [1, 9, 13, 0, 2, 3, 24, 4, 5, 6, 7, 12, 8, 11, 10]

section Cases

variable {m : UserMem} {E : Stop → Ctx → Prop}

theorem released_of_at {k : Int} {c : Ctx} (h : At k false m c) : Released c :=
  ⟨h.lock, h.confined⟩

theorem setEax_released {k : Int} (v : UInt32) :
    Triple (At k false m) (setEax v) (fun _ => Released) E :=
  (setEax_spec v).conseq (fun _ h => h) (fun _ _ h => released_of_at h) (fun _ _ h => h)

theorem lockRelease_released {k : Int} :
    Triple (At k true m) lockRelease (fun _ => Released) E :=
  lockRelease_spec.conseq (fun _ h => h) (fun _ _ h => released_of_at h) (fun _ _ h => h)

variable (hE : ∀ e c, e.Safe → Confined c → E e c) (env : Env) (args : UInt32) {nr : UInt32}
include hE

/-- `SYS_CREATE`, `SYS_REMOVE`, `SYS_OPEN`: the call gets a name that ends below `PHYS_BASE`. -/
theorem nameCall_spec {k : Int} (hk : k ≠ -1) (hb : true = syscallUsesFilesysLock k)
    {words : UInt32} (hw : 4 ≤ words.toNat) {call : UInt32 → SysM UInt32}
    (hcall : (args + 4).toNat + words.toNat ≤ PHYS_BASE.toNat →
      StringBelow m (m.word (args + 4)) →
      Triple (At k true m) (call (m.word (args + 4))) (fun _ => At k true m) E) :
    Triple (At k false m) (nameCall args words call) (fun _ => Released) E := by
  refine Triple.seq lockAcquire_spec ?_
  refine (safeValidateName_spec hE hk hb hw).bind fun valid => Triple.pure_pre fun hvalid => ?_
  refine (releaseAndExitUnless_spec hE hvalid).bind fun _ =>
    Triple.pure_pre fun ⟨hargs, hname⟩ => ?_
  refine (readWord_spec hE hk hb (arg1_below hargs hw)).bind fun file => Triple.pure_pre fun hf => ?_
  subst hf
  refine (hcall hargs hname).bind fun _ => ?_
  exact Triple.seq (setEax_spec _) lockRelease_released

/-- `SYS_FILESIZE`, `SYS_TELL`: one descriptor under `filesys_lock`. -/
theorem fdCall_spec {k : Int} (hk : k ≠ -1) (hb : true = syscallUsesFilesysLock k)
    {call : Int → SysM Int} (hcall : ∀ fd, Triple (At k true m) (call fd) (fun _ => At k true m) E) :
    Triple (At k false m) (fdCall args call) (fun _ => Released) E := by
  refine Triple.seq lockAcquire_spec ?_
  refine (releaseAndExitUnless_spec hE bufferBelow_of_safe).bind fun _ =>
    Triple.pure_pre fun hargs => ?_
  refine (readWord_spec hE hk hb (arg1_below hargs (by decide))).bind fun fd =>
    Triple.pure_pre fun _ => ?_
  exact (hcall _).bind fun _ => Triple.seq (setEax_spec _) lockRelease_released

theorem switch_exit (h : nr.toNat = 1) :
    Triple (At 1 false m) (syscallSwitch env args nr) (fun _ => Released) E := by
  rw [syscallSwitch, h]
  refine (validateBuffer_spec (exitsOk_free hE) _ _).bind fun _ => Triple.pure_pre fun hv => ?_
  refine (readWord_spec hE (by decide) (by decide) hv).bind fun _ => Triple.pure_pre fun _ => ?_
  exact (exitsOk_free hE).triple _

/-- `SYS_WRITE` validates its words and its buffer with the exiting validators while it holds
`filesys_lock`: a bad pointer fails `lock_acquire`'s assertion in `process_exit`. -/
theorem switch_write (hbad : ∀ c, Confined c → c.currentSyscall = 9 →
    E (.panic .lockAcquireHeld) c) (h : nr.toNat = 9) :
    Triple (At 9 false m) (syscallSwitch env args nr) (fun _ => Released) E := by
  rw [syscallSwitch, h]
  have hx : ExitsOk (At 9 true m) E := exitsOk_held hbad
  refine Triple.seq lockAcquire_spec ?_
  refine (validateBuffer_spec hx _ _).bind fun _ => Triple.pure_pre fun hargs => ?_
  refine (readWord_spec hE (by decide) (by decide) (arg2_below hargs (by decide))).bind
    fun buffer => Triple.pure_pre fun _ => ?_
  refine (readWord_spec hE (by decide) (by decide) (arg3_below hargs (by decide))).bind
    fun size => Triple.pure_pre fun _ => ?_
  refine (validateBuffer_spec hx buffer size).bind fun _ => Triple.pure_pre fun hbuf => ?_
  refine (readWord_spec hE (by decide) (by decide) (arg1_below hargs (by decide))).bind
    fun fd => Triple.pure_pre fun _ => ?_
  refine (syscallWrite_spec hE (by decide) (by decide) env _ hbuf).bind fun _ => ?_
  exact Triple.seq (setEax_spec _) lockRelease_released

theorem switch_practice (h : nr.toNat = 13) :
    Triple (At 13 false m) (syscallSwitch env args nr) (fun _ => Released) E := by
  rw [syscallSwitch, h]
  refine (validateBuffer_spec (exitsOk_free hE) _ _).bind fun _ => Triple.pure_pre fun hv => ?_
  refine (readWord_spec hE (by decide) (by decide) hv).bind fun _ => Triple.pure_pre fun _ => ?_
  exact setEax_released _

theorem switch_halt (h : nr.toNat = 0) :
    Triple (At 0 false m) (syscallSwitch env args nr) (fun _ => Released) E := by
  rw [syscallSwitch, h]
  exact Triple.stop fun c hc => hE _ _ trivial hc.confined

theorem switch_exec (h : nr.toNat = 2) :
    Triple (At 2 false m) (syscallSwitch env args nr) (fun _ => Released) E := by
  rw [syscallSwitch, h]
  refine (validateBuffer_spec (exitsOk_free hE) _ _).bind fun _ => Triple.pure_pre fun hv => ?_
  refine (readWord_spec hE (by decide) (by decide) hv).bind fun cmdLine =>
    Triple.pure_pre fun _ => ?_
  refine (validateString_spec hE (by decide) (by decide) (exitsOk_free hE) cmdLine).bind fun _ =>
    Triple.pure_pre fun hs => ?_
  exact Triple.seq (passString_spec hE (by decide) (by decide) hs) (setEax_released _)

theorem switch_wait (h : nr.toNat = 3) :
    Triple (At 3 false m) (syscallSwitch env args nr) (fun _ => Released) E := by
  rw [syscallSwitch, h]
  refine (validateBuffer_spec (exitsOk_free hE) _ _).bind fun _ => Triple.pure_pre fun hv => ?_
  refine (readWord_spec hE (by decide) (by decide) hv).bind fun _ => Triple.pure_pre fun _ => ?_
  exact setEax_released _

omit hE in
theorem switch_fork (h : nr.toNat = 24) :
    Triple (At 24 false m) (syscallSwitch env args nr) (fun _ => Released) E := by
  rw [syscallSwitch, h]
  exact setEax_released _

theorem switch_create (h : nr.toNat = 4) :
    Triple (At 4 false m) (syscallSwitch env args nr) (fun _ => Released) E := by
  rw [syscallSwitch, h]
  refine nameCall_spec hE args (by decide) (by decide) (by decide) fun hargs hname => ?_
  refine (readWord_spec hE (by decide) (by decide) (arg2_below hargs (by decide))).bind fun _ =>
    Triple.pure_pre fun _ => ?_
  exact (syscallCreate_spec hE (by decide) (by decide) env hname _).bind fun _ =>
    Triple.pure fun _ h => h

theorem switch_remove (h : nr.toNat = 5) :
    Triple (At 5 false m) (syscallSwitch env args nr) (fun _ => Released) E := by
  rw [syscallSwitch, h]
  exact nameCall_spec hE args (by decide) (by decide) (by decide) fun _ hname =>
    (syscallRemove_spec hE (by decide) (by decide) env hname).bind fun _ => Triple.pure fun _ h => h

theorem switch_open (h : nr.toNat = 6) :
    Triple (At 6 false m) (syscallSwitch env args nr) (fun _ => Released) E := by
  rw [syscallSwitch, h]
  exact nameCall_spec hE args (by decide) (by decide) (by decide) fun _ hname =>
    (syscallOpen_spec hE (by decide) (by decide) env hname).bind fun _ => Triple.pure fun _ h => h

theorem switch_filesize (h : nr.toNat = 7) :
    Triple (At 7 false m) (syscallSwitch env args nr) (fun _ => Released) E := by
  rw [syscallSwitch, h]
  exact fdCall_spec hE args (by decide) (by decide) (syscallFilesize_spec env)

theorem switch_tell (h : nr.toNat = 11) :
    Triple (At 11 false m) (syscallSwitch env args nr) (fun _ => Released) E := by
  rw [syscallSwitch, h]
  exact fdCall_spec hE args (by decide) (by decide) (syscallTell_spec env)

theorem switch_close (h : nr.toNat = 12) :
    Triple (At 12 false m) (syscallSwitch env args nr) (fun _ => Released) E := by
  rw [syscallSwitch, h]
  refine Triple.seq lockAcquire_spec ?_
  refine (releaseAndExitUnless_spec hE bufferBelow_of_safe).bind fun _ =>
    Triple.pure_pre fun hargs => ?_
  refine (readWord_spec hE (by decide) (by decide) (arg1_below hargs (by decide))).bind fun fd =>
    Triple.pure_pre fun _ => ?_
  refine (syscallClose_spec _).bind fun success => Triple.seq lockRelease_spec ?_
  -- a descriptor that is not open makes the process exit, after the lock is released
  exact Triple.ite (fun _ => Triple.pure fun _ hc => released_of_at hc) fun _ =>
    (exitsOk_free hE).triple _

theorem switch_read (h : nr.toNat = 8) :
    Triple (At 8 false m) (syscallSwitch env args nr) (fun _ => Released) E := by
  rw [syscallSwitch, h]
  refine Triple.seq lockAcquire_spec ?_
  refine (safeValidateReadArgs_spec hE (by decide) (by decide) args).bind fun valid =>
    Triple.pure_pre fun hvalid => ?_
  refine (releaseAndExitUnless_spec hE hvalid).bind fun _ =>
    Triple.pure_pre fun ⟨hargs, hbuf⟩ => ?_
  refine (readWord_spec hE (by decide) (by decide) (arg2_below hargs (by decide))).bind
    fun buffer => Triple.pure_pre fun h₂ => ?_
  refine (readWord_spec hE (by decide) (by decide) (arg3_below hargs (by decide))).bind
    fun size => Triple.pure_pre fun h₃ => ?_
  refine (readWord_spec hE (by decide) (by decide) (arg1_below hargs (by decide))).bind
    fun fd => Triple.pure_pre fun _ => ?_
  subst h₂ h₃
  refine (syscallRead_spec hE (by decide) (by decide) env _ hbuf).bind fun _ =>
    Triple.exists_pre fun _ => ?_
  exact Triple.seq (setEax_spec _) lockRelease_released

/-- `SYS_SEEK` can fail two assertions: `syscall_seek` exits holding `filesys_lock` on a bad
descriptor, and `file_seek` rejects a position of `2 ^ 31` or more. -/
theorem switch_seek (hbad : ∀ c, Confined c → c.currentSyscall = 10 →
    E (.panic .lockAcquireHeld) c)
    (hseek : ∀ c, Confined c → c.currentSyscall = 10 → E (.panic .fileSeekNegative) c)
    (h : nr.toNat = 10) :
    Triple (At 10 false m) (syscallSwitch env args nr) (fun _ => Released) E := by
  rw [syscallSwitch, h]
  refine Triple.seq lockAcquire_spec ?_
  refine (releaseAndExitUnless_spec hE bufferBelow_of_safe).bind fun _ =>
    Triple.pure_pre fun hargs => ?_
  refine (readWord_spec hE (by decide) (by decide) (arg1_below hargs (by decide))).bind fun fd =>
    Triple.pure_pre fun _ => ?_
  refine (readWord_spec hE (by decide) (by decide) (arg2_below hargs (by decide))).bind
    fun position => Triple.pure_pre fun _ => ?_
  exact Triple.seq (syscallSeek_spec (exitsOk_held hbad)
    (fun c hc => hseek c hc.confined hc.call) _ _) lockRelease_released

omit hE in
/-- Any other number: "Unimplemented system call". -/
theorem switch_default {k : Int} (h : nr.toNat ∉ switchLabels) :
    Triple (At k false m) (syscallSwitch env args nr) (fun _ => Released) E := by
  have hpure : syscallSwitch env args nr = pure () := by
    simp only [switchLabels, List.mem_cons, List.not_mem_nil, or_false, not_or] at h
    unfold syscallSwitch
    split <;> first | rfl | omega
  rw [hpure]
  exact Triple.pure fun _ hc => released_of_at hc

end Cases

/-! ## The handler -/

/-- How the handler may stop: by an exit or a power-off, or, in `SYS_WRITE` and `SYS_SEEK`
only, by a failed assertion of `lock_acquire` or of `file_seek`; nothing outside the user
space touched either way. -/
def HandlerStop (e : Stop) (c : Ctx) : Prop :=
  Confined c ∧ (e.Safe ∨ (e = .panic .lockAcquireHeld ∨ e = .panic .fileSeekNegative) ∧
    (c.currentSyscall = 9 ∨ c.currentSyscall = 10))

theorem handlerStop_of_safe (e : Stop) (c : Ctx) (he : e.Safe) (hc : Confined c) :
    HandlerStop e c :=
  ⟨hc, .inl he⟩

/-- Every case of the switch, from the call number the handler stored in `current_syscall`. -/
theorem syscallSwitch_spec {m : UserMem} (env : Env) (args nr : UInt32) :
    Triple (At (toInt32 nr) false m) (syscallSwitch env args nr) (fun _ => Released)
      HandlerStop := by
  have hE := handlerStop_of_safe
  by_cases hn : nr.toNat ∈ switchLabels
  · have h31 : nr.toNat < 2 ^ 31 := by
      simp only [switchLabels, List.mem_cons, List.not_mem_nil, or_false] at hn
      omega
    rw [toInt32_of_lt h31]
    simp only [switchLabels, List.mem_cons, List.not_mem_nil, or_false] at hn
    -- one goal per label, in the order of the switch
    rcases hn with h | h | h | h | h | h | h | h | h | h | h | h | h | h | h <;> rw [h]
    · exact switch_exit hE env args h
    · exact switch_write hE env args (fun c hc h9 => ⟨hc, .inr ⟨.inl rfl, .inl h9⟩⟩) h
    · exact switch_practice hE env args h
    · exact switch_halt hE env args h
    · exact switch_exec hE env args h
    · exact switch_wait hE env args h
    · exact switch_fork env args h
    · exact switch_create hE env args h
    · exact switch_remove hE env args h
    · exact switch_open hE env args h
    · exact switch_filesize hE env args h
    · exact switch_close hE env args h
    · exact switch_read hE env args h
    · exact switch_tell hE env args h
    · exact switch_seek hE env args (fun c hc h10 => ⟨hc, .inr ⟨.inl rfl, .inr h10⟩⟩)
        (fun c hc h10 => ⟨hc, .inr ⟨.inr rfl, .inr h10⟩⟩) h
  · exact switch_default env args hn

theorem syscallHandler_at (env : Env) (esp : UInt32) (m : UserMem) :
    Triple (fun c => c.holdsFilesysLock = false ∧ Confined c ∧ c.mem = m) (syscallHandler env esp)
      (fun _ c => c.holdsFilesysLock = false ∧ c.currentSyscall = -1 ∧ Confined c)
      HandlerStop := by
  unfold syscallHandler
  -- `current_syscall = 0` while the call number itself is read
  refine Triple.seq (I := At 0 false m) (Triple.modify fun _ h => ⟨rfl, h.1, h.2.2, h.2.1⟩) ?_
  refine (validateBuffer_spec (exitsOk_free handlerStop_of_safe) esp 4).bind fun _ =>
    Triple.pure_pre fun hv => ?_
  refine (readWord_spec handlerStop_of_safe (by decide) (by decide) hv).bind fun nr =>
    Triple.pure_pre fun _ => ?_
  refine Triple.seq (I := At (toInt32 nr) false m)
    (Triple.modify fun _ hc => ⟨rfl, hc.lock, hc.mem, hc.confined⟩) ?_
  exact Triple.seq (syscallSwitch_spec env esp nr) (Triple.modify fun _ hc => ⟨hc.1, rfl, hc.2⟩)

/-- **`syscall_handler`**, for every call number, stack pointer, memory and answer of the file
system: it returns to user mode with `filesys_lock` free and `current_syscall = -1`; it stops
by an exit or a power-off, or by a failed assertion in `SYS_WRITE` or `SYS_SEEK` only; and
nothing above `PHYS_BASE` is touched or handed on. -/
theorem syscallHandler_spec (env : Env) (esp : UInt32) :
    Triple (fun c => c.holdsFilesysLock = false ∧ Confined c) (syscallHandler env esp)
      (fun _ c => c.holdsFilesysLock = false ∧ c.currentSyscall = -1 ∧ Confined c)
      HandlerStop :=
  fun c₀ ⟨hl, hc⟩ => syscallHandler_at env esp c₀.mem c₀ ⟨hl, hc, rfl⟩

/-! ## Two inputs on which the handler goes wrong -/

/-- A process whose user stack at `0xBFFFFF00` holds `bytes`, with every page mapped and
writable, descriptor 2 open on file 0, and `filesys_lock` free. -/
def userCtx (bytes : UInt32 → UInt8) : Ctx where
  mem := { mapped := fun _ => true, writable := fun _ => true, byte := bytes }
  holdsFilesysLock := false
  currentSyscall := -1
  openFiles := [(2, 0)]
  nextFd := 3
  exitStatus := 0
  eax := 0
  touched := []
  passed := []

/-- A file system and a process layer that succeed and return nothing. -/
def quietEnv : Env where
  create := fun _ _ => true
  remove := fun _ => true
  openFile := fun _ => some 0
  mallocOk := true
  length := fun _ => 0
  readCount := fun _ _ => 0
  writeCount := fun _ _ => 0
  tell := fun _ => 0
  input := 0
  exec := fun _ => 0
  wait := fun _ => 0
  fork := 0

/-- The stack of `seek (2, 0x80000000)`: the words 10 (`SYS_SEEK`), 2 and `0x80000000`. -/
def seekStack (a : UInt32) : UInt8 :=
  if a = 0xBFFFFF00 then 10 else if a = 0xBFFFFF04 then 2 else if a = 0xBFFFFF0B then 0x80 else 0

/-- `seek` on an open descriptor to position `2 ^ 31`: `syscall_seek` passes the `unsigned`
position on as a negative `off_t`, and `file_seek`'s assertion fails. -/
theorem seek_position_panics :
    (syscallHandler quietEnv 0xBFFFFF00 (userCtx seekStack)).stopReason =
      some (.panic .fileSeekNegative) := by
  decide

/-- The stack of `exec (0xBFFFFFFF)`: the words 2 (`SYS_EXEC`) and `0xBFFFFFFF`, and the byte
`'a'` at `0xBFFFFFFF`, the last user address. -/
def execStack (a : UInt32) : UInt8 :=
  if a = 0xBFFFFF00 then 2 else if a = 0xBFFFFF04 then 0xFF else if a = 0xBFFFFF05 then 0xFF
  else if a = 0xBFFFFF06 then 0xFF else if a = 0xBFFFFF07 then 0xBF
  else if a = 0xBFFFFFFF then 0x61 else 0

/-- `exec` of a string that runs up to `PHYS_BASE`: the process exits with -1 as it should, but
`validate_string_in_user_region` has read the kernel byte at `PHYS_BASE` first. -/
theorem exec_string_reads_phys_base :
    (syscallHandler quietEnv 0xBFFFFF00 (userCtx execStack)).stopReason = some (.exit (-1)) ∧
      PHYS_BASE ∈ (syscallHandler quietEnv 0xBFFFFF00 (userCtx execStack)).state.touched := by
  decide

end Pintos.Userprog
