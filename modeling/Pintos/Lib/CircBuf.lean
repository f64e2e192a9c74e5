import Mathlib.Data.Nat.ModEq
import Mathlib.Logic.Function.Basic

/-!
# Circular buffers

A buffer of `n` slots with `head`, the slot the next element is written to, and `tail`, the slot
the oldest one is read from.  One slot always stays empty, so the buffer is empty when
`head = tail`, full when the slot after `head` is `tail`, and holds at most `n - 1` elements.
Nothing here is specific to one program.

* `contents` — the elements from `tail` to `head`, oldest first.
* `contents_push`, `contents_pop` — writing at `head` appends to the contents, and reading at
  `tail` takes their first element: the buffer is a FIFO queue.
* `isEmpty_iff`, `isFull_iff` — the two tests in terms of the number of elements.

The position arithmetic rests on `tail_add_size` (the elements run from `tail` for `size`
slots, up to `head`) and on `size_eq_of`, which pins the size down by that property.
-/

set_option autoImplicit false

/-- A circular buffer of `n` slots. -/
structure CircBuf (α : Type) (n : Nat) where
  buf : Nat → α
  head : Nat
  tail : Nat
  head_lt : head < n
  tail_lt : tail < n

namespace CircBuf

variable {α : Type} {n : Nat}

/-- The slot after `pos`. -/
def next (n pos : Nat) : Nat := (pos + 1) % n

/-- The number of elements. -/
def size (q : CircBuf α n) : Nat := (q.head + n - q.tail) % n

/-- The elements, oldest first. -/
def contents (q : CircBuf α n) : List α :=
  (List.range q.size).map fun i => q.buf ((q.tail + i) % n)

/-- No element: `head = tail`. -/
def isEmpty (q : CircBuf α n) : Bool := q.head == q.tail

/-- No free slot but the one kept empty: the slot after `head` is `tail`. -/
def isFull (q : CircBuf α n) : Bool := next n q.head == q.tail

theorem n_pos (q : CircBuf α n) : 0 < n := Nat.lt_of_le_of_lt (Nat.zero_le _) q.head_lt

theorem next_lt (q : CircBuf α n) (pos : Nat) : next n pos < n := Nat.mod_lt _ q.n_pos

/-- Write at `head` and move it on. -/
def push (q : CircBuf α n) (a : α) : CircBuf α n where
  buf := Function.update q.buf q.head a
  head := next n q.head
  tail := q.tail
  head_lt := q.next_lt _
  tail_lt := q.tail_lt

/-- Read at `tail` and move it on. -/
def pop (q : CircBuf α n) : α × CircBuf α n :=
  (q.buf q.tail, { q with tail := next n q.tail, tail_lt := q.next_lt _ })

@[simp] theorem length_contents (q : CircBuf α n) : q.contents.length = q.size := by
  simp [contents]

theorem size_lt (q : CircBuf α n) : q.size < n := Nat.mod_lt _ q.n_pos

/-- The elements run from `tail` for `size` slots, up to `head`. -/
theorem tail_add_size (q : CircBuf α n) : (q.tail + q.size) % n = q.head := by
  have hh := q.head_lt
  have ht := q.tail_lt
  unfold size
  by_cases h : q.tail ≤ q.head
  · rw [show q.head + n - q.tail = (q.head - q.tail) + n by omega, Nat.add_mod_right,
      Nat.mod_eq_of_lt (by omega : q.head - q.tail < n),
      show q.tail + (q.head - q.tail) = q.head by omega, Nat.mod_eq_of_lt hh]
  · rw [Nat.mod_eq_of_lt (by omega : q.head + n - q.tail < n),
      show q.tail + (q.head + n - q.tail) = q.head + n by omega, Nat.add_mod_right,
      Nat.mod_eq_of_lt hh]

/-- Offsets below `n` from one slot reach distinct slots. -/
theorem add_mod_inj {t i j : Nat} (hi : i < n) (hj : j < n) (h : (t + i) % n = (t + j) % n) :
    i = j :=
  Nat.ModEq.eq_of_lt_of_lt (Nat.ModEq.add_left_cancel' t h) hi hj

/-- The size is the one offset below `n` that leads from `tail` to `head`. -/
theorem size_eq_of (q : CircBuf α n) {k : Nat} (hk : k < n) (h : (q.tail + k) % n = q.head) :
    q.size = k :=
  add_mod_inj q.size_lt hk (by rw [q.tail_add_size, h])

theorem isEmpty_iff (q : CircBuf α n) : q.isEmpty = true ↔ q.size = 0 := by
  simp only [isEmpty, beq_iff_eq]
  constructor
  · intro h
    exact q.size_eq_of q.n_pos (by rw [Nat.add_zero, Nat.mod_eq_of_lt q.tail_lt, h])
  · intro h
    have := q.tail_add_size
    rw [h, Nat.add_zero, Nat.mod_eq_of_lt q.tail_lt] at this
    exact this.symm

theorem isFull_iff (q : CircBuf α n) : q.isFull = true ↔ q.size + 1 = n := by
  simp only [isFull, next, beq_iff_eq]
  have hs := q.size_lt
  -- `head + 1` is `tail + (size + 1)` around the ring
  have hstep : (q.head + 1) % n = (q.tail + (q.size + 1)) % n := by
    rw [← q.tail_add_size, Nat.mod_add_mod, Nat.add_assoc]
  rw [hstep]
  constructor
  · intro h
    by_contra hne
    have h0 := add_mod_inj (t := q.tail) (by omega : q.size + 1 < n) q.n_pos
      (by rw [h, Nat.add_zero, Nat.mod_eq_of_lt q.tail_lt])
    omega
  · intro h
    rw [h, Nat.add_mod_right, Nat.mod_eq_of_lt q.tail_lt]

theorem size_push (q : CircBuf α n) (a : α) (h : q.isFull = false) :
    (q.push a).size = q.size + 1 := by
  have hlt : q.size + 1 < n := by
    have := q.size_lt
    have : ¬ q.size + 1 = n := fun he => by simp [(q.isFull_iff).mpr he] at h
    omega
  refine (q.push a).size_eq_of hlt ?_
  simp only [push, next]
  rw [← q.tail_add_size, Nat.mod_add_mod, Nat.add_assoc]

/-- **Writing at `head` appends.** -/
theorem contents_push (q : CircBuf α n) (a : α) (h : q.isFull = false) :
    (q.push a).contents = q.contents ++ [a] := by
  simp only [contents, q.size_push a h, List.range_succ, List.map_append, List.map_cons,
    List.map_nil]
  congr 1
  · -- the old slots are not `head`
    refine List.map_congr_left fun i hi => ?_
    have hi : i < q.size := List.mem_range.mp hi
    simp only [push]
    rw [Function.update_of_ne]
    rw [← q.tail_add_size]
    intro heq
    exact absurd (add_mod_inj (by have := q.size_lt; omega) q.size_lt heq) (by omega)
  · simp [push, q.tail_add_size]

theorem size_pop (q : CircBuf α n) (h : q.isEmpty = false) : q.pop.2.size = q.size - 1 := by
  have h0 : q.size ≠ 0 := fun he => by simp [(q.isEmpty_iff).mpr he] at h
  refine q.pop.2.size_eq_of (by have := q.size_lt; omega) ?_
  simp only [pop, next]
  rw [Nat.mod_add_mod, show q.tail + 1 + (q.size - 1) = q.tail + q.size by omega,
    q.tail_add_size]

/-- **Reading at `tail` takes the first element.** -/
theorem contents_pop (q : CircBuf α n) (h : q.isEmpty = false) :
    q.contents = q.pop.1 :: q.pop.2.contents := by
  have h0 : q.size ≠ 0 := fun he => by simp [(q.isEmpty_iff).mpr he] at h
  obtain ⟨k, hk⟩ : ∃ k, q.size = k + 1 := ⟨q.size - 1, by omega⟩
  simp only [contents, q.size_pop h, hk, List.range_succ_eq_map, List.map_cons,
    List.map_map, Nat.add_sub_cancel]
  congr 1
  · simp [pop, Nat.mod_eq_of_lt q.tail_lt]
  · refine List.map_congr_left fun i _ => ?_
    simp only [pop, next, Function.comp_apply, Nat.mod_add_mod]
    rw [Nat.add_assoc, Nat.add_comm 1 i]

end CircBuf
