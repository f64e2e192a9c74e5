import Mathlib.Data.List.GetD
import Mathlib.Tactic.SplitIfs
import Pintos.Userprog.Syscall

/-!
# Argument passing: `load_args` of `userprog/process.c`

`start_process` hands `load_args` the command line, as `process_execute` copied it into one
page, and the stack pointer that `setup_stack` set to `PHYS_BASE`.  `load_args` scans the line
from its end, copying each word below the stack pointer with its NUL, so that the words come
out in order; pads to a multiple of 4 bytes, then by whole words so that `esp + 4` ends on a
multiple of 16; and pushes `argv[argc] = NULL`, `argv[0..argc)`, `argv`, `argc` and a null
return address.  Nothing bounds how far down it writes.

The model keeps user addresses as numbers: they stay within a few pages below `PHYS_BASE`, so
the `uintptr_t` arithmetic never wraps.  A `StackMem` is the bytes of the user address space
and the addresses stored to, latest first.  `while (*(iter++))` runs on `fuel`.

* `cmdWords` — the words of a command line: its maximal runs of characters other than white
  space (`List.splitOnP isspace`, the empty pieces dropped).
* `scanArgs_eq` — the backward scan leaves the words, each with its NUL, just below `esp`;
  `fillArgv_spec` — the `argv` loop points at each in turn.
* `loadArgs_spec` — from a word-aligned `esp` with room below it: the stack `load_args` builds,
  how far down it reaches, and that it stores nowhere else;
* `load_args_layout` — the stack it builds from `PHYS_BASE` when the strings, the pointers and
  the padding fit in the stack page, storing only in that page;
* `load_args_writes_below_stack_page` — a line of a thousand one-letter words, under a page
  long, makes it store below the stack page, and such a store, outside a system call, panics
  the kernel (`writeByte_unmapped_panics`).
-/

set_option autoImplicit false

namespace Pintos.Userprog

/-- `isspace` of `lib/ctype.h`: `' '`, `'\f'`, `'\n'`, `'\r'`, `'\t'` and `'\v'`. -/
def isspace (c : UInt8) : Bool :=
  c == 32 || c == 12 || c == 10 || c == 13 || c == 9 || c == 11

/-- The user address space as `load_args` uses it: its bytes, and the addresses stored to,
the latest first. -/
@[ext] structure StackMem where
  byte : Nat → UInt8
  stores : List Nat

namespace StackMem

/-- A byte store. -/
def store (m : StackMem) (a : Nat) (v : UInt8) : StackMem :=
  ⟨Function.update m.byte a v, a :: m.stores⟩

/-- A `uintptr_t` store: four bytes, little-endian. -/
def storeWord (m : StackMem) (a w : Nat) : StackMem :=
  (((m.store a (UInt8.ofNat w)).store (a + 1) (UInt8.ofNat (w / 2 ^ 8))).store (a + 2)
    (UInt8.ofNat (w / 2 ^ 16))).store (a + 3) (UInt8.ofNat (w / 2 ^ 24))

/-- The `uintptr_t` at `a`. -/
def word (m : StackMem) (a : Nat) : Nat :=
  (m.byte a).toNat + 2 ^ 8 * (m.byte (a + 1)).toNat + 2 ^ 16 * (m.byte (a + 2)).toNat +
    2 ^ 24 * (m.byte (a + 3)).toNat

end StackMem

/-- The loop `for (int i = strlen (file_name) - 1; i >= 0; i--)` of `load_args` over the
characters `cs`, the last one first: the memory, `iter`, `in` and `argc_` after it. -/
def scanArgs : List UInt8 → StackMem → Nat → StackMem × Nat × Bool × Nat
  | [], m, iter => (m, iter, false, 0)
  | c :: cs, m, iter =>
    let (m, iter, inWord, argc) := scanArgs cs m iter
    if !isspace c then
      -- the last character of a word comes first: its NUL is stored before it
      let (m, iter, argc) :=
        if !inWord then (m.store (iter - 1) 0, iter - 1, argc + 1) else (m, iter, argc)
      (m.store (iter - 1) c, iter - 1, true, argc)
    else (m, iter, false, argc)

/-- `while (*(iter++)) {}`: the address after the next NUL, for at most `fuel` bytes. -/
def skipString (m : StackMem) : Nat → Nat → Option Nat
  | 0, _ => none
  | fuel + 1, iter => if m.byte iter ≠ 0 then skipString m fuel (iter + 1) else some (iter + 1)

/-- `for (int i = 0; i < argc_; i++) { argv_[i] = (uintptr_t) iter; while (*(iter++)) {} }`,
for the `n` turns from `i` on. -/
def fillArgv (fuel argv : Nat) : Nat → Nat → StackMem → Nat → Option StackMem
  | 0, _, m, _ => some m
  | n + 1, i, m, iter => do
    let m := m.storeWord (argv + 4 * i) iter
    let iter ← skipString m fuel iter
    fillArgv fuel argv n (i + 1) m iter

/-- `load_args (file_name, &esp)`: the memory and the new `esp`. -/
def loadArgs (fuel : Nat) (fileName : List UInt8) (m : StackMem) (esp : Nat) :
    Option (StackMem × Nat) := do
  let (m, iter, _, argc) := scanArgs fileName m esp
  -- align the stack by 4 bytes
  let argv := iter - (4 - (esp - iter) % 4)
  -- align the stack by 16 bytes: `argv_ - (argc_ + 3)` is `argc_ + 3` words below
  let argv := argv - 4 * ((argv - 4 * (argc + 3)) % 16 / 4)
  -- argv[argc] = 0
  let argv := argv - 4
  let m := m.storeWord argv 0
  let argv := argv - 4 * argc
  let m ← fillArgv fuel argv argc 0 m iter
  -- argv
  let argv := argv - 4
  let m := m.storeWord argv (argv + 4)
  -- argc
  let argv := argv - 4
  let m := m.storeWord argv argc
  -- return address
  let argv := argv - 4
  let m := m.storeWord argv 0
  pure (m, argv)


namespace StackMem

/-! ## Stores -/

@[simp] theorem byte_store (m : StackMem) (a : Nat) (v : UInt8) (b : Nat) :
    (m.store a v).byte b = if b = a then v else m.byte b := by
  simp [store, Function.update_apply]

@[simp] theorem stores_store (m : StackMem) (a : Nat) (v : UInt8) :
    (m.store a v).stores = a :: m.stores := rfl

@[simp] theorem stores_storeWord (m : StackMem) (a w : Nat) :
    (m.storeWord a w).stores = (a + 3) :: (a + 2) :: (a + 1) :: a :: m.stores := rfl

/-- A word store leaves the bytes outside its four. -/
theorem byte_storeWord_of_notMem {m : StackMem} {a w b : Nat} (hb : b < a ∨ a + 4 ≤ b) :
    (m.storeWord a w).byte b = m.byte b := by
  simp only [storeWord, byte_store]
  split_ifs <;> first | omega | rfl

/-- A word reads back as stored, modulo `2 ^ 32`. -/
theorem word_storeWord (m : StackMem) (a w : Nat) : (m.storeWord a w).word a = w % 2 ^ 32 := by
  simp only [word, storeWord, byte_store, if_pos, show a + 1 ≠ a + 3 by omega,
    show a + 1 ≠ a + 2 by omega, show a + 2 ≠ a + 3 by omega, show a ≠ a + 3 by omega,
    show a ≠ a + 2 by omega, show a ≠ a + 1 by omega, if_false, UInt8.toNat_ofNat']
  omega

/-- A word store leaves the words it does not overlap. -/
theorem word_storeWord_of_disjoint {m : StackMem} {a w b : Nat} (h : b + 4 ≤ a ∨ a + 4 ≤ b) :
    (m.storeWord a w).word b = m.word b := by
  simp only [word, byte_storeWord_of_notMem (show b < a ∨ a + 4 ≤ b by omega),
    byte_storeWord_of_notMem (show b + 1 < a ∨ a + 4 ≤ b + 1 by omega),
    byte_storeWord_of_notMem (show b + 2 < a ∨ a + 4 ≤ b + 2 by omega),
    byte_storeWord_of_notMem (show b + 3 < a ∨ a + 4 ≤ b + 3 by omega)]

/-- The bytes `bs` stored from `lo` up, the highest first, as the scan stores them. -/
def placeBytes (m : StackMem) (lo : Nat) (bs : List UInt8) : StackMem :=
  ⟨fun a => if lo ≤ a ∧ a < lo + bs.length then bs.getD (a - lo) 0 else m.byte a,
    List.range' lo bs.length ++ m.stores⟩

@[simp] theorem placeBytes_nil (m : StackMem) (lo : Nat) : m.placeBytes lo [] = m := by
  ext a
  · simp only [placeBytes, List.length_nil, Nat.add_zero]
    rw [if_neg (by omega)]
  · simp [placeBytes]

/-- A byte stored just below placed bytes extends them. -/
theorem store_placeBytes (m : StackMem) {lo : Nat} (hlo : 0 < lo) (bs : List UInt8) (c : UInt8) :
    (m.placeBytes lo bs).store (lo - 1) c = m.placeBytes (lo - 1) (c :: bs) := by
  ext a
  · simp only [byte_store, placeBytes, List.length_cons]
    by_cases ha : a = lo - 1
    · simp [ha]
    · rw [if_neg ha]
      by_cases hin : lo ≤ a ∧ a < lo + bs.length
      · rw [if_pos hin, if_pos (by omega), show a - (lo - 1) = a - lo + 1 by omega]
        simp
      · rw [if_neg hin, if_neg (by omega)]
  · simp only [stores_store, placeBytes, List.length_cons]
    rw [List.range'_succ, Nat.sub_add_cancel hlo]
    simp

/-- Every address stored to from `m₀` on to `m` lies in `[lo, hi)`. -/
def StoresWithin (m₀ m : StackMem) (lo hi : Nat) : Prop :=
  ∀ a ∈ m.stores, a ∈ m₀.stores ∨ lo ≤ a ∧ a < hi

theorem StoresWithin.refl (m : StackMem) (lo hi : Nat) : StoresWithin m m lo hi :=
  fun _ ha => .inl ha

theorem StoresWithin.trans {m₀ m₁ m₂ : StackMem} {lo hi : Nat} (h₁ : StoresWithin m₀ m₁ lo hi)
    (h₂ : StoresWithin m₁ m₂ lo hi) : StoresWithin m₀ m₂ lo hi := fun a ha =>
  (h₂ a ha).elim (h₁ a) .inr

theorem StoresWithin.mono {m₀ m : StackMem} {lo hi lo' hi' : Nat} (h : StoresWithin m₀ m lo hi)
    (hlo : lo' ≤ lo) (hhi : hi ≤ hi') : StoresWithin m₀ m lo' hi' := fun a ha =>
  (h a ha).imp_right fun h => ⟨by omega, by omega⟩

/-- A word store within `[lo, hi)`. -/
theorem storesWithin_storeWord (m : StackMem) {a lo hi : Nat} (w : Nat) (hlo : lo ≤ a)
    (hhi : a + 4 ≤ hi) : StoresWithin m (m.storeWord a w) lo hi := by
  intro b hb
  simp only [stores_storeWord, List.mem_cons] at hb
  rcases hb with rfl | rfl | rfl | rfl | hb
  · exact .inr ⟨by omega, by omega⟩
  · exact .inr ⟨by omega, by omega⟩
  · exact .inr ⟨by omega, by omega⟩
  · exact .inr ⟨by omega, by omega⟩
  · exact .inl hb

theorem storesWithin_placeBytes (m : StackMem) (lo : Nat) (bs : List UInt8) :
    StoresWithin m (m.placeBytes lo bs) lo (lo + bs.length) := by
  intro a ha
  simp only [placeBytes, List.mem_append, List.mem_range'_1] at ha
  exact ha.symm

/-- A word is read from its four bytes. -/
theorem word_eq_of_bytes {m m' : StackMem} {a : Nat} (h : ∀ k < 4, m'.byte (a + k) = m.byte (a + k)) :
    m'.word a = m.word a := by
  have h₀ := h 0 (by omega)
  have h₁ := h 1 (by omega)
  have h₂ := h 2 (by omega)
  have h₃ := h 3 (by omega)
  simp only [Nat.add_zero] at h₀
  simp only [word, h₀, h₁, h₂, h₃]

end StackMem

/-! ## Words -/

/-- The words of a command line: its maximal runs of characters other than white space. -/
def cmdWords (s : List UInt8) : List (List UInt8) :=
  (s.splitOnP isspace).filter fun w => !w.isEmpty

/-- The words, each followed by its NUL: what `load_args` copies. -/
def argStrings (s : List UInt8) : List UInt8 := (cmdWords s).flatMap (· ++ [0])

/-- A command line that starts inside a word: `in` after the scan. -/
def startsWord : List UInt8 → Bool
  | c :: _ => !isspace c
  | [] => false

@[simp] theorem cmdWords_nil : cmdWords [] = [] := by simp [cmdWords]

/-- The words of `c :: cs`: those of `cs`, with `c` put in front of the first if `cs` starts
inside it, or as a word of its own. -/
theorem cmdWords_cons (c : UInt8) (cs : List UInt8) :
    cmdWords (c :: cs) =
      if isspace c then cmdWords cs
      else if startsWord cs then (cmdWords cs).modifyHead (c :: ·) else [c] :: cmdWords cs := by
  unfold cmdWords
  rw [List.splitOnP_cons_eq_if_modifyHead]
  by_cases hc : isspace c = true
  · simp [hc]
  · rw [if_neg hc, if_neg hc]
    cases cs with
    | nil => simp [startsWord]
    | cons d ds =>
      rw [List.splitOnP_cons_eq_if_modifyHead]
      by_cases hd : isspace d = true
      · simp [hd, startsWord]
      · obtain ⟨h, t, ht⟩ := List.ne_nil_iff_exists_cons.mp (List.splitOnP_ne_nil isspace ds)
        simp [hd, startsWord, ht]

/-- A line that starts inside a word has a first word. -/
theorem cmdWords_of_startsWord {cs : List UInt8} (h : startsWord cs = true) :
    ∃ w ws, cmdWords cs = w :: ws := by
  cases cs with
  | nil => simp [startsWord] at h
  | cons d ds =>
    have hd : isspace d = false := by simpa [startsWord] using h
    rw [cmdWords_cons, if_neg (by simp [hd])]
    split
    · obtain ⟨w, ws, hw⟩ := cmdWords_of_startsWord (by assumption)
      exact ⟨d :: w, ws, by simp [hw]⟩
    · exact ⟨_, _, rfl⟩

/-- Each word is a piece of the line. -/
theorem sublist_of_mem_cmdWords : ∀ {s w : List UInt8}, w ∈ cmdWords s → w.Sublist s
  | [], _, hw => by simp at hw
  | c :: cs, w, hw => by
    rw [cmdWords_cons] at hw
    split at hw
    · exact (sublist_of_mem_cmdWords hw).cons c
    · split at hw
      · obtain ⟨w₀, ws, h₀⟩ := cmdWords_of_startsWord (by assumption)
        rw [h₀, List.modifyHead_cons, List.mem_cons] at hw
        rcases hw with rfl | hw
        · exact (sublist_of_mem_cmdWords (h₀ ▸ List.mem_cons_self)).cons_cons c
        · exact (sublist_of_mem_cmdWords (h₀ ▸ List.mem_cons_of_mem w₀ hw)).cons c
      · rcases List.mem_cons.mp hw with rfl | hw
        · exact (List.nil_sublist cs).cons_cons c
        · exact (sublist_of_mem_cmdWords hw).cons c

/-- What the scan stores for `c :: cs`, from what it stores for `cs`. -/
theorem argStrings_cons (c : UInt8) (cs : List UInt8) :
    argStrings (c :: cs) =
      if isspace c then argStrings cs
      else if startsWord cs then c :: argStrings cs else c :: 0 :: argStrings cs := by
  unfold argStrings
  rw [cmdWords_cons]
  split
  · rfl
  · split
    · obtain ⟨w, ws, h⟩ := cmdWords_of_startsWord (by assumption)
      simp [h]
    · simp

theorem length_cmdWords_cons (c : UInt8) (cs : List UInt8) :
    (cmdWords (c :: cs)).length =
      (cmdWords cs).length + if isspace c = false ∧ startsWord cs = false then 1 else 0 := by
  rw [cmdWords_cons]
  by_cases hc : isspace c = true
  · simp [hc]
  · by_cases hs : startsWord cs = true <;> simp [hc, hs]

@[simp] theorem startsWord_cons (c : UInt8) (cs : List UInt8) :
    startsWord (c :: cs) = !isspace c := rfl

/-! ## The scan -/

/-- **The backward scan** leaves the words of the line, each with its NUL, just below `esp`, in
order; `in` tells whether the line starts inside a word, and `argc_` counts the words. -/
theorem scanArgs_eq (m : StackMem) : ∀ (s : List UInt8) (esp : Nat), (argStrings s).length ≤ esp →
    scanArgs s m esp = (m.placeBytes (esp - (argStrings s).length) (argStrings s),
      esp - (argStrings s).length, startsWord s, (cmdWords s).length)
  | [], esp, _ => by simp [scanArgs, argStrings, startsWord]
  | c :: cs, esp, h => by
    have hcs : (argStrings cs).length ≤ esp := by
      refine Nat.le_trans ?_ h
      rw [argStrings_cons]
      split
      · exact Nat.le_refl _
      · split <;> simp
        omega
    rw [scanArgs, scanArgs_eq m cs esp hcs]
    by_cases hc : isspace c = true
    · simp [hc, argStrings_cons, length_cmdWords_cons]
    · have hc' : isspace c = false := by simpa using hc
      have hpos : 0 < esp - (argStrings cs).length := by
        rw [argStrings_cons, if_neg hc] at h
        split at h <;> simp at h <;> omega
      by_cases hs : startsWord cs = true
      · -- `c` goes in front of the word `cs` starts with
        simp only [hc', hs, Bool.not_true, Bool.not_false, if_true, Bool.false_eq_true, if_false]
        rw [StackMem.store_placeBytes m hpos]
        simp [argStrings_cons, hc', hs, length_cmdWords_cons, Nat.sub_sub]
      · -- `c` ends a word of its own: its NUL goes first
        have hs' : startsWord cs = false := by simpa using hs
        have hpos' : 0 < esp - (argStrings cs).length - 1 := by
          rw [argStrings_cons, if_neg hc, if_neg hs] at h
          simp at h
          omega
        simp only [hc', hs', Bool.not_false, if_true]
        rw [StackMem.store_placeBytes m hpos, StackMem.store_placeBytes m hpos']
        simp [argStrings_cons, hc', hs', length_cmdWords_cons, Nat.sub_sub]

/-! ## The `argv` loop -/

/-- Where the `i`-th word starts among the words copied with their NULs. -/
def wordOffset (ws : List (List UInt8)) (i : Nat) : Nat := ((ws.take i).map (·.length + 1)).sum

@[simp] theorem wordOffset_zero (ws : List (List UInt8)) : wordOffset ws 0 = 0 := by
  simp [wordOffset]

theorem wordOffset_succ {ws : List (List UInt8)} {i : Nat} (hi : i < ws.length) :
    wordOffset ws (i + 1) = wordOffset ws i + ws[i].length + 1 := by
  unfold wordOffset
  rw [List.take_add_one, List.map_append, List.sum_append, List.getElem?_eq_getElem hi]
  simp [Nat.add_assoc]

/-- The `i`-th word, with its NUL, sits at its offset among the words copied. -/
theorem getD_flatMap_wordOffset : ∀ (ws : List (List UInt8)) (i : Nat) (hi : i < ws.length)
    (j : Nat), j ≤ ws[i].length →
      (ws.flatMap (· ++ [0])).getD (wordOffset ws i + j) 0 = (ws[i] ++ [0]).getD j 0
  | [], _, hi, _, _ => absurd hi (Nat.not_lt_zero _)
  | w :: ws, 0, _, j, hj => by
    simp only [List.flatMap_cons, wordOffset_zero, Nat.zero_add, List.getElem_cons_zero] at hj ⊢
    exact List.getD_append _ _ _ _ (by simp; omega)
  | w :: ws, i + 1, hi, j, hj => by
    simp only [List.length_cons, List.getElem_cons_succ] at hi hj ⊢
    have hoff : wordOffset (w :: ws) (i + 1) = (w.length + 1) + wordOffset ws i := by
      simp [wordOffset]
    rw [List.flatMap_cons, hoff, List.getD_append_right _ _ _ _ (by simp; omega)]
    simp only [List.length_append, List.length_singleton]
    rw [show w.length + 1 + wordOffset ws i + j - (w.length + 1) = wordOffset ws i + j by omega]
    exact getD_flatMap_wordOffset ws i (by omega) j hj

/-- The `i`-th word ends before the copies end. -/
theorem wordOffset_add_length_lt {ws : List (List UInt8)} {i : Nat} (hi : i < ws.length) :
    wordOffset ws i + ws[i].length < (ws.flatMap (· ++ [0])).length := by
  have hle : wordOffset ws (i + 1) ≤ wordOffset ws ws.length := by
    have h := congrArg (fun l => (l.map (·.length + 1)).sum) (List.take_append_drop (i + 1) ws)
    simp only [List.map_append, List.sum_append] at h
    simp only [wordOffset, List.take_length]
    omega
  have hall : wordOffset ws ws.length = (ws.flatMap (· ++ [0])).length := by
    simp [wordOffset, List.length_flatMap]
  rw [wordOffset_succ hi] at hle
  omega

/-- `while (*(iter++))` over a word and its NUL. -/
theorem skipString_spec {m : StackMem} : ∀ (w : List UInt8) (p fuel : Nat), (∀ c ∈ w, c ≠ 0) →
    w.length < fuel → (∀ j ≤ w.length, m.byte (p + j) = (w ++ [0]).getD j 0) →
      skipString m fuel p = some (p + w.length + 1)
  | _, _, 0, _, hf, _ => absurd hf (Nat.not_lt_zero _)
  | [], p, fuel + 1, _, _, hb => by
    have h := hb 0 (Nat.le_refl 0)
    simp only [Nat.add_zero, List.nil_append, List.getD_cons_zero] at h
    simp [skipString, h]
  | c :: w, p, fuel + 1, hw, hf, hb => by
    have hc := hb 0 (Nat.zero_le _)
    simp only [Nat.add_zero, List.cons_append, List.getD_cons_zero] at hc
    have ih := skipString_spec w (p + 1) fuel (fun d hd => hw d (List.mem_cons_of_mem c hd))
      (by simp at hf; omega) fun j hj => by
        simpa [Nat.add_assoc, Nat.add_comm 1 j] using hb (j + 1) (by simp; omega)
    rw [skipString, if_pos (by rw [hc]; exact hw c List.mem_cons_self), ih]
    simp [Nat.add_assoc, Nat.add_comm 1]

/-- **The `argv` loop**, from turn `i`, over words `ws` copied with their NULs from `iter` up
and an `argv` array below them: `argv[j]` gets the start of word `j`, and nothing outside the
array is stored to. -/
theorem fillArgv_spec {fuel argv iter : Nat} {ws : List (List UInt8)}
    (hws : ∀ w ∈ ws, (∀ c ∈ w, c ≠ 0) ∧ w.length < fuel) (hargv : argv + 4 * ws.length ≤ iter)
    (hfit : iter + (ws.flatMap (· ++ [0])).length < 2 ^ 32) :
    ∀ (n i : Nat) (m : StackMem), i + n = ws.length →
      (∀ k < (ws.flatMap (· ++ [0])).length, m.byte (iter + k) = (ws.flatMap (· ++ [0])).getD k 0) →
      ∃ m', fillArgv fuel argv n i m (iter + wordOffset ws i) = some m' ∧
        (∀ j, i ≤ j → j < ws.length → m'.word (argv + 4 * j) = iter + wordOffset ws j) ∧
        (∀ b, b < argv + 4 * i ∨ argv + 4 * ws.length ≤ b → m'.byte b = m.byte b) ∧
        StackMem.StoresWithin m m' (argv + 4 * i) (argv + 4 * ws.length)
  | 0, i, m, _, _ => ⟨m, rfl, fun j hij hj => by omega, fun _ _ => rfl, .refl m _ _⟩
  | n + 1, i, m, hin, hblock => by
    have hi : i < ws.length := by omega
    have hend := wordOffset_add_length_lt hi
    -- this turn stores `argv[i]` below the words, then walks over word `i`
    have hblock₁ : ∀ k < (ws.flatMap (· ++ [0])).length,
        (m.storeWord (argv + 4 * i) (iter + wordOffset ws i)).byte (iter + k) =
          (ws.flatMap (· ++ [0])).getD k 0 := fun k hk => by
      rw [StackMem.byte_storeWord_of_notMem (by omega)]
      exact hblock k hk
    have hskip : skipString (m.storeWord (argv + 4 * i) (iter + wordOffset ws i)) fuel
        (iter + wordOffset ws i) = some (iter + wordOffset ws (i + 1)) := by
      rw [wordOffset_succ hi, skipString_spec ws[i] _ fuel (hws _ (List.getElem_mem hi)).1
        (hws _ (List.getElem_mem hi)).2 fun j hj => by
          rw [Nat.add_assoc, hblock₁ _ (by omega), getD_flatMap_wordOffset ws i hi j hj]]
      simp [Nat.add_assoc]
    obtain ⟨m', hfill, hword, hbyte, hstores⟩ := fillArgv_spec hws hargv hfit n (i + 1) _ (by omega) hblock₁
    refine ⟨m', by simp [fillArgv, hskip, hfill], fun j hij hj => ?_, fun b hb => ?_, ?_⟩
    · rcases Nat.eq_or_lt_of_le hij with rfl | hij
      · -- later turns store above `argv[j]`
        rw [StackMem.word_eq_of_bytes fun k hk => hbyte _ (by omega), StackMem.word_storeWord]
        exact Nat.mod_eq_of_lt (by omega)
      · exact hword j hij hj
    · rw [hbyte b (by omega), StackMem.byte_storeWord_of_notMem (by omega)]
    · exact (StackMem.storesWithin_storeWord m _ (Nat.le_refl _) (by omega)).trans
        (hstores.mono (by omega) (Nat.le_refl _))

/-! ## `load_args` -/

/-- **`load_args`** from a stack pointer `esp` on a word boundary with room below it: the stack
it builds, and where it stores. -/
theorem loadArgs_spec (s : List UInt8) (hs : ∀ c ∈ s, c ≠ 0) (m : StackMem) {esp fuel : Nat}
    (hesp : (argStrings s).length + 4 * (cmdWords s).length + 32 ≤ esp) (hesp4 : esp % 4 = 0)
    (hfit : esp < 2 ^ 32) (hfuel : s.length < fuel) :
    ∃ m' esp', loadArgs fuel s m esp = some (m', esp') ∧
      esp' + (argStrings s).length + 4 * (cmdWords s).length + 17 ≤ esp ∧
      esp ≤ esp' + (argStrings s).length + 4 * (cmdWords s).length + 32 ∧
      (esp' + 4) % 16 = 0 ∧
      m'.word esp' = 0 ∧ m'.word (esp' + 4) = (cmdWords s).length ∧
      m'.word (esp' + 8) = esp' + 12 ∧
      (∀ i < (cmdWords s).length,
        m'.word (esp' + 12 + 4 * i) = esp - (argStrings s).length + wordOffset (cmdWords s) i) ∧
      m'.word (esp' + 12 + 4 * (cmdWords s).length) = 0 ∧
      (∀ k < (argStrings s).length,
        m'.byte (esp - (argStrings s).length + k) = (argStrings s).getD k 0) ∧
      esp' ∈ m'.stores ∧ StackMem.StoresWithin m m' esp' esp := by
  have hws : ∀ w ∈ cmdWords s, (∀ c ∈ w, c ≠ 0) ∧ w.length < fuel := fun w hw =>
    ⟨fun c hc => hs c ((sublist_of_mem_cmdWords hw).subset hc),
      Nat.lt_of_le_of_lt (sublist_of_mem_cmdWords hw).length_le hfuel⟩
  have hblock : (cmdWords s).flatMap (· ++ [0]) = argStrings s := rfl
  rw [loadArgs, scanArgs_eq m s esp (by omega)]
  simp only [Option.bind_eq_bind, Option.pure_def]
  generalize hS : (argStrings s).length = S at hesp ⊢
  generalize hn : (cmdWords s).length = n at hesp ⊢
  -- the two paddings
  generalize ha₁ : esp - S - (4 - (esp - (esp - S)) % 4) = a₁
  generalize ha₂ : a₁ - 4 * ((a₁ - 4 * (n + 3)) % 16 / 4) = a₂
  generalize hb : a₂ - 4 - 4 * n = b
  have hb' : b + 4 * n + 4 ≤ esp - S := by omega
  -- the scan's copies, and `argv[argc]` below them
  have hcopy : ∀ k < S, ((m.placeBytes (esp - S) (argStrings s)).storeWord (a₂ - 4) 0).byte
      (esp - S + k) = (argStrings s).getD k 0 := fun k hk => by
    rw [StackMem.byte_storeWord_of_notMem (by omega)]
    simp only [StackMem.placeBytes, hS]
    rw [if_pos (by omega), Nat.add_sub_cancel_left]
  obtain ⟨m₃, hfill, hword, hbyte, hstores⟩ := fillArgv_spec hws
    (show b + 4 * (cmdWords s).length ≤ esp - S by omega) (by rw [hblock, hS]; omega) n 0 _
    (by rw [hn, Nat.zero_add]) (by rw [hblock, hS]; exact hcopy)
  rw [wordOffset_zero, Nat.add_zero] at hfill
  rw [hfill]
  simp only [Option.bind_some]
  refine ⟨_, _, rfl, by omega, by omega, by omega, ?_, ?_, ?_, ?_, ?_, ?_, by simp, ?_⟩
  · -- the return address
    rw [StackMem.word_storeWord, Nat.zero_mod]
  · -- `argc`
    rw [show b - 4 - 4 - 4 + 4 = b - 4 - 4 by omega, StackMem.word_storeWord_of_disjoint (by omega),
      StackMem.word_storeWord]
    exact Nat.mod_eq_of_lt (by omega)
  · -- `argv`
    rw [show b - 4 - 4 - 4 + 8 = b - 4 by omega, StackMem.word_storeWord_of_disjoint (by omega),
      StackMem.word_storeWord_of_disjoint (by omega), StackMem.word_storeWord]
    rw [Nat.mod_eq_of_lt (by omega)]
    omega
  · -- `argv[i]`
    intro i hi
    rw [show b - 4 - 4 - 4 + 12 + 4 * i = b + 4 * i by omega,
      StackMem.word_storeWord_of_disjoint (by omega), StackMem.word_storeWord_of_disjoint (by omega),
      StackMem.word_storeWord_of_disjoint (by omega)]
    exact hword i (Nat.zero_le i) (by omega)
  · -- `argv[argc]`
    rw [show b - 4 - 4 - 4 + 12 + 4 * n = a₂ - 4 by omega,
      StackMem.word_storeWord_of_disjoint (by omega), StackMem.word_storeWord_of_disjoint (by omega),
      StackMem.word_storeWord_of_disjoint (by omega),
      StackMem.word_eq_of_bytes fun k _ => hbyte _ (.inr (by omega)), StackMem.word_storeWord,
      Nat.zero_mod]
  · -- the copies of the words
    intro k hk
    rw [StackMem.byte_storeWord_of_notMem (by omega), StackMem.byte_storeWord_of_notMem (by omega),
      StackMem.byte_storeWord_of_notMem (by omega), hbyte _ (.inr (by omega))]
    exact hcopy k hk
  · -- every store lies between the new `esp` and the old
    refine .trans ?_ (StackMem.storesWithin_storeWord _ _ (by omega) (by omega))
    refine .trans ?_ (StackMem.storesWithin_storeWord _ _ (by omega) (by omega))
    refine .trans ?_ (StackMem.storesWithin_storeWord _ _ (by omega) (by omega))
    refine .trans ?_ (hstores.mono (by omega) (by omega))
    refine .trans ?_ (StackMem.storesWithin_storeWord _ _ (by omega) (by omega))
    exact (StackMem.storesWithin_placeBytes m _ _).mono (by omega) (by rw [hS]; omega)

theorem length_argStrings_le : ∀ s : List UInt8, (argStrings s).length ≤ 2 * s.length
  | [] => by simp [argStrings]
  | c :: cs => by
    have ih := length_argStrings_le cs
    rw [argStrings_cons]
    split
    · simp; omega
    · split <;> simp <;> omega

theorem length_cmdWords_le : ∀ s : List UInt8, (cmdWords s).length ≤ s.length
  | [] => by simp
  | c :: cs => by
    have ih := length_cmdWords_le cs
    rw [length_cmdWords_cons]
    split <;> simp <;> omega

/-! ## From `PHYS_BASE` -/

/-- A command line of `n` one-letter words, each followed by a space. -/
def oneLetterWords : Nat → List UInt8
  | 0 => []
  | n + 1 => 97 :: 32 :: oneLetterWords n

theorem cmdWords_oneLetterWords : ∀ n, cmdWords (oneLetterWords n) = List.replicate n [97]
  | 0 => rfl
  | n + 1 => by
    rw [oneLetterWords, cmdWords_cons, cmdWords_cons, cmdWords_oneLetterWords n]
    simp [isspace, List.replicate_succ]

/-- Outside a system call (`current_syscall` is `-1` in `start_process`), a kernel store to an
unmapped user page reaches `kill`, which panics. -/
theorem writeByte_unmapped_panics (c : Ctx) {a : UInt32} (v : UInt8) (ha : isUserVaddr a = true)
    (hmap : c.mem.mapped (a / PGSIZE) = false) (hsys : c.currentSyscall = -1) :
    writeByte a v c = .stop (.panic .kernelFault) c := by
  simp [writeByte, pageFault, Prog.bind_apply, ha, hmap, hsys]

theorem load_args_writes_below_stack_page :
    (oneLetterWords 1000).length < PGSIZE.toNat ∧
      ∃ m' esp, loadArgs 4096 (oneLetterWords 1000) ⟨fun _ => 0, []⟩ PHYS_BASE.toNat =
          some (m', esp) ∧ esp ∈ m'.stores ∧ esp < PHYS_BASE.toNat - PGSIZE.toNat ∧
        ∀ c : Ctx, c.currentSyscall = -1 → c.mem.mapped (UInt32.ofNat esp / PGSIZE) = false →
          writeByte (UInt32.ofNat esp) 0 c = .stop (.panic .kernelFault) c := by
  have hbase : PHYS_BASE.toNat = 3221225472 := rfl
  have hpg : PGSIZE.toNat = 4096 := rfl
  have hlen : (oneLetterWords 1000).length = 2000 := by
    suffices ∀ n, (oneLetterWords n).length = 2 * n from this 1000
    intro n
    induction n with
    | zero => rfl
    | succ n ih => simp [oneLetterWords, ih]; omega
  have hs : ∀ c ∈ oneLetterWords 1000, c ≠ 0 := by
    suffices ∀ n, ∀ c ∈ oneLetterWords n, c ≠ 0 from this 1000
    intro n
    induction n with
    | zero => simp [oneLetterWords]
    | succ n ih =>
      intro c hc
      simp only [oneLetterWords, List.mem_cons] at hc
      rcases hc with rfl | rfl | hc
      · decide
      · decide
      · exact ih c hc
  -- a thousand words of one letter: two thousand bytes of strings and a thousand pointers
  have hS : (argStrings (oneLetterWords 1000)).length = 2000 := by
    rw [argStrings, cmdWords_oneLetterWords, List.length_flatMap, List.map_replicate,
      List.sum_replicate_nat]
    rfl
  have hn : (cmdWords (oneLetterWords 1000)).length = 1000 := by
    rw [cmdWords_oneLetterWords, List.length_replicate]
  obtain ⟨m', esp, h, hlo, -, -, -, -, -, -, -, -, hmem, -⟩ :=
    loadArgs_spec (oneLetterWords 1000) hs ⟨fun _ => 0, []⟩
      (show (argStrings (oneLetterWords 1000)).length + 4 * (cmdWords (oneLetterWords 1000)).length
        + 32 ≤ PHYS_BASE.toNat by omega) (by rw [hbase]) (by rw [hbase]; omega)
      (show (oneLetterWords 1000).length < 4096 by omega)
  refine ⟨by omega, m', esp, h, hmem, by omega, fun c hsys hmap =>
    writeByte_unmapped_panics c 0 ?_ hmap hsys⟩
  -- the store is to a user address
  simp only [isUserVaddr, decide_eq_true_eq, UInt32.lt_iff_toNat_lt, UInt32.toNat_ofNat', hbase]
  omega

end Pintos.Userprog
