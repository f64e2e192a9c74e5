import Mathlib.Logic.Function.Basic
import Mathlib.Order.Basic
import Mathlib.Tactic.Set

/-!
# `lib/string.c`: block moves and `strtok_r`

Memory is a map from addresses to bytes, and a pointer is its address (NULL is `0`).  Each loop
of the source is a recursive function on the count it runs down, or on fuel where the source
loops until it finds a byte: `memcpy` and the forward branch of `memmove` are `copyUp`, the
backward branch of `memmove` is `copyDown`, and `strtok_r` is its two scanning loops
`skipDelimiters` and `skipToken` around `strchr`.  A failed `ASSERT` gives `none`.

* `copyUp_eq`, `copyDown_eq`: each loop moves the block, when the destination does not lie
  ahead of the source in the direction of the copy; `moveBytes` is the block move itself.
* `memmove_spec`: `memmove` moves the block whatever the overlap, and returns the final value
  of its local `dst`: the destination when it copies backward, but the end of the destination
  when it copies forward (`memmove_forward_returns_end`), where `memcpy` returns `dst_`.
* `skipDelimiters_eq`, `skipToken_eq`: the two loops of `strtok_r` pass a run of delimiters and
  a run of other bytes; `strchr` on the delimiter string answers for the NUL too
  (`strchrLoop_spec`), which is how the first loop sees the string's end.
* `strtokCalls_from`, `strtok_r_tokenises`: the calls of `strtok_r` on one string return its
  maximal runs of non-delimiters (`tokens`, by `List.splitOnP`) in order and then NULL, at
  places that depend on the two strings alone, writing only a NUL over the delimiter after each
  token.  The `ASSERT (save_ptr != NULL)` is not modelled: `*save_ptr` is passed as a value.
-/

set_option autoImplicit false

namespace Pintos.String

/-! ## Block moves -/

/-- The memory after moving the `n` bytes at `src` to `dst`, as one step: each byte of the
destination gets the byte at the same offset of the source before the move. -/
def moveBytes (mem : Nat → UInt8) (dst src n : Nat) : Nat → UInt8 :=
  fun a => if dst ≤ a ∧ a < dst + n then mem (src + (a - dst)) else mem a

/-- The forward loop `while (size-- > 0) *dst++ = *src++;`: the memory and the final `dst`. -/
def copyUp (mem : Nat → UInt8) (dst src : Nat) : Nat → (Nat → UInt8) × Nat
  | 0 => (mem, dst)
  | size + 1 => copyUp (Function.update mem dst (mem src)) (dst + 1) (src + 1) size

/-- The backward loop `while (size-- > 0) *--dst = *--src;` from the ends of the blocks: the
memory and the final `dst`. -/
def copyDown (mem : Nat → UInt8) (dst src : Nat) : Nat → (Nat → UInt8) × Nat
  | 0 => (mem, dst)
  | size + 1 => copyDown (Function.update mem (dst - 1) (mem (src - 1))) (dst - 1) (src - 1) size

/-- `memcpy`: the memory and the returned `dst_`. -/
def memcpy (mem : Nat → UInt8) (dst src size : Nat) : Option ((Nat → UInt8) × Nat) :=
  if dst = 0 ∧ size ≠ 0 then none
  else if src = 0 ∧ size ≠ 0 then none
  else some ((copyUp mem dst src size).1, dst)

/-- `memmove`: the memory and the returned pointer, the local `dst` after the loop. -/
def memmove (mem : Nat → UInt8) (dst src size : Nat) : Option ((Nat → UInt8) × Nat) :=
  if dst = 0 ∧ size ≠ 0 then none
  else if src = 0 ∧ size ≠ 0 then none
  else if dst < src then some (copyUp mem dst src size)
  else some (copyDown mem (dst + size) (src + size) size)

@[simp] theorem moveBytes_zero (mem : Nat → UInt8) (dst src : Nat) :
    moveBytes mem dst src 0 = mem := by
  funext a
  simp only [moveBytes, Nat.add_zero]
  rw [if_neg (by omega)]

theorem moveBytes_of_lt {mem : Nat → UInt8} {dst src n a : Nat} (h₁ : dst ≤ a)
    (h₂ : a < dst + n) : moveBytes mem dst src n a = mem (src + (a - dst)) := by
  simp [moveBytes, h₁, h₂]

theorem moveBytes_of_not_mem {mem : Nat → UInt8} {dst src n a : Nat} (h : ¬ (dst ≤ a ∧ a < dst + n)) :
    moveBytes mem dst src n a = mem a := by
  simp only [moveBytes, if_neg h]

/-- Copying the first byte and moving the rest from one place further on is the move, when the
rest of the source does not start at the destination's first byte. -/
theorem moveBytes_succ_front (mem : Nat → UInt8) {dst src n : Nat}
    (h : dst ≤ src ∨ src + n + 1 ≤ dst) :
    moveBytes (Function.update mem dst (mem src)) (dst + 1) (src + 1) n =
      moveBytes mem dst src (n + 1) := by
  funext a
  simp only [moveBytes, Function.update_apply]
  split_ifs <;> first | rfl | omega | (congr 1; omega)

/-- Copying the last byte and moving the rest is the move, when the rest of the source does not
reach the destination's last byte. -/
theorem moveBytes_succ_back (mem : Nat → UInt8) {dst src n : Nat}
    (h : src ≤ dst ∨ dst + n + 1 ≤ src) :
    moveBytes (Function.update mem (dst + n) (mem (src + n))) dst src n =
      moveBytes mem dst src (n + 1) := by
  funext a
  simp only [moveBytes, Function.update_apply]
  split_ifs <;> first | rfl | omega | (congr 1; omega)

/-- The forward loop moves the block when the destination does not lie ahead of the source
inside it. -/
theorem copyUp_eq (mem : Nat → UInt8) {dst src n : Nat} (h : dst ≤ src ∨ src + n ≤ dst) :
    copyUp mem dst src n = (moveBytes mem dst src n, dst + n) := by
  induction n generalizing mem dst src with
  | zero => simp [copyUp]
  | succ n ih =>
    rw [copyUp, ih _ (by omega), moveBytes_succ_front mem (by omega),
      show dst + 1 + n = dst + (n + 1) by omega]

/-- The backward loop, started at the ends of the blocks, moves the block when the source does
not lie ahead of the destination inside it. -/
theorem copyDown_eq (mem : Nat → UInt8) {dst src n : Nat} (h : src ≤ dst ∨ dst + n ≤ src) :
    copyDown mem (dst + n) (src + n) n = (moveBytes mem dst src n, dst) := by
  induction n generalizing mem with
  | zero => simp [copyDown]
  | succ n ih =>
    rw [copyDown, show dst + (n + 1) - 1 = dst + n by omega,
      show src + (n + 1) - 1 = src + n by omega, ih _ (by omega), moveBytes_succ_back mem (by omega)]

/-- `memcpy` of blocks that do not overlap moves the block and returns the destination. -/
theorem memcpy_spec (mem : Nat → UInt8) {dst src n : Nat} (hd : dst ≠ 0 ∨ n = 0)
    (hs : src ≠ 0 ∨ n = 0) (h : dst + n ≤ src ∨ src + n ≤ dst) :
    memcpy mem dst src n = some (moveBytes mem dst src n, dst) := by
  have hd' : ¬ (dst = 0 ∧ n ≠ 0) := by omega
  have hs' : ¬ (src = 0 ∧ n ≠ 0) := by omega
  rw [memcpy, if_neg hd', if_neg hs', copyUp_eq mem (by omega)]

/-- `memmove` moves the block for every overlap, copying forward when `dst < src` and backward
otherwise; it returns the destination after the backward copy and its end after the forward
one. -/
theorem memmove_spec (mem : Nat → UInt8) {dst src n : Nat} (hd : dst ≠ 0 ∨ n = 0)
    (hs : src ≠ 0 ∨ n = 0) :
    memmove mem dst src n =
      some (moveBytes mem dst src n, if dst < src then dst + n else dst) := by
  have hd' : ¬ (dst = 0 ∧ n ≠ 0) := by omega
  have hs' : ¬ (src = 0 ∧ n ≠ 0) := by omega
  rw [memmove, if_neg hd', if_neg hs']
  by_cases hlt : dst < src
  · rw [if_pos hlt, if_pos hlt, copyUp_eq mem (by omega)]
  · rw [if_neg hlt, if_neg hlt, copyDown_eq mem (by omega)]

/-- When the destination lies below the source, `memmove` returns the end of the destination,
`dst + n`, and not `dst`: the forward loop advances the local `dst` that is returned. -/
theorem memmove_forward_returns_end (mem : Nat → UInt8) {dst src n : Nat} (hd : dst ≠ 0)
    (hlt : dst < src) :
    memmove mem dst src n = some (moveBytes mem dst src n, dst + n) := by
  rw [memmove_spec mem (Or.inl hd) (Or.inl (by omega)), if_pos hlt]

/-- `memmove (1, 2, 1)` returns `2`. -/
theorem memmove_forward_returns_end_one :
    (1 : Nat) ≠ 0 ∧ (1 : Nat) < 2 ∧
      memmove (fun _ => 0) 1 2 1 = some (moveBytes (fun _ => 0) 1 2 1, 2) :=
  ⟨by decide, by decide, memmove_forward_returns_end (fun _ => 0) (by decide) (by decide)⟩

/-! ## `strtok_r` -/

/-- The loop of `strchr` from `string`: the address of the first byte equal to `c`, NULL when
the NUL comes first, so never NULL for `c = 0`; `none` when `fuel` runs out. -/
def strchrLoop (mem : Nat → UInt8) (c : UInt8) : Nat → Nat → Option Nat
  | 0, _ => none
  | fuel + 1, string =>
    if mem string = c then some string
    else if mem string = 0 then some 0
    else strchrLoop mem c fuel (string + 1)

/-- `strchr (string, c)`. -/
def strchr (fuel : Nat) (mem : Nat → UInt8) (string : Nat) (c : UInt8) : Option Nat :=
  if string = 0 then none else strchrLoop mem c fuel string

/-- The first loop of `strtok_r`, `while (strchr (delimiters, *s) != NULL)`: `(true, s)` when it
stops at the string's NUL, `(false, s)` at the first byte that is not a delimiter. -/
def skipDelimiters (fuel : Nat) (mem : Nat → UInt8) (delimiters : Nat) :
    Nat → Nat → Option (Bool × Nat)
  | 0, _ => none
  | n + 1, s =>
    match strchr fuel mem delimiters (mem s) with
    | none => none
    | some r =>
      if r = 0 then some (false, s)
      else if mem s = 0 then some (true, s)
      else skipDelimiters fuel mem delimiters n (s + 1)

/-- The second loop of `strtok_r`, `while (strchr (delimiters, *s) == NULL) s++`. -/
def skipToken (fuel : Nat) (mem : Nat → UInt8) (delimiters : Nat) : Nat → Nat → Option Nat
  | 0, _ => none
  | n + 1, s =>
    match strchr fuel mem delimiters (mem s) with
    | none => none
    | some r => if r = 0 then skipToken fuel mem delimiters n (s + 1) else some s

/-- `strtok_r (s, delimiters, save_ptr)`, with the value of `*save_ptr` passed in and the new
one returned beside the token (NULL is `0`) and the memory. -/
def strtokR (fuel : Nat) (mem : Nat → UInt8) (s delimiters savePtr : Nat) :
    Option (Nat × (Nat → UInt8) × Nat) :=
  if delimiters = 0 then none
  else
    let s := if s = 0 then savePtr else s
    if s = 0 then none
    else
      match skipDelimiters fuel mem delimiters fuel s with
      | none => none
      | some (true, s) => some (0, mem, s)
      | some (false, token) =>
        match skipToken fuel mem delimiters fuel token with
        | none => none
        | some s =>
          if mem s ≠ 0 then some (token, Function.update mem s 0, s + 1)
          else some (token, mem, s)

/-- `n` calls of `strtok_r`, the first on `s` and the others on NULL, each with the
`*save_ptr` the one before left: the tokens returned and the memory after the last call. -/
def strtokCalls (fuel delimiters : Nat) :
    Nat → (Nat → UInt8) → Nat → Nat → Option (List Nat × (Nat → UInt8))
  | 0, mem, _, _ => some ([], mem)
  | n + 1, mem, s, savePtr =>
    match strtokR fuel mem s delimiters savePtr with
    | none => none
    | some (token, mem', save) =>
      (strtokCalls fuel delimiters n mem' 0 save).map fun (ts, m) => (token :: ts, m)

/-! ### Strings and tokens -/

/-- The NUL-terminated string at `p` holds the bytes `l`. -/
def StrAt (mem : Nat → UInt8) (p : Nat) (l : List UInt8) : Prop :=
  (∀ i (h : i < l.length), mem (p + i) = l[i]) ∧ mem (p + l.length) = 0

/-- The tokens of `str`: its maximal non-empty runs of bytes outside `D`, in order. -/
def tokens (D str : List UInt8) : List (List UInt8) :=
  (str.splitOnP (· ∈ D)).filter fun w => !w.isEmpty

theorem strAt_nil {mem : Nat → UInt8} {p : Nat} : StrAt mem p [] ↔ mem p = 0 := by
  simp [StrAt]

theorem strAt_cons {mem : Nat → UInt8} {p : Nat} {c : UInt8} {l : List UInt8} :
    StrAt mem p (c :: l) ↔ mem p = c ∧ StrAt mem (p + 1) l := by
  constructor
  · rintro ⟨hb, hz⟩
    refine ⟨hb 0 (Nat.succ_pos _), fun i hi => ?_, ?_⟩
    · rw [show p + 1 + i = p + (i + 1) by omega]
      exact hb (i + 1) (by simpa using hi)
    · rw [show p + 1 + l.length = p + (c :: l).length by simp; omega]
      exact hz
  · rintro ⟨hc, hb, hz⟩
    refine ⟨fun i hi => ?_, ?_⟩
    · cases i with
      | zero => simpa using hc
      | succ i =>
        rw [show p + (i + 1) = p + 1 + i by omega]
        simpa using hb i (by simpa using hi)
    · simpa [Nat.add_assoc, Nat.add_comm 1] using hz

/-- The rest of a string after a prefix. -/
theorem StrAt.drop {mem : Nat → UInt8} {p : Nat} {a b : List UInt8} (h : StrAt mem p (a ++ b)) :
    StrAt mem (p + a.length) b := by
  induction a generalizing p with
  | nil => simpa using h
  | cons c a ih =>
    have := ih (strAt_cons.mp h).2
    simpa [Nat.add_assoc, Nat.add_comm 1] using this

/-- A string is not changed by a store outside it. -/
theorem StrAt.update {mem : Nat → UInt8} {p q : Nat} {l : List UInt8} {v : UInt8}
    (h : StrAt mem p l) (hq : q < p ∨ p + l.length < q) : StrAt (Function.update mem q v) p l := by
  refine ⟨fun i hi => ?_, ?_⟩
  · rw [Function.update_of_ne (by omega)]
    exact h.1 i hi
  · rw [Function.update_of_ne (by omega)]
    exact h.2

/-- The bytes of a prefix of a string. -/
theorem StrAt.getElem_left {mem : Nat → UInt8} {p : Nat} {a b : List UInt8}
    (h : StrAt mem p (a ++ b)) (i : Nat) (hi : i < a.length) : mem (p + i) = a[i] := by
  rw [h.1 i (by simp; omega), List.getElem_append_left hi]

/-- The bytes of a piece in the middle of a string. -/
theorem StrAt.getElem_mid {mem : Nat → UInt8} {p : Nat} {a b c : List UInt8}
    (h : StrAt mem p (a ++ b ++ c)) (i : Nat) (hi : i < b.length) :
    mem (p + a.length + i) = b[i] :=
  (show StrAt mem p (a ++ (b ++ c)) by simpa using h).drop.getElem_left i hi

/-- A string is read from the bytes it spans and its NUL alone. -/
theorem StrAt.congr {mem mem' : Nat → UInt8} {p : Nat} {l : List UInt8} (h : StrAt mem p l)
    (hagree : ∀ a, p ≤ a → a ≤ p + l.length → mem' a = mem a) : StrAt mem' p l :=
  ⟨fun i hi => by rw [hagree _ (by omega) (by omega)]; exact h.1 i hi,
    by rw [hagree _ (by omega) (Nat.le_refl _)]; exact h.2⟩

@[simp] theorem tokens_nil (D : List UInt8) : tokens D [] = [] := by
  simp [tokens]

/-- A delimiter in front does not change the tokens. -/
theorem tokens_delim_cons {D : List UInt8} {c : UInt8} (hc : c ∈ D) (l : List UInt8) :
    tokens D (c :: l) = tokens D l := by
  simp [tokens, List.splitOnP_cons_eq_if_modifyHead, hc]

theorem tokens_delims_append {D dels : List UInt8} (h : ∀ c ∈ dels, c ∈ D) (l : List UInt8) :
    tokens D (dels ++ l) = tokens D l := by
  induction dels with
  | nil => rfl
  | cons c dels ih =>
    rw [List.cons_append, tokens_delim_cons (h c (by simp)),
      ih fun c hc => h c (List.mem_cons_of_mem _ hc)]

/-- A run of bytes outside `D`, ended by the string's end or by a delimiter, is the first token. -/
theorem tokens_run_append {D tok after : List UInt8} (htok : tok ≠ []) (hout : ∀ c ∈ tok, c ∉ D)
    (hafter : ∀ e ∈ after.head?, e ∈ D) :
    tokens D (tok ++ after) = tok :: tokens D after.tail := by
  have hp : ∀ c ∈ tok, decide (c ∈ D) = false := by simpa using hout
  cases after with
  | nil =>
    simp [tokens, List.splitOnP_eq_singleton hp, htok]
  | cons e rest =>
    have he : decide (e ∈ D) = true := by simpa using hafter
    simp [tokens, List.splitOnP_append_cons_of_forall_mem hp e he, htok]

/-- Every string is delimiters only, or some delimiters, then a token, then the end of the
string or a delimiter. -/
theorem delims_or_token (D : List UInt8) :
    ∀ l : List UInt8, (∀ c ∈ l, c ∈ D) ∨
      ∃ dels tok after, l = dels ++ tok ++ after ∧ (∀ c ∈ dels, c ∈ D) ∧ tok ≠ [] ∧
        (∀ c ∈ tok, c ∉ D) ∧ ∀ e ∈ after.head?, e ∈ D
  | [] => .inl (by simp)
  | c :: l => by
    by_cases hc : c ∈ D
    · rcases delims_or_token D l with hl | ⟨dels, tok, after, rfl, hdels, htok, hout, hafter⟩
      · exact .inl (List.forall_mem_cons.mpr ⟨hc, hl⟩)
      · exact .inr ⟨c :: dels, tok, after, rfl, List.forall_mem_cons.mpr ⟨hc, hdels⟩, htok, hout, hafter⟩
    · right
      rcases delims_or_token D l with hl | ⟨_ | ⟨e, dels⟩, tok, after, rfl, hdels, htok, hout, hafter⟩
      · -- the token is `c` alone, and the rest is delimiters
        refine ⟨[], [c], l, rfl, by simp, by simp, by simpa using hc, fun e he => hl e ?_⟩
        exact List.mem_of_mem_head? he
      · exact ⟨[], c :: tok, after, rfl, by simp, by simp, List.forall_mem_cons.mpr ⟨hc, hout⟩, hafter⟩
      · exact ⟨[], [c], e :: dels ++ tok ++ after, rfl, by simp, by simp, by simpa using hc,
          by simpa using hdels e (by simp)⟩

/-! ### The scanning loops -/

/-- `strchr` on the delimiter string finds the NUL and every byte of `D`, and nothing else. -/
def FindsDelims (fuel : Nat) (mem : Nat → UInt8) (delimiters : Nat) (D : List UInt8) : Prop :=
  ∀ c, ∃ r, strchr fuel mem delimiters c = some r ∧ (r ≠ 0 ↔ c = 0 ∨ c ∈ D)

theorem strchrLoop_spec {mem : Nat → UInt8} (c : UInt8) {D : List UInt8} (hD : 0 ∉ D) :
    ∀ {p fuel : Nat}, p ≠ 0 → StrAt mem p D → D.length < fuel →
      ∃ r, strchrLoop mem c fuel p = some r ∧ (r ≠ 0 ↔ c = 0 ∨ c ∈ D) := by
  induction D with
  | nil =>
    intro p fuel hp hs hf
    obtain ⟨fuel, rfl⟩ : ∃ f, fuel = f + 1 := ⟨fuel - 1, by simp at hf; omega⟩
    rw [strAt_nil] at hs
    by_cases hc : c = 0
    · exact ⟨p, by simp [strchrLoop, hs, hc], by simp [hp, hc]⟩
    · exact ⟨0, by simp [strchrLoop, hs, Ne.symm hc], by simp [hc]⟩
  | cons e D ih =>
    intro p fuel hp hs hf
    obtain ⟨fuel, rfl⟩ : ∃ f, fuel = f + 1 := ⟨fuel - 1, by omega⟩
    obtain ⟨he, hs⟩ := strAt_cons.mp hs
    have he0 : e ≠ 0 := fun h => hD (h ▸ List.mem_cons_self)
    by_cases hc : e = c
    · exact ⟨p, by simp [strchrLoop, he, hc], by simp [hp, hc]⟩
    · obtain ⟨r, hr, hiff⟩ := ih (fun h => hD (List.mem_cons_of_mem _ h)) (by omega) hs
        (by simp at hf; omega)
      refine ⟨r, by simp [strchrLoop, he, hc, he0, hr], ?_⟩
      rw [hiff, List.mem_cons]
      constructor
      · rintro (h | h)
        · exact .inl h
        · exact .inr (.inr h)
      · rintro (h | h | h)
        · exact .inl h
        · exact absurd h.symm hc
        · exact .inr h

/-- The delimiter string, when `fuel` covers it, is what `strtok_r`'s tests rely on. -/
theorem findsDelims {fuel : Nat} {mem : Nat → UInt8} {d : Nat} {D : List UInt8} (hd : d ≠ 0)
    (hs : StrAt mem d D) (hD : 0 ∉ D) (hf : D.length < fuel) : FindsDelims fuel mem d D := by
  intro c
  rw [strchr, if_neg hd]
  exact strchrLoop_spec c hD hd hs hf

section Loops

variable {fuel : Nat} {mem : Nat → UInt8} {d : Nat} {D : List UInt8}

theorem strchr_eq_zero (hD : FindsDelims fuel mem d D) {c : UInt8} (hc : c ≠ 0) (hout : c ∉ D) :
    strchr fuel mem d c = some 0 := by
  obtain ⟨r, hr, hiff⟩ := hD c
  rw [hr, show r = 0 by by_contra h; exact (hiff.mp h).elim hc hout]

theorem strchr_ne_zero (hD : FindsDelims fuel mem d D) {c : UInt8} (hc : c = 0 ∨ c ∈ D) :
    ∃ r, strchr fuel mem d c = some r ∧ r ≠ 0 := by
  obtain ⟨r, hr, hiff⟩ := hD c
  exact ⟨r, hr, hiff.mpr hc⟩

/-- The first loop passes the delimiters and stops at the token after them, or at the NUL. -/
theorem skipDelimiters_eq (hD : FindsDelims fuel mem d D) {rest : List UInt8}
    (hrest : ∀ c ∈ rest.head?, c ∉ D) :
    ∀ {dels : List UInt8} {p n : Nat}, StrAt mem p (dels ++ rest) → 0 ∉ dels ++ rest →
      (∀ c ∈ dels, c ∈ D) → (dels ++ rest).length < n →
      skipDelimiters fuel mem d n p = some (rest.isEmpty, p + dels.length)
  | [], p, n + 1, hs, h0, _, _ => by
    cases rest with
    | nil =>
      obtain ⟨r, hr, hr0⟩ := strchr_ne_zero hD (Or.inl (rfl : (0 : UInt8) = 0))
      simp [skipDelimiters, strAt_nil.mp hs, hr, hr0]
    | cons c rest =>
      obtain ⟨hc, -⟩ := strAt_cons.mp hs
      have hc0 : c ≠ 0 := fun h => h0 (h ▸ List.mem_cons_self)
      simp [skipDelimiters, hc, strchr_eq_zero hD hc0 (by simpa using hrest)]
  | e :: dels, p, n + 1, hs, h0, hdels, hn => by
    obtain ⟨he, hs⟩ := strAt_cons.mp hs
    have he0 : e ≠ 0 := fun h => h0 (h ▸ List.mem_cons_self)
    obtain ⟨r, hr, hr0⟩ := strchr_ne_zero hD (.inr (hdels e List.mem_cons_self))
    have ih := skipDelimiters_eq hD hrest hs (fun h => h0 (List.mem_cons_of_mem _ h))
      (fun c hc => hdels c (List.mem_cons_of_mem _ hc)) (by simp at hn ⊢; omega)
    simp only [skipDelimiters, he, hr, hr0, he0, if_false, ih, List.length_cons]
    rw [show p + 1 + dels.length = p + (dels.length + 1) by omega]

/-- The second loop passes the token and stops at the delimiter or the NUL after it. -/
theorem skipToken_eq (hD : FindsDelims fuel mem d D) {after : List UInt8}
    (hafter : ∀ e ∈ after.head?, e ∈ D) :
    ∀ {tok : List UInt8} {p n : Nat}, StrAt mem p (tok ++ after) → 0 ∉ tok ++ after →
      (∀ c ∈ tok, c ∉ D) → (tok ++ after).length < n →
      skipToken fuel mem d n p = some (p + tok.length)
  | [], p, n + 1, hs, _, _, _ => by
    cases after with
    | nil =>
      obtain ⟨r, hr, hr0⟩ := strchr_ne_zero hD (Or.inl (rfl : (0 : UInt8) = 0))
      simp [skipToken, strAt_nil.mp hs, hr, hr0]
    | cons e after =>
      obtain ⟨he, -⟩ := strAt_cons.mp hs
      obtain ⟨r, hr, hr0⟩ := strchr_ne_zero hD (.inr (by simpa using hafter))
      simp [skipToken, he, hr, hr0]
  | c :: tok, p, n + 1, hs, h0, hout, hn => by
    obtain ⟨hc, hs⟩ := strAt_cons.mp hs
    have hc0 : c ≠ 0 := fun h => h0 (h ▸ List.mem_cons_self)
    have ih := skipToken_eq hD hafter hs (fun h => h0 (List.mem_cons_of_mem _ h))
      (fun e he => hout e (List.mem_cons_of_mem _ he)) (by simp at hn ⊢; omega)
    simp only [skipToken, hc, strchr_eq_zero hD hc0 (hout c List.mem_cons_self), if_true, ih,
      List.length_cons]
    rw [show p + 1 + tok.length = p + (tok.length + 1) by omega]

end Loops

/-! ### Calls -/

section Calls

variable {fuel d : Nat} {D : List UInt8}

/-- A call that finds only delimiters before the NUL returns NULL and leaves `*save_ptr` at the
NUL. -/
theorem strtokR_end {mem : Nat → UInt8} (hD : FindsDelims fuel mem d D) (hd : d ≠ 0)
    {s savePtr p : Nat} (hp : (if s = 0 then savePtr else s) = p) (hp0 : p ≠ 0) {l : List UInt8}
    (hs : StrAt mem p l) (h0 : 0 ∉ l) (hall : ∀ c ∈ l, c ∈ D) (hf : l.length < fuel) :
    strtokR fuel mem s d savePtr = some (0, mem, p + l.length) := by
  have hskip := @skipDelimiters_eq fuel mem d D hD [] (by simp) l p fuel (by simpa using hs)
    (by simpa using h0) hall (by simpa using hf)
  simp [strtokR, hd, hp, hp0, hskip]

/-- A call that finds a token returns it, and writes a NUL over the delimiter after it, if
there is one, to go on after that delimiter; at the string's end it stops at the NUL. -/
theorem strtokR_token {mem : Nat → UInt8} (hD : FindsDelims fuel mem d D) (hd : d ≠ 0)
    {s savePtr p : Nat} (hp : (if s = 0 then savePtr else s) = p) (hp0 : p ≠ 0)
    {dels tok after : List UInt8} (hs : StrAt mem p (dels ++ tok ++ after))
    (h0 : 0 ∉ dels ++ tok ++ after) (hf : (dels ++ tok ++ after).length < fuel)
    (hdels : ∀ c ∈ dels, c ∈ D) (htok : tok ≠ []) (hout : ∀ c ∈ tok, c ∉ D)
    (hafter : ∀ e ∈ after.head?, e ∈ D) :
    strtokR fuel mem s d savePtr = some (p + dels.length,
      if after = [] then (mem, p + dels.length + tok.length)
      else (Function.update mem (p + dels.length + tok.length) 0,
        p + dels.length + tok.length + 1)) := by
  rw [List.append_assoc] at hs h0 hf
  obtain ⟨c, tok', rfl⟩ := List.exists_cons_of_ne_nil htok
  have hskip := @skipDelimiters_eq fuel mem d D hD (c :: tok' ++ after)
    (by simpa using hout c (by simp)) dels p fuel hs h0 hdels hf
  have htoken := @skipToken_eq fuel mem d D hD after hafter (c :: tok') (p + dels.length) fuel
    hs.drop (fun h => h0 (List.mem_append_right _ h)) hout (by simp at hf ⊢; omega)
  have hend := (show StrAt mem p ((dels ++ c :: tok') ++ after) by simpa using hs).drop
  simp only [List.length_append, List.length_cons] at hend
  cases after with
  | nil =>
    have hnul : mem (p + (dels.length + (tok'.length + 1))) = 0 := strAt_nil.mp hend
    simp [strtokR, hd, hp, hp0, hskip, htoken, hnul, Nat.add_assoc]
  | cons e after =>
    have he0 : e ≠ 0 := fun h => h0 (by simp [h])
    have he : mem (p + (dels.length + (tok'.length + 1))) = e := (strAt_cons.mp hend).1
    simp [strtokR, hd, hp, hp0, hskip, htoken, he, he0, Nat.add_assoc]

/-- Once only delimiters are left, every call returns NULL and changes nothing. -/
theorem strtokCalls_end {mem : Nat → UInt8} (hD : FindsDelims fuel mem d D) (hd : d ≠ 0) :
    ∀ (n : Nat) {s savePtr p : Nat} {l : List UInt8}, (if s = 0 then savePtr else s) = p →
      p ≠ 0 → StrAt mem p l → 0 ∉ l → (∀ c ∈ l, c ∈ D) → l.length < fuel →
      strtokCalls fuel d n mem s savePtr = some (List.replicate n 0, mem)
  | 0, _, _, _, _, _, _, _, _, _, _ => rfl
  | n + 1, s, savePtr, p, l, hp, hp0, hs, h0, hall, hf => by
    have hnul : StrAt mem (p + l.length) [] := (show StrAt mem p (l ++ []) by simpa using hs).drop
    rw [strtokCalls, strtokR_end hD hd hp hp0 hs h0 hall hf]
    dsimp only
    rw [strtokCalls_end hD hd n (by simp) (by omega) hnul (by simp) (by simp) (by simp; omega)]
    rfl

/-- The calls from a point `p` of the string, where `l` is left: the tokens of `l` come back in
order, at places that do not depend on the memory beyond the two strings, each with a NUL after
it, and the only bytes written are the delimiters after the tokens, set to NUL. -/
theorem strtokCalls_from (hd : d ≠ 0) (hD0 : 0 ∉ D) (hDf : D.length < fuel) :
    ∀ (l : List UInt8) (p : Nat), p ≠ 0 → 0 ∉ l → l.length < fuel →
      (d + D.length < p ∨ p + l.length < d) →
      ∃ spans : List (Nat × List UInt8), spans.map Prod.snd = tokens D l ∧
        (∀ x ∈ spans, p ≤ x.1) ∧
        ∀ (mem : Nat → UInt8) (s savePtr : Nat), (if s = 0 then savePtr else s) = p →
          StrAt mem p l → StrAt mem d D → ∀ n, spans.length ≤ n →
          ∃ mem', strtokCalls fuel d n mem s savePtr =
              some (spans.map Prod.fst ++ List.replicate (n - spans.length) 0, mem') ∧
            (∀ x ∈ spans, StrAt mem' x.1 x.2) ∧
            ∀ a, mem' a ≠ mem a → p ≤ a ∧ a < p + l.length ∧ mem a ∈ D ∧ mem' a = 0 ∧
              ∃ x ∈ spans, a = x.1 + x.2.length := by
  intro l
  induction hk : l.length using Nat.strongRecOn generalizing l with
  | _ k ih =>
  subst hk
  intro p hp h0 hf hdisj
  rcases delims_or_token D l with hall | ⟨dels, tok, after, rfl, hdels, htok, hout, hafter⟩
  · -- only delimiters: every call returns NULL
    refine ⟨[], by simpa using tokens_delims_append hall [], by simp, ?_⟩
    intro mem s savePtr hsp hs hDs n _
    refine ⟨mem, ?_, by simp, fun a ha => absurd rfl ha⟩
    rw [strtokCalls_end (findsDelims hd hDs hD0 hDf) hd n hsp hp hs h0 hall hf]
    simp
  have htokens : tokens D (dels ++ tok ++ after) = tok :: tokens D after.tail := by
    rw [List.append_assoc, tokens_delims_append hdels, tokens_run_append htok hout hafter]
  have htok0 : 0 < tok.length := List.length_pos_iff.mpr htok
  cases after with
  | nil =>
    -- the token ends at the NUL: the calls after it return NULL
    refine ⟨[(p + dels.length, tok)], by simpa using htokens.symm, by simp, ?_⟩
    intro mem s savePtr hsp hs hDs n hn
    obtain ⟨n, rfl⟩ : ∃ m, n = m + 1 := ⟨n - 1, by simp at hn; omega⟩
    have hfd := findsDelims hd hDs hD0 hDf
    have hnul : StrAt mem (p + dels.length + tok.length) [] := by
      simpa [Nat.add_assoc] using (show StrAt mem p ((dels ++ tok) ++ []) by simpa using hs).drop
    refine ⟨mem, ?_, ?_, fun a ha => absurd rfl ha⟩
    · rw [strtokCalls, strtokR_token hfd hd hsp hp hs h0 hf hdels htok hout (by simp), if_pos rfl]
      dsimp only
      rw [strtokCalls_end hfd hd n (by simp) (by omega) hnul (by simp) (by simp) (by simp; omega)]
      rfl
    · intro x hx
      rw [List.mem_singleton] at hx
      subst hx
      exact ⟨fun i hi => hs.getElem_mid i hi, strAt_nil.mp hnul⟩
  | cons e rest =>
    -- the token ends at a delimiter: the calls go on after it
    have hlen : (dels ++ tok ++ e :: rest).length = dels.length + tok.length + 1 + rest.length := by
      simp; omega
    set t := p + dels.length + tok.length with ht
    obtain ⟨spans, hmap, hge, hcalls⟩ := ih rest.length (by omega) rest rfl (t + 1) (by omega)
      (fun h => h0 (by simp [h])) (by omega) (by omega)
    refine ⟨(p + dels.length, tok) :: spans, by rw [List.map_cons, hmap, htokens]; rfl, ?_, ?_⟩
    · intro x hx
      rcases List.mem_cons.mp hx with rfl | hx
      · simp
      · have := hge x hx
        omega
    intro mem s savePtr hsp hs hDs n hn
    obtain ⟨n, rfl⟩ : ∃ m, n = m + 1 := ⟨n - 1, by simp at hn; omega⟩
    have hfd := findsDelims hd hDs hD0 hDf
    have he : mem t = e := by
      have := (show StrAt mem p ((dels ++ tok) ++ e :: rest) by simpa using hs).drop
      simpa [ht, Nat.add_assoc] using (strAt_cons.mp this).1
    have hrest : StrAt (Function.update mem t 0) (t + 1) rest := by
      have := (show StrAt mem p ((dels ++ tok ++ [e]) ++ rest) by simpa using hs).drop
      exact StrAt.update (by simpa [ht, Nat.add_assoc] using this) (by omega)
    have hD₁ : StrAt (Function.update mem t 0) d D := hDs.update (by omega)
    obtain ⟨mem', hc, hstr, hmod⟩ := hcalls (Function.update mem t 0) 0 (t + 1) (by simp) hrest hD₁ n
      (by simp at hn; omega)
    -- the later calls write only past the delimiter
    have hkeep : ∀ a, a ≤ t → mem' a = Function.update mem t 0 a := by
      intro a ha
      by_contra hne
      have := (hmod a hne).1
      omega
    refine ⟨mem', ?_, ?_, ?_⟩
    · rw [strtokCalls, strtokR_token hfd hd hsp hp hs h0 hf hdels htok hout hafter,
        if_neg (by simp), ← ht]
      simp [hc]
    · intro x hx
      rcases List.mem_cons.mp hx with rfl | hx
      · dsimp only
        refine ⟨fun i hi => ?_, ?_⟩
        · rw [hkeep _ (by omega), Function.update_of_ne (by omega)]
          exact hs.getElem_mid i hi
        · rw [hkeep _ (by omega)]
          simp [ht]
      · exact hstr x hx
    · intro a ha
      by_cases hat : a = t
      · subst hat
        have h' : mem' t = 0 := by rw [hkeep t (Nat.le_refl t)]; simp
        refine ⟨by omega, by omega, ?_, h', ⟨_, List.mem_cons_self, rfl⟩⟩
        rw [he]
        simpa using hafter
      · have hne : mem' a ≠ Function.update mem t 0 a := by
          rwa [Function.update_of_ne hat]
        obtain ⟨h1, h2, h3, h4, x, hx, hxa⟩ := hmod a hne
        rw [Function.update_of_ne hat] at h3
        exact ⟨by omega, by omega, h3, h4, x, List.mem_cons_of_mem _ hx, hxa⟩

end Calls

/-- **`strtok_r` tokenises exactly.**  For a string `str` at `s` and a delimiter string `D` at
`delimiters`, apart from each other, the calls `strtok_r (s, D, &p)`, `strtok_r (NULL, D, &p)`,
... return the tokens of `str` in order, each a non-null pointer to the token followed by a
NUL, and NULL at every call after them.  Where the tokens lie is fixed by `str` and `D` before
the memory is (`spans` comes first), so nothing beyond the string's NUL is read; the only bytes
written are delimiters right after tokens, each set to NUL. -/
theorem strtok_r_tokenises {fuel s delimiters : Nat} {str D : List UInt8} (hs0 : s ≠ 0)
    (hd : delimiters ≠ 0) (hstr : 0 ∉ str) (hD : 0 ∉ D) (hfuel : str.length < fuel ∧ D.length < fuel)
    (hdisj : delimiters + D.length < s ∨ s + str.length < delimiters) :
    ∃ spans : List (Nat × List UInt8), spans.map Prod.snd = tokens D str ∧
      ∀ (mem : Nat → UInt8) (savePtr : Nat), StrAt mem s str → StrAt mem delimiters D →
        ∀ n, spans.length ≤ n →
        ∃ mem', strtokCalls fuel delimiters n mem s savePtr =
            some (spans.map Prod.fst ++ List.replicate (n - spans.length) 0, mem') ∧
          (∀ x ∈ spans, x.1 ≠ 0 ∧ StrAt mem' x.1 x.2) ∧
          ∀ a, mem' a ≠ mem a → s ≤ a ∧ a < s + str.length ∧ mem a ∈ D ∧ mem' a = 0 ∧
            ∃ x ∈ spans, a = x.1 + x.2.length := by
  obtain ⟨spans, hmap, hge, hcalls⟩ :=
    strtokCalls_from hd hD hfuel.2 str s hs0 hstr hfuel.1 hdisj
  refine ⟨spans, hmap, fun mem savePtr hs hD' n hn => ?_⟩
  obtain ⟨mem', hc, hstrs, hmod⟩ := hcalls mem s savePtr (if_neg hs0) hs hD' n hn
  exact ⟨mem', hc, fun x hx => ⟨by have := hge x hx; omega, hstrs x hx⟩, hmod⟩

/-- The string `" a b"` at 10 and the delimiters `" "` at 1. -/
def spacedMem (a : Nat) : UInt8 :=
  if a = 1 ∨ a = 10 ∨ a = 12 then 32 else if a = 11 then 97 else if a = 13 then 98 else 0

/-- Three calls on `" a b"` with `" "` return the two tokens and then NULL. -/
theorem strtok_r_tokenises_spaced :
    (10 : Nat) ≠ 0 ∧ (1 : Nat) ≠ 0 ∧ (0 : UInt8) ∉ [32, 97, 32, 98] ∧ (0 : UInt8) ∉ [32] ∧
      ∃ spans : List (Nat × List UInt8), spans.map Prod.snd = [[97], [98]] ∧
        ∃ mem', strtokCalls 5 1 3 spacedMem 10 0 = some (spans.map Prod.fst ++ [0], mem') := by
  obtain ⟨spans, hmap, hcalls⟩ := @strtok_r_tokenises 5 10 1 [32, 97, 32, 98] [32] (by decide)
    (by decide) (by decide) (by decide) (by decide) (by decide)
  have htok : tokens [32] [32, 97, 32, 98] = [[97], [98]] := by decide
  have hlen : spans.length = 2 := by simpa [htok] using congrArg List.length hmap
  obtain ⟨mem', hc, -⟩ := hcalls spacedMem 0 (by simp [strAt_cons, strAt_nil, spacedMem])
    (by simp [strAt_cons, strAt_nil, spacedMem]) 3 (by omega)
  refine ⟨by decide, by decide, by decide, by decide, spans, hmap.trans htok, mem', ?_⟩
  simpa [hlen] using hc

end Pintos.String
