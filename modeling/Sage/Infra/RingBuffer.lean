import Sage.Types.Message

/-! # The SPSC ring buffer, one call at a time (`infra/ring_buffer.hpp`)

`RingBuffer<T, N>` is the only transport between stages. Its state is the producer index
`head_`, the consumer index `tail_`, the producer's cached copy `cached_tail_` of `tail_`, the
consumer's cached copy `cached_head_` of `head_`, and the slot array `buffer_`. Indices are
`size_t`s that wrap modulo `2^64`; the slot of index `i` is `i & (N - 1)`.

This file is the sequential model: each call runs to completion.

* **`RingBuffer.tryPush`**, **`tryPop`**, **`tryPeek`**, **`tryPopBatch`** — the four calls,
  transcribed branch by branch, including the cached-index fast paths.
* **`RingBuffer.call`**, **`RingBuffer.exec`** — one call and a sequence of calls, with what
  each returns.
* **`tryPop_after_tryPopBatch_on_empty`** — `try_pop_batch` advances `tail_` without
  touching `cached_head_`, so a stale `cached_head_` different from the new `tail_` lets
  the next `try_pop` skip its reload and "pop" a slot of an empty ring; `head_ - tail_` then
  wraps to `2^64 - 1`, and the next pushed item is skipped. -/

namespace Sage

/-- A ring capacity `N`: the template argument of `RingBuffer<T, N>` with its two
`static_assert`s (a power of two, at least 16). A power of two that fits a `size_t` is at most
`2^63`. -/
structure Capacity where
  val : Nat
  isPow2 : val &&& (val - 1) = 0
  ge16 : 16 ≤ val
  le : val ≤ 2 ^ 63

/-- The test suite's `RingBuffer<int, 16>`. -/
def cap16 : Capacity := ⟨16, by decide, le_rfl, by norm_num⟩

/-- `MediumRingBuffer`: the capacity 65536 of every queue of the pipeline. -/
def cap65536 : Capacity := ⟨65536, by decide, by norm_num, by norm_num⟩

/-- The slot `i & MASK` of index `i`, `MASK = N - 1`. -/
def slot (N : Capacity) (i : BitVec 64) : Nat := (i &&& BitVec.ofNat 64 (N.val - 1)).toNat

/-- A `RingBuffer<T, N>`: the two atomic indices, the two cached copies and the slots. -/
structure RingBuffer (α : Type) (N : Capacity) where
  /-- `head_`: written by the producer only. -/
  head : BitVec 64
  /-- `cached_tail_`: the producer's last view of `tail_`. -/
  cachedTail : BitVec 64
  /-- `tail_`: written by the consumer only. -/
  tail : BitVec 64
  /-- `cached_head_`: the consumer's last view of `head_`. -/
  cachedHead : BitVec 64
  /-- `buffer_`, by slot. -/
  buffer : Nat → α

namespace RingBuffer

variable {α : Type} {N : Capacity}

/-- A ring whose four indices all hold `k` and whose slots hold `init`. The constructor is
the case `k = 0`; other `k` put the wrap of the indices within reach. -/
def empty (k : BitVec 64) (init : Nat → α) : RingBuffer α N := ⟨k, k, k, k, init⟩

/-- The producer's write-then-publish: copy `item` into the slot of `head`, then store
`head_ = head + 1`. -/
def publish (rb : RingBuffer α N) (head : BitVec 64) (item : α) : RingBuffer α N :=
  { rb with buffer := Function.update rb.buffer (slot N head) item, head := head + 1 }

/-- `try_push(item)`: full when `next_head - cached_tail_ > N`; only then is `tail_`
reloaded into `cached_tail_` and the test repeated. -/
def tryPush (rb : RingBuffer α N) (item : α) : RingBuffer α N × Bool :=
  let head := rb.head
  let nextHead := head + 1
  if nextHead - rb.cachedTail > BitVec.ofNat 64 N.val then
    let rb := { rb with cachedTail := rb.tail }
    if nextHead - rb.cachedTail > BitVec.ofNat 64 N.val then (rb, false)
    else (rb.publish head item, true)
  else (rb.publish head item, true)

/-- The consumer's release store `tail_ = tail + 1` after a read. -/
def advance (rb : RingBuffer α N) (tail : BitVec 64) : RingBuffer α N :=
  { rb with tail := tail + 1 }

/-- `try_pop(item)`: empty when `cached_head_ == tail`; only then is `head_` reloaded into
`cached_head_` and the test repeated. -/
def tryPop (rb : RingBuffer α N) : RingBuffer α N × Option α :=
  let tail := rb.tail
  if rb.cachedHead = tail then
    let rb := { rb with cachedHead := rb.head }
    if rb.cachedHead = tail then (rb, none)
    else (rb.advance tail, some (rb.buffer (slot N tail)))
  else (rb.advance tail, some (rb.buffer (slot N tail)))

/-- `try_peek(item)`: reads `tail_` and `head_` afresh; changes nothing. -/
def tryPeek (rb : RingBuffer α N) : Option α :=
  if rb.head = rb.tail then none else some (rb.buffer (slot N rb.tail))

/-- `try_pop_batch(items, max_count)`: `min(head_ - tail_, max_count)` items copied from the
slots of `tail, tail + 1, …`, then `tail_` advanced by that count. `cached_head_` is left as
it was. The returned count is the length of the list. -/
def tryPopBatch (rb : RingBuffer α N) (maxCount : BitVec 64) : RingBuffer α N × List α :=
  let tail := rb.tail
  let available := rb.head - tail
  let toPop := if available < maxCount then available else maxCount
  if toPop = 0 then (rb, [])
  else ({ rb with tail := tail + toPop },
    (List.range toPop.toNat).map fun i => rb.buffer (slot N (tail + BitVec.ofNat 64 i)))

/-- A push onto a ring with room, whose cached tail is current, takes the fast path: it
writes the item and publishes `head_ + 1`. -/
theorem tryPush_of_room {rb : RingBuffer α N} {item : α} (hc : rb.cachedTail = rb.tail)
    (h : (rb.head - rb.tail).toNat < N.val) :
    rb.tryPush item = (rb.publish rb.head item, true) := by
  have hN := N.le
  have hle : ¬ rb.head + 1 - rb.cachedTail > BitVec.ofNat 64 N.val := by rw [hc]; bv_omega
  simp only [tryPush, hle, if_false]

/-- `try_push` of each item of `items` in turn, whatever each returns. -/
def pushAll (rb : RingBuffer α N) (items : List α) : RingBuffer α N :=
  items.foldl (fun rb y => (rb.tryPush y).1) rb

@[simp] theorem pushAll_nil (rb : RingBuffer α N) : rb.pushAll [] = rb := rfl

@[simp] theorem pushAll_cons (rb : RingBuffer α N) (x : α) (xs : List α) :
    rb.pushAll (x :: xs) = (rb.tryPush x).1.pushAll xs := rfl

/-- `n` pushes onto a ring with room for them fill it from `head_` on, leaving `tail_` and a
current `cached_tail_` as they were. -/
theorem pushes_of_room (x : α) (n : Nat) :
    ∀ rb : RingBuffer α N, rb.cachedTail = rb.tail → (rb.head - rb.tail).toNat + n ≤ N.val →
      let rb' := rb.pushAll (List.replicate n x)
      rb'.head = rb.head + BitVec.ofNat 64 n ∧ rb'.tail = rb.tail ∧ rb'.cachedTail = rb.tail := by
  induction n with
  | zero => intro rb hc _; simp [hc]
  | succ n ih =>
    intro rb hc h
    rw [List.replicate_succ, pushAll_cons, tryPush_of_room hc (by omega)]
    have hN := N.le
    obtain ⟨h₁, h₂, h₃⟩ := ih (rb.publish rb.head x) hc (by simp only [publish]; bv_omega)
    refine ⟨?_, h₂, h₃⟩
    rw [h₁]; simp only [publish]; bv_omega

/-- Refreshing a `cached_tail_` that is current changes nothing. -/
theorem refresh_cachedTail {rb : RingBuffer α N} (h : rb.cachedTail = rb.tail) :
    { rb with cachedTail := rb.tail } = rb := by
  obtain ⟨hd, ct, tl, ch, buf⟩ := rb
  dsimp only at h ⊢
  rw [h]

/-- A failed `try_push` changes nothing but `cached_tail_`, which it refreshed. -/
theorem tryPush_eq_of_snd_false {rb : RingBuffer α N} {item : α}
    (h : (rb.tryPush item).2 = false) :
    (rb.tryPush item).1 = { rb with cachedTail := rb.tail } := by
  simp only [tryPush] at h ⊢
  split at h
  · split at h
    · simp only [*, if_true]
    · cases h
  · cases h

/-- A push onto a ring holding `N` items, whose cached tail is current, fails and changes
nothing. -/
theorem tryPush_of_full {rb : RingBuffer α N} {item : α} (hc : rb.cachedTail = rb.tail)
    (h : (rb.head - rb.tail).toNat = N.val) : rb.tryPush item = (rb, false) := by
  have hN := N.le
  have hgt : rb.head + 1 - rb.tail > BitVec.ofNat 64 N.val := by bv_omega
  obtain ⟨hd, ct, tl, ch, buf⟩ := rb
  dsimp only at hc hgt
  subst hc
  simp only [tryPush, hgt, if_true]

/-! ### What the calls read -/

/-- The four indices of a ring, all that the tests of `try_push`, `try_pop` and
`try_pop_batch` read. -/
def indices (rb : RingBuffer α N) : BitVec 64 × BitVec 64 × BitVec 64 × BitVec 64 :=
  (rb.head, rb.cachedTail, rb.tail, rb.cachedHead)

/-- **`try_push` reads only the indices**: on two rings with the same indices, whatever their
slots and items, it succeeds alike and leaves the same indices. -/
theorem tryPush_indices {rb rb' : RingBuffer α N} (h : rb.indices = rb'.indices) (x y : α) :
    (rb.tryPush x).2 = (rb'.tryPush y).2 ∧
      (rb.tryPush x).1.indices = (rb'.tryPush y).1.indices := by
  simp only [indices, Prod.mk.injEq] at h
  obtain ⟨h₁, h₂, h₃, h₄⟩ := h
  simp only [tryPush, publish, h₁, h₂, h₃]
  split_ifs <;> simp [indices, h₃, h₄]

/-- `try_push` fails exactly when its fast test and its test after reloading `tail_` both find
the ring full; the item plays no part. -/
theorem tryPush_snd_eq (rb : RingBuffer α N) (x : α) :
    (rb.tryPush x).2 = !(decide (rb.head + 1 - rb.cachedTail > BitVec.ofNat 64 N.val) &&
      decide (rb.head + 1 - rb.tail > BitVec.ofNat 64 N.val)) := by
  unfold tryPush
  dsimp only
  split_ifs <;> simp_all

/-- `try_pop` reads only the indices. -/
theorem tryPop_indices {rb rb' : RingBuffer α N} (h : rb.indices = rb'.indices) :
    rb.tryPop.1.indices = rb'.tryPop.1.indices := by
  simp only [indices, Prod.mk.injEq] at h
  obtain ⟨h₁, h₂, h₃, h₄⟩ := h
  simp only [tryPop, advance, h₁, h₃, h₄]
  split_ifs <;> simp [indices, h₂]

/-- `try_pop_batch` reads only the indices. -/
theorem tryPopBatch_indices {rb rb' : RingBuffer α N} (h : rb.indices = rb'.indices)
    (maxCount : BitVec 64) :
    (rb.tryPopBatch maxCount).1.indices = (rb'.tryPopBatch maxCount).1.indices := by
  simp only [indices, Prod.mk.injEq] at h
  obtain ⟨h₁, h₂, h₃, h₄⟩ := h
  simp only [tryPopBatch, h₁, h₃]
  split_ifs <;> simp [indices, h₁, h₂, h₃, h₄]

/-- `n` pushes whose fast path finds room, `head_ - cached_tail_ + n ≤ N`, publish their items
without reading `tail_`: of the indices only `head_` moves, by `n`, even where `tail_` has
run ahead of `head_`. -/
theorem pushes_of_cachedRoom (x : α) (n : Nat) :
    ∀ rb : RingBuffer α N, (rb.head - rb.cachedTail).toNat + n ≤ N.val →
      (rb.pushAll (List.replicate n x)).indices =
        (rb.head + BitVec.ofNat 64 n, rb.cachedTail, rb.tail, rb.cachedHead) := by
  induction n with
  | zero => intro rb _; simp [indices]
  | succ n ih =>
    intro rb h
    have hN := N.le
    have hfast : ¬ rb.head + 1 - rb.cachedTail > BitVec.ofNat 64 N.val := by bv_omega
    rw [List.replicate_succ, pushAll_cons,
      show (rb.tryPush x).1 = rb.publish rb.head x by simp only [tryPush, hfast, if_false],
      ih _ (by simp only [publish]; bv_omega)]
    simp only [publish, Prod.mk.injEq, and_true]
    bv_omega

/-- `size_approx()`: `head_ - tail_`, wrapping. -/
def sizeApprox (rb : RingBuffer α N) : BitVec 64 := rb.head - rb.tail

/-- `empty_approx()`. -/
def emptyApprox (rb : RingBuffer α N) : Bool := rb.sizeApprox = 0

/-- `full_approx()`. -/
def fullApprox (rb : RingBuffer α N) : Bool := rb.sizeApprox ≥ BitVec.ofNat 64 N.val

end RingBuffer

/-! ## Runs of calls -/

/-- A call of the ring's interface. -/
inductive Call (α : Type)
  | tryPush (item : α)
  | tryPop
  | tryPeek
  | tryPopBatch (maxCount : BitVec 64)
  deriving DecidableEq

/-- What a call returns: `try_push`'s flag, the item `try_pop` or `try_peek` wrote (`none` when
it returned false), and the items `try_pop_batch` copied (its count is their number). -/
inductive Reply (α : Type)
  | pushed (ok : Bool)
  | popped (item : Option α)
  | peeked (item : Option α)
  | batch (items : List α)
  deriving DecidableEq

namespace RingBuffer

variable {α : Type} {N : Capacity}

/-- One call, run to completion. -/
def call (rb : RingBuffer α N) : Call α → RingBuffer α N × Reply α
  | .tryPush x => let r := rb.tryPush x; (r.1, .pushed r.2)
  | .tryPop => let r := rb.tryPop; (r.1, .popped r.2)
  | .tryPeek => (rb, .peeked rb.tryPeek)
  | .tryPopBatch m => let r := rb.tryPopBatch m; (r.1, .batch r.2)

/-- A sequence of calls, each run to completion: the final ring and the replies in order. -/
def exec (rb : RingBuffer α N) : List (Call α) → RingBuffer α N × List (Reply α)
  | [] => (rb, [])
  | c :: cs =>
    let r := rb.call c
    let rest := r.1.exec cs
    (rest.1, r.2 :: rest.2)

end RingBuffer

/-- **`try_pop` pops an empty ring after a `try_pop_batch`.** On a fresh `RingBuffer<int,16>`,
push `7` and take it with `try_pop_batch(·, 1)`: now `head_ = tail_ = 1` while `cached_head_`
is still `0`, so `try_pop` skips its reload, returns the never-pushed slot content `0` and
leaves `head_ - tail_ = 2^64 - 1`. The next `try_push(9)` succeeds and writes slot 1, behind
`tail_ = 2`, so that the ring reads as empty again; the next `try_pop` still succeeds, again
returning the never-pushed `0`, and `9` is never read. -/
theorem tryPop_after_tryPopBatch_on_empty :
    (RingBuffer.exec (RingBuffer.empty 0 fun _ => 0 : RingBuffer Nat cap16)
        [.tryPush 7, .tryPopBatch 1, .tryPop, .tryPush 9, .tryPop]).2 =
      [.pushed true, .batch [7], .popped (some 0), .pushed true, .popped (some 0)] ∧
    (RingBuffer.exec (RingBuffer.empty 0 fun _ => 0 : RingBuffer Nat cap16)
        [.tryPush 7, .tryPopBatch 1]).1.sizeApprox = 0 ∧
    (RingBuffer.exec (RingBuffer.empty 0 fun _ => 0 : RingBuffer Nat cap16)
        [.tryPush 7, .tryPopBatch 1, .tryPop]).1.sizeApprox.toNat = 2 ^ 64 - 1 ∧
    (RingBuffer.exec (RingBuffer.empty 0 fun _ => 0 : RingBuffer Nat cap16)
        [.tryPush 7, .tryPopBatch 1, .tryPop, .tryPush 9]).1.sizeApprox = 0 := by
  decide

end Sage
