import Sage.Infra.RingBuffer

/-! # The SPSC ring buffer, one atomic step at a time

The producer and the consumer of a `RingBuffer` are threads; their calls interleave at the
granularity of single memory accesses. This file splits each call into its steps: every
atomic load or store of `head_`/`tail_` and every slot copy is one step, and a thread's
own reads and writes of its cached index go with the step they follow. The shared memory
is a `RingBuffer` (`Sys.ring`); each thread holds a program point with its locals
(`PushPc`, `PopPc`). A system may have several producer threads, indexed by `ι`: the
ring's contract has one, and `Cal` shows a stage that runs two.

Two logs record what the threads see: `pushed p`, the items whose `try_push` by `p`
returned `true`, in order, and `obtained`, the items returned by successful `try_pop` and
`try_pop_batch` calls.

* **`Sys.step`**, **`Sys.run`** — one step of one thread, and a schedule of steps.
* **`run_tryPop_after_tryPopBatch`** — a one-producer schedule after which the consumer has
  obtained `[7, 0]` from a producer that pushed only `[7]`. -/

namespace Sage

/-- Where a producer thread is inside `try_push`. -/
inductive PushPc (α : Type)
  /-- Not inside `try_push`. -/
  | idle
  /-- After `head = head_.load(relaxed)`; next, the test against `cached_tail_`. -/
  | loaded (item : α) (head : BitVec 64)
  /-- The cached view says full; next, `cached_tail_ = tail_.load(acquire)` and the retest. -/
  | reload (item : α) (head : BitVec 64)
  /-- Next, `buffer_[head & MASK] = item`. -/
  | write (item : α) (head : BitVec 64)
  /-- Next, `head_.store(head + 1, release)` and `return true`. -/
  | publish (item : α) (head : BitVec 64)

/-- Where the consumer thread is inside `try_pop`, `try_pop_batch` or `try_peek`. -/
inductive PopPc (α : Type)
  /-- Not inside a call. -/
  | idle
  /-- `try_pop` after `tail = tail_.load(relaxed)`; next, the test `cached_head_ == tail`. -/
  | popLoaded (tail : BitVec 64)
  /-- The cached view says empty; next, `cached_head_ = head_.load(acquire)` and the retest. -/
  | popReload (tail : BitVec 64)
  /-- Next, `item = buffer_[tail & MASK]`. -/
  | popRead (tail : BitVec 64)
  /-- Next, `tail_.store(tail + 1, release)` and `return true`. -/
  | popPublish (tail : BitVec 64) (item : α)
  /-- `try_pop_batch` after `tail = tail_.load(relaxed)`; next, `head = head_.load(acquire)`. -/
  | batchLoaded (maxCount tail : BitVec 64)
  /-- Next, copy item `got.length` of `toPop`, or, all copied, `tail_.store(tail + toPop)`. -/
  | batchCopy (tail toPop : BitVec 64) (got : List α)
  /-- `try_peek` after `tail = tail_.load(relaxed)`; next, `head = head_.load(acquire)`. -/
  | peekLoaded (tail : BitVec 64)
  /-- Next, `item = buffer_[tail & MASK]` and `return true`. -/
  | peekRead (tail : BitVec 64)

/-- The shared ring, every thread's program point, and the two logs. -/
structure Sys (ι α : Type) (N : Capacity) where
  ring : RingBuffer α N
  prod : ι → PushPc α
  cons : PopPc α
  /-- Per producer, the items whose `try_push` returned `true`, in push order. -/
  pushed : ι → List α
  /-- The items returned by successful `try_pop` and `try_pop_batch` calls, in order. -/
  obtained : List α

/-- A scheduling decision: which thread takes its next step. -/
inductive Action (ι α : Type)
  /-- Producer `p` calls `try_push(item)` and performs its first load. -/
  | call (p : ι) (item : α)
  /-- Producer `p` takes its next step. -/
  | prodStep (p : ι)
  /-- The consumer calls `try_pop` and performs its first load. -/
  | callPop
  /-- The consumer calls `try_pop_batch(·, maxCount)` and performs its first load. -/
  | callBatch (maxCount : BitVec 64)
  /-- The consumer calls `try_peek` and performs its first load. -/
  | callPeek
  /-- The consumer takes its next step. -/
  | consStep
  deriving DecidableEq

namespace Sys

variable {ι α : Type} {N : Capacity} [DecidableEq ι]

/-- The start of a run: the ring `RingBuffer.empty k init`, every thread idle, empty logs. -/
def init (k : BitVec 64) (init : Nat → α) : Sys ι α N :=
  ⟨RingBuffer.empty k init, fun _ => .idle, .idle, fun _ => [], []⟩

/-- Move producer `p` to program point `pc`. -/
def setProd (s : Sys ι α N) (p : ι) (pc : PushPc α) : Sys ι α N :=
  { s with prod := Function.update s.prod p pc }

/-- The next step of producer `p`, which is at program point `pc`. -/
def prodNext (s : Sys ι α N) (p : ι) : PushPc α → Option (Sys ι α N)
  | .idle => none
  | .loaded x h =>
      if h + 1 - s.ring.cachedTail > BitVec.ofNat 64 N.val then some (s.setProd p (.reload x h))
      else some (s.setProd p (.write x h))
  | .reload x h =>
      let s := { s with ring := { s.ring with cachedTail := s.ring.tail } }
      if h + 1 - s.ring.cachedTail > BitVec.ofNat 64 N.val then some (s.setProd p .idle)
      else some (s.setProd p (.write x h))
  | .write x h =>
      let ring := { s.ring with buffer := Function.update s.ring.buffer (slot N h) x }
      some ({ s with ring := ring }.setProd p (.publish x h))
  | .publish x h =>
      some { s.setProd p .idle with
        ring := { s.ring with head := h + 1 }
        pushed := Function.update s.pushed p (s.pushed p ++ [x]) }

/-- The next step of the consumer, which is at program point `pc`. -/
def consNext (s : Sys ι α N) : PopPc α → Option (Sys ι α N)
  | .idle => none
  | .popLoaded t =>
      if s.ring.cachedHead = t then some { s with cons := .popReload t }
      else some { s with cons := .popRead t }
  | .popReload t =>
      let s := { s with ring := { s.ring with cachedHead := s.ring.head } }
      if s.ring.cachedHead = t then some { s with cons := .idle }
      else some { s with cons := .popRead t }
  | .popRead t => some { s with cons := .popPublish t (s.ring.buffer (slot N t)) }
  | .popPublish t x =>
      some { s with
        ring := { s.ring with tail := t + 1 }
        cons := .idle
        obtained := s.obtained ++ [x] }
  | .batchLoaded m t =>
      let available := s.ring.head - t
      let toPop := if available < m then available else m
      if toPop = 0 then some { s with cons := .idle }
      else some { s with cons := .batchCopy t toPop [] }
  | .batchCopy t n got =>
      if got.length < n.toNat then
        let item := s.ring.buffer (slot N (t + BitVec.ofNat 64 got.length))
        some { s with cons := .batchCopy t n (got ++ [item]) }
      else
        some { s with
          ring := { s.ring with tail := t + n }
          cons := .idle
          obtained := s.obtained ++ got }
  | .peekLoaded t =>
      if s.ring.head = t then some { s with cons := .idle }
      else some { s with cons := .peekRead t }
  | .peekRead _ => some { s with cons := .idle }

/-- One scheduling decision; `none` when the chosen thread cannot take it (a call on a
busy thread, a step of an idle one). -/
def step (s : Sys ι α N) : Action ι α → Option (Sys ι α N)
  | .call p x =>
      match s.prod p with
      | .idle => some (s.setProd p (.loaded x s.ring.head))
      | _ => none
  | .prodStep p => s.prodNext p (s.prod p)
  | .callPop =>
      match s.cons with
      | .idle => some { s with cons := .popLoaded s.ring.tail }
      | _ => none
  | .callBatch m =>
      match s.cons with
      | .idle => some { s with cons := .batchLoaded m s.ring.tail }
      | _ => none
  | .callPeek =>
      match s.cons with
      | .idle => some { s with cons := .peekLoaded s.ring.tail }
      | _ => none
  | .consStep => s.consNext s.cons

/-- A schedule, step after step; `none` if some step cannot be taken. -/
def run (s : Sys ι α N) : List (Action ι α) → Option (Sys ι α N)
  | [] => some s
  | a :: as => (s.step a).bind fun s' => s'.run as

end Sys

/-- **The consumer obtains an item nobody pushed.** One producer pushes `7` into a fresh
`RingBuffer<int,16>`; the consumer takes it with `try_pop_batch(·, 1)` and then calls
`try_pop`. Every step runs in program order, so this is one of the interleavings; the
consumer has obtained `[7, 0]`, which is not a prefix of the pushed `[7]`. -/
theorem run_tryPop_after_tryPopBatch :
    ((Sys.init (ι := Unit) (N := cap16) 0 fun _ => (0 : Nat)).run
      [.call () 7, .prodStep (), .prodStep (), .prodStep (),
        .callBatch 1, .consStep, .consStep, .consStep,
        .callPop, .consStep, .consStep, .consStep]).map
      (fun s => (s.pushed (), s.obtained)) = some ([7], [7, 0]) ∧
    ¬ [7, 0] <+: [7] := by
  decide

end Sage
