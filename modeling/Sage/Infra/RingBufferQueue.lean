import Sage.Infra.RingBuffer

/-! # The ring buffer as a bounded FIFO queue

What a `RingBuffer<T, N>` is for: a first-in first-out queue of at most `N` items, whose
`try_push` fails exactly when `N` items are held, and whose pops return the oldest items. This
file states that queue (`BoundedQueue`) and proves that the sequential model refines it, on
every sequence of calls in which no `try_pop` comes after a `try_pop_batch`: the replies are
the queue's replies, and the items held are the queue's items. The side condition is the
defect of `tryPop_after_tryPopBatch_on_empty`; every consumer of the pipeline meets it, since
ADE only batches and RME and POE only pop.

* **`RingBuffer.contents`** — the abstraction: the items in the slots of `tail_`, …,
  `head_ - 1`.
* **`RingBuffer.TailOk`**, **`RingBuffer.HeadOk`** — the order of the indices that the two
  cached fast paths rely on, `cached_tail_ ≤ tail_ ≤ head_ ≤ cached_tail_ + N` and
  `tail_ ≤ cached_head_ ≤ head_`, all modulo `2^64`.
* **`RingBuffer.call_refines`** — one call, for each kind of call.
* **`RingBuffer.exec_refines`** — a whole sequence of calls. -/

namespace Sage

/-! ## (1) Slots of a power-of-two ring -/

namespace Capacity

/-- `static_assert((N & (N - 1)) == 0)` makes `N` a power of two: `2 ^ log2 N = N`. If `N`
had a second bit below its top bit `k`, both `N` and `N - 1` would have bit `k` set. -/
theorem two_pow_log2 (N : Capacity) : 2 ^ N.val.log2 = N.val := by
  have hpos : N.val ≠ 0 := by have := N.ge16; omega
  have hle := Nat.log2_self_le hpos
  have hlt : N.val < 2 ^ N.val.log2 * 2 := by rw [← Nat.pow_succ]; exact Nat.lt_log2_self
  by_contra hne
  obtain ⟨r, hr⟩ : ∃ r, N.val = 2 ^ N.val.log2 + r := ⟨_, (Nat.add_sub_cancel' hle).symm⟩
  have hbit : ∀ m, m < 2 ^ N.val.log2 → (2 ^ N.val.log2 + m).testBit N.val.log2 = true :=
    fun m hm => by rw [Nat.testBit_two_pow_add_eq, Nat.testBit_lt_two_pow hm]; rfl
  have h₁ := hbit r (by omega)
  have h₂ := hbit (r - 1) (by omega)
  rw [show 2 ^ N.val.log2 + (r - 1) = N.val - 1 by omega] at h₂
  rw [← hr] at h₁
  have := congrArg (Nat.testBit · N.val.log2) N.isPow2
  simp only [Nat.testBit_and, h₁, h₂, Nat.zero_testBit] at this
  exact absurd this (by decide)

/-- The capacity divides `2^64`, the modulus of the indices. -/
theorem dvd_two_pow_64 (N : Capacity) : N.val ∣ 2 ^ 64 := by
  rw [← N.two_pow_log2]
  refine Nat.pow_dvd_pow 2 ?_
  have := N.le
  rw [← N.two_pow_log2] at this
  have := (Nat.pow_le_pow_iff_right (by norm_num : 1 < 2)).1 this
  omega

end Capacity

namespace RingBuffer

variable {α : Type} {N : Capacity}

/-- The slot of an index is the index modulo `N`. -/
theorem slot_eq_mod (i : BitVec 64) : slot N i = i.toNat % N.val := by
  have hN : (BitVec.ofNat 64 (N.val - 1)).toNat = 2 ^ N.val.log2 - 1 := by
    have := N.le
    rw [BitVec.toNat_ofNat, Nat.mod_eq_of_lt (by omega), N.two_pow_log2]
  rw [slot, BitVec.toNat_and, hN, Nat.and_pow_two_sub_one_eq_mod, N.two_pow_log2]

/-- The slot `d` places after index `x` is `x + d` modulo `N`: the wrap of the index modulo
`2^64` is invisible modulo `N`. -/
theorem slot_add (x : BitVec 64) (d : Nat) :
    slot N (x + BitVec.ofNat 64 d) = (x.toNat + d) % N.val := by
  have hdvd := N.dvd_two_pow_64
  rw [slot_eq_mod, BitVec.toNat_add, BitVec.toNat_ofNat, Nat.mod_mod_of_dvd _ hdvd,
    Nat.add_mod, Nat.mod_mod_of_dvd _ hdvd, ← Nat.add_mod]

/-- Fewer than `N` places apart, two indices have different slots. -/
theorem slot_add_inj {x : BitVec 64} {i j : Nat} (hi : i < N.val) (hj : j < N.val)
    (h : slot N (x + BitVec.ofNat 64 i) = slot N (x + BitVec.ofNat 64 j)) : i = j := by
  rw [slot_add, slot_add] at h
  have := Nat.ModEq.add_left_cancel' x.toNat h
  rwa [Nat.ModEq, Nat.mod_eq_of_lt hi, Nat.mod_eq_of_lt hj] at this

/-! ## (2) The items a ring holds -/

/-- The items held, oldest first: the slots of `tail_`, `tail_ + 1`, …, `head_ - 1`. -/
def contents (rb : RingBuffer α N) : List α :=
  (List.range (rb.head - rb.tail).toNat).map fun i => rb.buffer (slot N (rb.tail + BitVec.ofNat 64 i))

@[simp] theorem length_contents (rb : RingBuffer α N) :
    rb.contents.length = (rb.head - rb.tail).toNat := by
  simp [contents]

/-- Writing the slot of `head_` changes no held item, while fewer than `N` are held. -/
theorem contents_write (rb : RingBuffer α N) (x : α) (h : (rb.head - rb.tail).toNat < N.val) :
    ({ rb with buffer := Function.update rb.buffer (slot N rb.head) x } : RingBuffer α N).contents =
      rb.contents := by
  have hhead : rb.tail + BitVec.ofNat 64 (rb.head - rb.tail).toNat = rb.head := by bv_omega
  unfold contents
  dsimp only
  refine List.map_congr_left fun i hi => Function.update_noteq (fun heq => ?_) _ _
  rw [List.mem_range] at hi
  rw [← hhead] at heq
  exact absurd (slot_add_inj (by omega) h heq) (by omega)

/-- Moving `head_` on adds the slot of the old `head_` at the back, while fewer than `N`
items are held. -/
theorem contents_succ_head (rb : RingBuffer α N) (h : (rb.head - rb.tail).toNat < N.val) :
    ({ rb with head := rb.head + 1 } : RingBuffer α N).contents =
      rb.contents ++ [rb.buffer (slot N rb.head)] := by
  have hN := N.le
  have hsize : (rb.head + 1 - rb.tail).toNat = (rb.head - rb.tail).toNat + 1 := by bv_omega
  have hhead : rb.tail + BitVec.ofNat 64 (rb.head - rb.tail).toNat = rb.head := by bv_omega
  simp only [contents, hsize, List.range_succ, List.map_append, List.map_cons, List.map_nil, hhead]

/-- **A publish appends**: with fewer than `N` items held, writing the slot of `head_` and
moving `head_` on puts the item at the back and leaves the others. -/
theorem contents_publish (rb : RingBuffer α N) (x : α) (h : (rb.head - rb.tail).toNat < N.val) :
    (rb.publish rb.head x).contents = rb.contents ++ [x] := by
  have := contents_succ_head ({ rb with buffer := Function.update rb.buffer (slot N rb.head) x }) h
  simp only [contents_write rb x h, Function.update_same] at this
  exact this

/-- **Moving `tail_` on by `k` drops the `k` oldest items**, for `k` up to the number
held. -/
theorem contents_drop (rb : RingBuffer α N) (k : Nat) (hk : k ≤ (rb.head - rb.tail).toNat) :
    ({ rb with tail := rb.tail + BitVec.ofNat 64 k } : RingBuffer α N).contents =
      rb.contents.drop k := by
  have hsize : (rb.head - (rb.tail + BitVec.ofNat 64 k)).toNat = (rb.head - rb.tail).toNat - k := by
    bv_omega
  apply List.ext_getElem
  · simp only [length_contents, List.length_drop, hsize]
  · intro j _ _
    simp only [contents, List.getElem_map, List.getElem_range, List.getElem_drop]
    congr 2
    bv_omega

/-- The `i`-th oldest item is the slot of `tail_ + i`. -/
theorem getElem?_contents (rb : RingBuffer α N) {i : Nat} (hi : i < (rb.head - rb.tail).toNat) :
    rb.contents[i]? = some (rb.buffer (slot N (rb.tail + BitVec.ofNat 64 i))) := by
  rw [contents, List.getElem?_map, List.getElem?_range hi, Option.map_some']

/-- The oldest `k` items are the slots of `tail_`, …, `tail_ + k - 1`. -/
theorem take_contents (rb : RingBuffer α N) (k : Nat) (hk : k ≤ (rb.head - rb.tail).toNat) :
    rb.contents.take k =
      (List.range k).map fun i => rb.buffer (slot N (rb.tail + BitVec.ofNat 64 i)) := by
  rw [contents, ← List.map_take, List.take_range, Nat.min_eq_left hk]

/-- The oldest item is the slot of `tail_`, when `head_ ≠ tail_`. -/
theorem head?_contents (rb : RingBuffer α N) :
    rb.contents.head? = if rb.head = rb.tail then none else some (rb.buffer (slot N rb.tail)) := by
  split
  · next h => simp [contents, h]
  · next h =>
    obtain ⟨n, hn⟩ : ∃ n, (rb.head - rb.tail).toNat = n + 1 :=
      ⟨(rb.head - rb.tail).toNat - 1, by bv_omega⟩
    simp [contents, hn, List.range_succ_eq_map]

/-! ## (3) The order of the indices -/

/-- The producer's cached view is safe: `cached_tail_ ≤ tail_ ≤ head_ ≤ cached_tail_ + N`,
each distance read from `cached_tail_` modulo `2^64`. -/
structure TailOk (rb : RingBuffer α N) : Prop where
  tail_le_head : (rb.tail - rb.cachedTail).toNat ≤ (rb.head - rb.cachedTail).toNat
  head_le : (rb.head - rb.cachedTail).toNat ≤ N.val

/-- The consumer's cached view is safe: `tail_ ≤ cached_head_ ≤ head_`, read from `tail_`. -/
def HeadOk (rb : RingBuffer α N) : Prop :=
  (rb.cachedHead - rb.tail).toNat ≤ (rb.head - rb.tail).toNat

/-- A fresh ring, all four indices at `k`, has both views safe. -/
theorem tailOk_empty (k : BitVec 64) (init : Nat → α) : (empty k init : RingBuffer α N).TailOk :=
  ⟨by simp [empty], by simp [empty]⟩

theorem headOk_empty (k : BitVec 64) (init : Nat → α) : (empty k init : RingBuffer α N).HeadOk := by
  simp [HeadOk, empty]

/-- Moving `tail_` on by at most the number of items held keeps the producer's view safe. -/
theorem TailOk.add_tail {rb rb' : RingBuffer α N} (h : rb.TailOk) (d : BitVec 64)
    (hd : d.toNat ≤ (rb.head - rb.tail).toNat) (hh : rb'.head = rb.head)
    (ht : rb'.tail = rb.tail + d) (hc : rb'.cachedTail = rb.cachedTail) : rb'.TailOk := by
  obtain ⟨h₁, h₂⟩ := h
  refine ⟨?_, by rw [hh, hc]; exact h₂⟩
  rw [hh, ht, hc]; clear hh ht hc; bv_omega

/-- Publishing `head_ + 1` after the producer's test found room keeps its view safe. -/
theorem TailOk.succ_head {rb rb' : RingBuffer α N} (h : rb.TailOk)
    (hroom : (rb.head + 1 - rb.cachedTail).toNat ≤ N.val) (hh : rb'.head = rb.head + 1)
    (ht : rb'.tail = rb.tail) (hc : rb'.cachedTail = rb.cachedTail) : rb'.TailOk := by
  obtain ⟨h₁, h₂⟩ := h
  have hN := N.le
  refine ⟨?_, by rw [hh, hc]; exact hroom⟩
  rw [hh, ht, hc]; clear hh ht hc; bv_omega

/-- With `cached_head_ ≠ tail_` on a safe consumer view, the ring holds an item. -/
theorem HeadOk.head_ne {rb : RingBuffer α N} (h : rb.HeadOk) (hc : rb.cachedHead ≠ rb.tail) :
    rb.head ≠ rb.tail := by
  unfold HeadOk at h; bv_omega

/-- Moving `tail_` on by one, past an item the consumer's cached view shows, keeps that view
safe. -/
theorem HeadOk.succ_tail {rb rb' : RingBuffer α N} (h : rb.HeadOk) (hc : rb.cachedHead ≠ rb.tail)
    (hh : rb'.head = rb.head) (ht : rb'.tail = rb.tail + 1) (hch : rb'.cachedHead = rb.cachedHead) :
    rb'.HeadOk := by
  unfold HeadOk at h ⊢; rw [hh, ht, hch]; clear hh ht hch; bv_omega

/-- Publishing `head_ + 1` onto a ring with room keeps the consumer's view safe. -/
theorem HeadOk.succ_head {rb rb' : RingBuffer α N} (h : rb.HeadOk)
    (hroom : (rb.head - rb.tail).toNat < N.val) (hh : rb'.head = rb.head + 1)
    (ht : rb'.tail = rb.tail) (hch : rb'.cachedHead = rb.cachedHead) : rb'.HeadOk := by
  have hN := N.le
  unfold HeadOk at h ⊢; rw [hh, ht, hch]; clear hh ht hch; bv_omega

/-! ## (4) Each call, against the items held -/

/-- **`try_push` on a safe producer view**: it succeeds exactly when fewer than `N` items
are held, and then appends its item; the producer's view stays safe, and so does the
consumer's. -/
theorem tryPush_spec (rb : RingBuffer α N) (x : α) (h : rb.TailOk) :
    (rb.tryPush x).2 = decide (rb.contents.length < N.val) ∧
      (rb.tryPush x).1.contents =
        (if rb.contents.length < N.val then rb.contents ++ [x] else rb.contents) ∧
      (rb.tryPush x).1.TailOk ∧ (rb.HeadOk → (rb.tryPush x).1.HeadOk) := by
  obtain ⟨h₁, h₂⟩ := h
  have hN := N.le
  rw [length_contents]
  by_cases hroom : (rb.head - rb.tail).toNat < N.val
  · rw [if_pos hroom, decide_eq_true hroom]
    unfold tryPush
    dsimp only
    split_ifs with hfast hfull
    · exact absurd hfull (by bv_omega)
    · exact ⟨rfl, contents_publish ({ rb with cachedTail := rb.tail } : RingBuffer α N) x hroom,
        ⟨by simp [publish], by simp only [publish]; bv_omega⟩,
        fun hh => hh.succ_head hroom rfl rfl rfl⟩
    · exact ⟨rfl, contents_publish rb x hroom, TailOk.succ_head ⟨h₁, h₂⟩ (by bv_omega) rfl rfl rfl,
        fun hh => hh.succ_head hroom rfl rfl rfl⟩
  · rw [if_neg hroom, decide_eq_false hroom]
    unfold tryPush
    dsimp only
    split_ifs with hfast hfull
    · exact ⟨rfl, rfl, ⟨by simp, by bv_omega⟩, id⟩
    · exact absurd (by bv_omega) hfull
    · exact absurd (by bv_omega) hfast

/-- A push on a safe producer view appends its item or nothing, and keeps the view safe. -/
theorem tryPush_contents_sublist (rb : RingBuffer α N) (x : α) (h : rb.TailOk) :
    (rb.tryPush x).1.TailOk ∧
      ∃ L, (rb.tryPush x).1.contents = rb.contents ++ L ∧ List.Sublist L [x] := by
  obtain ⟨-, hc, ht, -⟩ := rb.tryPush_spec x h
  refine ⟨ht, ?_⟩
  split at hc
  · exact ⟨[x], hc, List.Sublist.refl _⟩
  · exact ⟨[], by rw [hc, List.append_nil], List.nil_sublist _⟩

/-- Moving `tail_` on by one drops the oldest item of a non-empty ring. -/
theorem contents_advance (rb : RingBuffer α N) (h : rb.head ≠ rb.tail) :
    (rb.advance rb.tail).contents = rb.contents.tail := by
  rw [← List.drop_one]
  exact contents_drop rb 1 (by bv_omega)

/-- **`try_pop` on safe views** returns the oldest item and drops it, or returns nothing from
an empty ring; both views stay safe. -/
theorem tryPop_spec (rb : RingBuffer α N) (ht : rb.TailOk) (hh : rb.HeadOk) :
    rb.tryPop.2 = rb.contents.head? ∧ rb.tryPop.1.contents = rb.contents.tail ∧
      rb.tryPop.1.TailOk ∧ rb.tryPop.1.HeadOk := by
  rw [head?_contents]
  unfold tryPop
  dsimp only
  by_cases he : rb.head = rb.tail
  · have hc : rb.cachedHead = rb.tail := Decidable.byContradiction fun hc => hh.head_ne hc he
    have hnil : rb.contents = [] := List.eq_nil_of_length_eq_zero (by simp [he])
    rw [if_pos hc, if_pos he, if_pos he]
    exact ⟨rfl, show rb.contents = rb.contents.tail by rw [hnil]; rfl, ⟨ht.1, ht.2⟩, le_refl _⟩
  · have h₁ : (1 : BitVec 64).toNat ≤ (rb.head - rb.tail).toNat := by bv_omega
    rw [if_neg he]
    split_ifs with hc
    · exact ⟨rfl, contents_advance rb he, ht.add_tail 1 h₁ rfl rfl rfl,
        (show HeadOk ({ rb with cachedHead := rb.head } : RingBuffer α N) from le_refl _).succ_tail
          he rfl rfl rfl⟩
    · exact ⟨rfl, contents_advance rb he, ht.add_tail 1 h₁ rfl rfl rfl,
        hh.succ_tail hc rfl rfl rfl⟩

/-- `try_peek` returns the oldest item, if any. -/
theorem tryPeek_eq (rb : RingBuffer α N) : rb.tryPeek = rb.contents.head? := by
  rw [head?_contents]; rfl

/-- **`try_pop_batch` on a safe producer view** returns the `max_count` oldest items (all of
them, if fewer are held) and drops them; the producer's view stays safe. -/
theorem tryPopBatch_spec (rb : RingBuffer α N) (m : BitVec 64) (ht : rb.TailOk) :
    (rb.tryPopBatch m).2 = rb.contents.take m.toNat ∧
      (rb.tryPopBatch m).1.contents = rb.contents.drop m.toNat ∧ (rb.tryPopBatch m).1.TailOk := by
  have h₁ := ht.1
  have h₂ := ht.2
  have hlen := length_contents rb
  have hmove : ∀ d : BitVec 64, d.toNat ≤ (rb.head - rb.tail).toNat →
      ({ rb with tail := rb.tail + d } : RingBuffer α N).contents = rb.contents.drop d.toNat ∧
        ({ rb with tail := rb.tail + d } : RingBuffer α N).TailOk := fun d hd =>
    ⟨by rw [← contents_drop rb d.toNat hd]; simp, ht.add_tail d hd rfl rfl rfl⟩
  unfold tryPopBatch
  dsimp only
  split_ifs with hlt hz hz
  · have hnil : rb.contents = [] := List.eq_nil_of_length_eq_zero (by rw [hlen]; bv_omega)
    simp [hnil, ht]
  · obtain ⟨hc, hok⟩ := hmove _ le_rfl
    refine ⟨?_, ?_, hok⟩
    · rw [← take_contents rb _ le_rfl, List.take_of_length_le (by omega),
        List.take_of_length_le (by bv_omega)]
    · rw [hc, List.drop_of_length_le (by omega), List.drop_of_length_le (by bv_omega)]
  · simp [hz, ht]
  · obtain ⟨hc, hok⟩ := hmove m (by bv_omega)
    exact ⟨(take_contents rb _ (by bv_omega)).symm, hc, hok⟩

/-- The number of items after a `try_push` on a safe producer view: one more exactly when fewer
than `N` were held. -/
theorem length_tryPush (rb : RingBuffer α N) (x : α) (h : rb.TailOk) :
    (rb.tryPush x).1.contents.length =
      rb.contents.length + if rb.contents.length < N.val then 1 else 0 := by
  rw [(rb.tryPush_spec x h).2.1]
  split_ifs <;> simp

/-- The number of items after a `try_pop` on safe views: one fewer, if any. -/
theorem length_tryPop (rb : RingBuffer α N) (ht : rb.TailOk) (hh : rb.HeadOk) :
    rb.tryPop.1.contents.length = rb.contents.length - 1 := by
  rw [(rb.tryPop_spec ht hh).2.1, List.length_tail]

/-- The number of items after a `try_pop_batch` on a safe producer view: `max_count` fewer, if
as many. -/
theorem length_tryPopBatch (rb : RingBuffer α N) (m : BitVec 64) (ht : rb.TailOk) :
    (rb.tryPopBatch m).1.contents.length = rb.contents.length - m.toNat := by
  rw [(rb.tryPopBatch_spec m ht).2.1, List.length_drop]

end RingBuffer

/-! ## (5) The abstract queue, and the refinement -/

/-- A first-in first-out queue of at most `cap` items: what a `RingBuffer<T, N>` is for. -/
structure BoundedQueue (α : Type) (cap : Nat) where
  items : List α
  length_le : items.length ≤ cap

/-- Whether a call is a `try_pop_batch`. -/
def Call.isBatch {α : Type} : Call α → Bool
  | .tryPopBatch _ => true
  | _ => false

namespace BoundedQueue

variable {α : Type} {cap : Nat}

/-- The queue's answer to a call: a push succeeds exactly when fewer than `cap` items are
held and appends; a pop or a peek takes the front; a batch takes up to `max_count` items from
the front. -/
def call (q : BoundedQueue α cap) : Call α → BoundedQueue α cap × Reply α
  | .tryPush x =>
    if h : q.items.length < cap then (⟨q.items ++ [x], by simpa using h⟩, .pushed true)
    else (q, .pushed false)
  | .tryPop => (⟨q.items.tail, by have := q.length_le; simp; omega⟩, .popped q.items.head?)
  | .tryPeek => (q, .peeked q.items.head?)
  | .tryPopBatch m =>
    (⟨q.items.drop m.toNat, by have := q.length_le; simp; omega⟩, .batch (q.items.take m.toNat))

/-- A sequence of calls. -/
def exec (q : BoundedQueue α cap) : List (Call α) → BoundedQueue α cap × List (Reply α)
  | [] => (q, [])
  | c :: cs =>
    let r := q.call c
    let rest := r.1.exec cs
    (rest.1, r.2 :: rest.2)

theorem exec_append (q : BoundedQueue α cap) (xs ys : List (Call α)) :
    q.exec (xs ++ ys) =
      (((q.exec xs).1.exec ys).1, (q.exec xs).2 ++ ((q.exec xs).1.exec ys).2) := by
  induction xs generalizing q with
  | nil => rfl
  | cons c cs ih => rw [List.cons_append]; simp only [exec, ih, List.cons_append]

end BoundedQueue

namespace RingBuffer

variable {α : Type} {N : Capacity}

theorem exec_append (rb : RingBuffer α N) (xs ys : List (Call α)) :
    rb.exec (xs ++ ys) =
      (((rb.exec xs).1.exec ys).1, (rb.exec xs).2 ++ ((rb.exec xs).1.exec ys).2) := by
  induction xs generalizing rb with
  | nil => rfl
  | cons c cs ih => rw [List.cons_append]; simp only [exec, ih, List.cons_append]

/-- **One call refines the queue**: a ring whose items are the queue's, with a safe producer
view (and a safe consumer view, for a `try_pop`), gives the queue's reply and ends holding the
queue's new items, with a safe producer view; the consumer's view stays safe unless the call
is a `try_pop_batch`. -/
theorem call_refines (rb : RingBuffer α N) (q : BoundedQueue α N.val) (hq : rb.contents = q.items)
    (ht : rb.TailOk) (c : Call α) (hh : c = .tryPop → rb.HeadOk) :
    (rb.call c).2 = (q.call c).2 ∧ (rb.call c).1.contents = (q.call c).1.items ∧
      (rb.call c).1.TailOk ∧ (rb.HeadOk → c.isBatch = false → (rb.call c).1.HeadOk) := by
  cases c with
  | tryPush x =>
    obtain ⟨hr, hc, ht', hh'⟩ := tryPush_spec rb x ht
    rw [hq] at hr hc
    refine ⟨?_, ?_, ht', fun h _ => hh' h⟩ <;> simp only [call, BoundedQueue.call] <;> split
    · next h => rw [hr, decide_eq_true h]
    · next h => rw [hr, decide_eq_false h]
    · next h => rw [hc, if_pos h]
    · next h => rw [hc, if_neg h]
  | tryPop =>
    obtain ⟨hr, hc, ht', hh'⟩ := tryPop_spec rb ht (hh rfl)
    simp only [call, BoundedQueue.call, ← hq, hr, hc]
    exact ⟨trivial, trivial, ht', fun _ _ => hh'⟩
  | tryPeek =>
    simp only [call, BoundedQueue.call, ← hq, tryPeek_eq]
    exact ⟨trivial, trivial, ht, fun h _ => h⟩
  | tryPopBatch m =>
    obtain ⟨hr, hc, ht'⟩ := tryPopBatch_spec rb m ht
    simp only [call, BoundedQueue.call, ← hq, hr, hc]
    exact ⟨trivial, trivial, ht', fun _ h => by simp [Call.isBatch] at h⟩

/-- A run with no `try_pop_batch`, from safe views, refines the queue and keeps both views
safe. -/
theorem exec_refines_of_noBatch (rb : RingBuffer α N) (q : BoundedQueue α N.val)
    (hq : rb.contents = q.items) (ht : rb.TailOk) (hh : rb.HeadOk) (cs : List (Call α))
    (hcs : ∀ c ∈ cs, c.isBatch = false) :
    (rb.exec cs).2 = (q.exec cs).2 ∧ (rb.exec cs).1.contents = (q.exec cs).1.items ∧
      (rb.exec cs).1.TailOk ∧ (rb.exec cs).1.HeadOk := by
  induction cs generalizing rb q with
  | nil => exact ⟨rfl, hq, ht, hh⟩
  | cons c cs ih =>
    obtain ⟨hr, hc, ht', hh'⟩ := call_refines rb q hq ht c fun _ => hh
    obtain ⟨ih₁, ih₂, ih₃, ih₄⟩ := ih _ _ hc ht' (hh' hh (hcs c (List.mem_cons_self _ _)))
      fun c' h => hcs c' (List.mem_cons_of_mem _ h)
    exact ⟨by simp only [exec, BoundedQueue.exec, hr, ih₁], ih₂, ih₃, ih₄⟩

/-- A run with no `try_pop`, from a safe producer view, refines the queue and keeps that view
safe. -/
theorem exec_refines_of_noPop (rb : RingBuffer α N) (q : BoundedQueue α N.val)
    (hq : rb.contents = q.items) (ht : rb.TailOk) (cs : List (Call α))
    (hcs : ∀ c ∈ cs, c ≠ .tryPop) :
    (rb.exec cs).2 = (q.exec cs).2 ∧ (rb.exec cs).1.contents = (q.exec cs).1.items ∧
      (rb.exec cs).1.TailOk := by
  induction cs generalizing rb q with
  | nil => exact ⟨rfl, hq, ht⟩
  | cons c cs ih =>
    obtain ⟨hr, hc, ht', -⟩ :=
      call_refines rb q hq ht c fun h => absurd h (hcs c (List.mem_cons_self _ _))
    obtain ⟨ih₁, ih₂, ih₃⟩ := ih _ _ hc ht' fun c' h => hcs c' (List.mem_cons_of_mem _ h)
    exact ⟨by simp only [exec, BoundedQueue.exec, hr, ih₁], ih₂, ih₃⟩

/-- **The ring refines a bounded FIFO queue.** From a ring that holds the queue's items with
both cached views safe (a fresh ring, say), every sequence of calls in which no `try_pop`
follows a `try_pop_batch` gets the queue's replies and leaves the ring holding the queue's
items. -/
theorem exec_refines (rb : RingBuffer α N) (q : BoundedQueue α N.val) (hq : rb.contents = q.items)
    (ht : rb.TailOk) (hh : rb.HeadOk) (pre post : List (Call α))
    (hpre : ∀ c ∈ pre, c.isBatch = false) (hpost : ∀ c ∈ post, c ≠ .tryPop) :
    (rb.exec (pre ++ post)).2 = (q.exec (pre ++ post)).2 ∧
      (rb.exec (pre ++ post)).1.contents = (q.exec (pre ++ post)).1.items := by
  obtain ⟨h₁, h₂, h₃, -⟩ := exec_refines_of_noBatch rb q hq ht hh pre hpre
  obtain ⟨h₄, h₅, -⟩ := exec_refines_of_noPop _ _ h₂ h₃ post hpost
  rw [exec_append, BoundedQueue.exec_append]
  exact ⟨by rw [h₁, h₄], h₅⟩

/-- A fresh `RingBuffer<int, 16>`: pushes and pops, then pushes and a batch. -/
theorem exec_refines_fresh_cap16 :
    (exec (empty 0 fun _ => 0 : RingBuffer Nat cap16)
        ([.tryPush 7, .tryPop, .tryPush 8] ++ [.tryPush 9, .tryPopBatch 4, .tryPeek])).2 =
      (BoundedQueue.exec (⟨[], Nat.zero_le _⟩ : BoundedQueue Nat cap16.val)
        ([.tryPush 7, .tryPop, .tryPush 8] ++ [.tryPush 9, .tryPopBatch 4, .tryPeek])).2 ∧
    (exec (empty 0 fun _ => 0 : RingBuffer Nat cap16)
        ([.tryPush 7, .tryPop, .tryPush 8] ++ [.tryPush 9, .tryPopBatch 4, .tryPeek])).1.contents =
      (BoundedQueue.exec (⟨[], Nat.zero_le _⟩ : BoundedQueue Nat cap16.val)
        ([.tryPush 7, .tryPop, .tryPush 8] ++ [.tryPush 9, .tryPopBatch 4, .tryPeek])).1.items :=
  exec_refines _ _ rfl (tailOk_empty 0 _) (headOk_empty 0 _) _ _ (by decide) (by decide)

end RingBuffer

end Sage
