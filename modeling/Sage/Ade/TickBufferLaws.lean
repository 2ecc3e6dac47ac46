import Sage.Ade.StatisticsLaws

/-! # What the tick ring holds

`TickBuffer<N>` keeps the last `N` ticks in two arrays, written at `pos_`, and reads them back
by look-back: `get_price(idx)` is the tick `idx` places before the last one, at the slot
`(pos_ - 1 - idx) & mask_`. That index is computed in `size_t`, so for `idx ≥ pos_` it wraps
past zero; for a power-of-two `N` the mask takes it back to the right slot.

* **`TickBuffer.pushAll`** — a sequence of pushes.
* **`TickBuffer.Tracks`** — the ring holds the last `min(k, N)` ticks of `k` pushed, by
  look-back; **`Tracks.push`** — a push keeps it so.
* **`TickBuffer.slotOf_eq`** — the wrapped index reads the slot of look-back `idx`.
* **`TickBuffer.pushAll_lookBack`** — after any pushes, `size()` is `min(k, N)` and look-back
  `i` returns the `i`-th most recent tick. -/

namespace Sage

namespace TickBuffer

open RollingStats (ringSlot)

variable {N : Nat} [NeZero N]

/-- `push(p, q)` for each tick of `ts` in turn. -/
def pushAll (b : TickBuffer N) (ts : List (FixedPoint × FixedPoint)) : TickBuffer N :=
  ts.foldl (fun b t => b.push t.1 t.2) b

@[simp] theorem pushAll_nil (b : TickBuffer N) : b.pushAll [] = b := rfl

@[simp] theorem pushAll_cons (b : TickBuffer N) (t : FixedPoint × FixedPoint)
    (ts : List (FixedPoint × FixedPoint)) : b.pushAll (t :: ts) = (b.push t.1 t.2).pushAll ts :=
  rfl

/-! ## (1) The ring holds the last ticks -/

/-- **The ring holds the last `min(k, N)` of the ticks `ts`**: `pos_` is `k mod N`, `count_`
is `min(k, N)`, and for each look-back `i < count_` the slot `(k - 1 - i) mod N` holds the
`i`-th most recent tick. -/
structure Tracks (b : TickBuffer N) (ts : List (FixedPoint × FixedPoint)) : Prop where
  pos_eq : b.pos.val = ts.length % N
  count_eq : b.count.val = min ts.length N
  lookBack : ∀ i < b.count.val, ts.reverse[i]? =
    some (b.prices (ringSlot N (ts.length - 1 - i)),
      b.quantities (ringSlot N (ts.length - 1 - i)))

theorem tracks_empty : (empty : TickBuffer N).Tracks [] :=
  ⟨(Nat.zero_mod N).symm, (Nat.zero_min N).symm, fun _ h => absurd h (Nat.not_lt_zero _)⟩

/-- Look-back `j + 1` after a push is look-back `j` before it, at a slot other than `pos_`. -/
theorem ringSlot_ne_pos {b : TickBuffer N} {ts : List (FixedPoint × FixedPoint)}
    (hpos : b.pos.val = ts.length % N) {j : Nat} (hj : j < ts.length) (hjN : j + 1 < N) :
    ringSlot N (ts.length - 1 - j) ≠ b.pos := by
  intro h
  have hsum : ((ts.length - 1 - j) % N + (j + 1)) % N = ts.length % N := by
    rw [Nat.mod_add_mod, show ts.length - 1 - j + (j + 1) = ts.length by omega]
  exact add_mod_ne_self (Nat.mod_lt _ (NeZero.pos N)) (Nat.succ_pos j) hjN
    (by rw [hsum, ← hpos, ← h]; rfl)

/-- **Step lemma.** A push keeps the ring holding the last ticks, the new one at look-back
`0`. -/
theorem Tracks.push (hN : N.isPowerOfTwo) {b : TickBuffer N}
    {ts : List (FixedPoint × FixedPoint)} (h : b.Tracks ts) (p q : FixedPoint) :
    (b.push p q).Tracks (ts ++ [(p, q)]) := by
  obtain ⟨hpos, hcount, hlook⟩ := h
  have hcount' : (b.push p q).count.val = min (ts.length + 1) N := by
    have := b.count.isLt
    simp only [TickBuffer.push]
    split
    · simp only [Fin.val_mk]; omega
    · omega
  refine ⟨?_, by rw [hcount', List.length_append, List.length_singleton], fun i hi => ?_⟩
  · simp only [TickBuffer.push, maskIndex_val hN, hpos, Nat.mod_add_mod, List.length_append,
      List.length_singleton]
  · rw [hcount'] at hi
    simp only [List.reverse_append, List.reverse_singleton, List.singleton_append,
      List.length_append, List.length_singleton, Nat.add_sub_cancel, TickBuffer.push]
    cases i with
    | zero =>
      have hslot : ringSlot N ts.length = b.pos := Fin.ext hpos.symm
      rw [Nat.sub_zero, hslot, Function.update_same, Function.update_same,
        List.getElem?_cons_zero]
    | succ j =>
      have hne := ringSlot_ne_pos hpos (j := j) (by omega) (by omega)
      rw [show ts.length - (j + 1) = ts.length - 1 - j by omega,
        Function.update_noteq hne, Function.update_noteq hne, List.getElem?_cons_succ]
      exact hlook j (by omega)

/-- **Run lemma.** Pushes keep the ring holding the last ticks. -/
theorem Tracks.pushAll (hN : N.isPowerOfTwo) {b : TickBuffer N}
    {ts : List (FixedPoint × FixedPoint)} (h : b.Tracks ts) :
    ∀ us, (b.pushAll us).Tracks (ts ++ us)
  | [] => by simpa using h
  | u :: us => by
    rw [pushAll_cons, ← List.singleton_append, ← List.append_assoc]
    exact (h.push hN u.1 u.2).pushAll hN us

/-! ## (2) Reading back by look-back -/

/-- **The wrapped index reads the right slot.** With `pos_ = k mod N` for a power-of-two `N`
that is a `size_t`, the slot `(pos_ - 1 - idx) & mask_` of a look-back `idx < k` is
`(k - 1 - idx) mod N`, although `pos_ - 1 - idx` wraps modulo `2^64` when `idx ≥ pos_`: `N`
divides `2^64`. -/
theorem slotOf_eq (hN : N.isPowerOfTwo) (hN64 : N < 2 ^ 64) {b : TickBuffer N} {k : Nat}
    (hpos : b.pos.val = k % N) {idx : BitVec 64} (hidx : idx.toNat < k) :
    b.slotOf idx = ringSlot N (k - 1 - idx.toNat) := by
  have hdvd := dvd_two_pow_64 hN hN64
  have hP : b.pos.val < 2 ^ 64 := b.pos.isLt.trans hN64
  have hI := idx.isLt
  apply Fin.ext
  simp only [slotOf, ringSlot, maskIndex_val hN, BitVec.toNat_sub, BitVec.toNat_ofNat,
    Nat.mod_eq_of_lt hP, Nat.mod_mod_of_dvd _ hdvd]
  -- both sides are `k - 1 - idx` modulo `N`; add back `idx + 1` and compare with `k`
  refine Nat.ModEq.add_right_cancel' (idx.toNat + 1) ?_
  calc 2 ^ 64 - idx.toNat + (2 ^ 64 - 1 % 2 ^ 64 + b.pos.val) % 2 ^ 64 + (idx.toNat + 1)
      ≡ 2 ^ 64 - idx.toNat + (2 ^ 64 - 1 + b.pos.val) + (idx.toNat + 1) [MOD N] :=
        ((Nat.mod_modEq _ _).of_dvd hdvd).add_left _ |>.add_right _
    _ = b.pos.val + 2 ^ 64 * 2 := by omega
    _ ≡ b.pos.val [MOD N] := (Nat.modEq_zero_iff_dvd.2 (dvd_mul_of_dvd_left hdvd 2)).add_left _
    _ = k % N := hpos
    _ ≡ k [MOD N] := Nat.mod_modEq k N
    _ = k - 1 - idx.toNat + (idx.toNat + 1) := by omega

/-- **`TickBuffer<N>` reads back the last ticks.** For every power-of-two `N` that is a
`size_t` and every sequence of `k` pushes `(p_1, q_1) … (p_k, q_k)` from the constructor,
`size()` is `min(k, N)`, and for every `i < size()`, `get_price(i)` and `get_qty(i)` are
`p_{k-i}` and `q_{k-i}`: the `i`-th entry of the pushes read from the most recent. -/
theorem pushAll_lookBack (hN : N.isPowerOfTwo) (hN64 : N < 2 ^ 64)
    (ts : List (FixedPoint × FixedPoint)) :
    let b := (empty : TickBuffer N).pushAll ts
    b.size = min ts.length N ∧
      ∀ i : BitVec 64, i.toNat < b.size →
        ts.reverse[i.toNat]? = some (b.getPrice i, b.getQty i) := by
  have h := tracks_empty.pushAll hN ts
  rw [List.nil_append] at h
  refine ⟨h.count_eq, fun i hi => ?_⟩
  have hk : i.toNat < ts.length := by
    have := h.count_eq; simp only [size] at hi; omega
  rw [getPrice, getQty, slotOf_eq hN hN64 h.pos_eq hk]
  exact h.lookBack _ hi

/-- ADE's `TickBuffer<256>` after two ticks. -/
theorem pushAll_lookBack_two :
    (256 : Nat).isPowerOfTwo ∧ 256 < 2 ^ 64 ∧
      ((empty : TickBuffer 256).pushAll [(.one, .one), (.zero, .one)]).size = 2 ∧
      ∀ i : BitVec 64,
        i.toNat < ((empty : TickBuffer 256).pushAll [(.one, .one), (.zero, .one)]).size →
        [(FixedPoint.zero, FixedPoint.one), (.one, .one)][i.toNat]? =
          some (((empty : TickBuffer 256).pushAll [(.one, .one), (.zero, .one)]).getPrice i,
            ((empty : TickBuffer 256).pushAll [(.one, .one), (.zero, .one)]).getQty i) :=
  ⟨⟨8, rfl⟩, by norm_num, pushAll_lookBack ⟨8, rfl⟩ (by norm_num) _⟩

end TickBuffer

end Sage
