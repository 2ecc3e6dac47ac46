import Sage.Ade.AdaptiveWindow

/-! # Winsorized rolling statistics (`WinsorizedStats<Window>` in `ade/ade_main.cpp`)

`WinsorizedStats<Window>` keeps the last `Window` values of a stream in a ring, as
`RollingStats<Window>` does, but recomputes its sums on every update: `recalculate_sums()`
copies the window out, sorts the copy by insertion, takes its values at ranks `clip_count` and
`count_ - 1 - clip_count` as clip bounds, and sums the window with every value clamped to them,
counting the values it clamped.

* **`insertionSortLoop_eq`** — the two nested loops of `recalculate_sums()` sort: on every
  list they return `List.insertionSort` of it.
* **`updateAll_winsorizedSums`** — over every update sequence from the constructor, `count()`
  is `min(k, Window)` and `sum_`, `sum_sq_` and `outlier_count_` are the wrapped sums and the
  outlier count of the last `count()` values clamped to their order statistics.
* **`updateAll_outlierCount_le`** — `outlier_count()` never exceeds `2 * clip_count`.
* **`updateAll_eq_rolling`** — while `winsor_pct * Window < 100` nothing is ever clipped, and
  `mean()`, `variance()` and `stddev_approx()` are those of `RollingStats<Window>` fed the same
  values.
* **`updateAll_mean_mem`** — while `Window` values sum within an `int64_t`, `mean()` lies
  between the two clip bounds.
* **`updateAll_mean_median`** — from `winsor_pct = 50` on, the clip bounds are the middle
  values and `mean()` is the median of the window. -/

namespace Sage

/-! ## (1) `int64_t` comparison is a total order -/

namespace Int64

instance : IsTotal Int64 (· ≤ ·) := ⟨fun a b => Int.le_total a.val b.val⟩

instance : IsTrans Int64 (· ≤ ·) := ⟨fun _ _ _ => Int.le_trans⟩

instance : IsAntisymm Int64 (· ≤ ·) := ⟨fun _ _ h₁ h₂ => Int64.ext (Int.le_antisymm h₁ h₂)⟩

end Int64

/-- `WinsorizedStats<Window>`: the percentage `winsor_pct_`, clamped to `[0, 50]` by the
constructor, the ring `buffer_` with the number of values in it and the `size_t` write counter
`head_`, and the sums and outlier count of the last `recalculate_sums()`. -/
structure WinsorizedStats (Window : Nat) where
  winsorPct : Fin 51
  count : Fin (Window + 1)
  head : BitVec 64
  buffer : Fin Window → Int64
  sum : Int64
  sumSq : Int64
  outlierCount : BitVec 64

namespace WinsorizedStats

open RollingStats (ringSlot window wrappedSum lastN)

variable {Window : Nat} [NeZero Window]

/-! ## (2) The model -/

/-- `std::clamp(winsor_pct, 0, 50)`. -/
def clampPct (winsorPct : Int) : Fin 51 :=
  if winsorPct < 0 then 0 else if h : 50 < winsorPct then 50 else ⟨winsorPct.toNat, by omega⟩

/-- `WinsorizedStats(winsor_pct)`, whose default percentage is `5`. The constructor leaves
`buffer_` uninitialised, so its contents are an argument. -/
def create (winsorPct : Int) (buffer : Fin Window → Int64) : WinsorizedStats Window :=
  ⟨clampPct winsorPct, 0, 0, buffer, 0, 0, 0⟩

/-- The inner loop of the sort, `while (j > 0 && sorted[j - 1] > key) { sorted[j] =
sorted[j - 1]; j--; }`, from `j`: the array and the `j` it stops at. -/
def shiftRight (key : Int64) : List Int64 → Nat → List Int64 × Nat
  | sorted, 0 => (sorted, 0)
  | sorted, j + 1 =>
    if key < sorted.getD j 0 then shiftRight key (sorted.set (j + 1) (sorted.getD j 0)) j
    else (sorted, j + 1)

/-- One round of the outer loop: `key = sorted[i]`, the inner loop from `j = i`, then
`sorted[j] = key`. -/
def insertAt (sorted : List Int64) (i : Nat) : List Int64 :=
  let key := sorted.getD i 0
  let r := shiftRight key sorted i
  r.1.set r.2 key

/-- The outer loop `for (size_t i = 1; i < count_; ++i)` over the copied window. -/
def insertionSortLoop (sorted : List Int64) : List Int64 :=
  (List.range' 1 (sorted.length - 1)).foldl insertAt sorted

/-- The window as `recalculate_sums()` copies it: `sorted[i] = buffer_[(head_ - count_ + i) &
(Window - 1)]` for `i < count_`. -/
def copyWindow (w : WinsorizedStats Window) : List Int64 :=
  (List.range w.count.val).map fun i =>
    w.buffer (maskIndex Window (w.head - BitVec.ofNat 64 w.count.val + BitVec.ofNat 64 i).toNat)

/-- `clip_count = (count_ * winsor_pct_) / 100`, in `size_t`. -/
def clipCount (w : WinsorizedStats Window) : Nat :=
  (BitVec.ofNat 64 w.count.val * BitVec.ofNat 64 w.winsorPct.val).toNat / 100

/-- One round of the last loop of `recalculate_sums()`: a value below `low_clip` or above
`high_clip` is clamped to it and counted, then the value is added to `sum_` and its square to
`sum_sq_`. -/
def addClamped (lowClip highClip : Int64) (acc : Int64 × Int64 × BitVec 64) (val : Int64) :
    Int64 × Int64 × BitVec 64 :=
  if val < lowClip then (acc.1 + lowClip, acc.2.1 + lowClip * lowClip, acc.2.2 + 1)
  else if highClip < val then (acc.1 + highClip, acc.2.1 + highClip * highClip, acc.2.2 + 1)
  else (acc.1 + val, acc.2.1 + val * val, acc.2.2)

/-- `recalculate_sums()`: nothing for an empty window; otherwise the copied window is sorted,
its values at ranks `clip_count` and `count_ - 1 - clip_count` are the clip bounds, and
`sum_`, `sum_sq_` and `outlier_count_` are recomputed from zero over the sorted copy. -/
def recalculateSums (w : WinsorizedStats Window) : WinsorizedStats Window :=
  if w.count.val = 0 then w
  else
    let sorted := insertionSortLoop w.copyWindow
    let lowClip := sorted.getD w.clipCount 0
    let highClip := sorted.getD (w.count.val - 1 - w.clipCount) 0
    let acc := sorted.foldl (addClamped lowClip highClip) (0, 0, 0)
    { w with sum := acc.1, sumSq := acc.2.1, outlierCount := acc.2.2 }

/-- `update(value)`: a full ring first takes its oldest value, in slot `head_ & (Window - 1)`,
out of both sums; the value is stored in that slot, `head_` moves on, a ring not yet full
counts one more value; then `recalculate_sums()`. -/
def update (w : WinsorizedStats Window) (value : Int64) : WinsorizedStats Window :=
  let idx := maskIndex Window w.head.toNat
  let w := if Window ≤ w.count.val then
      { w with sum := w.sum - w.buffer idx, sumSq := w.sumSq - w.buffer idx * w.buffer idx }
    else w
  let w := { w with buffer := Function.update w.buffer idx value, head := w.head + 1 }
  let w := if h : w.count.val < Window then { w with count := ⟨w.count.val + 1, by omega⟩ }
    else w
  w.recalculateSums

/-- `mean()`: `sum_ / count_`, truncated, or `0` for an empty window. -/
def mean (w : WinsorizedStats Window) : Int64 :=
  if w.count.val = 0 then 0 else w.sum / Int64.ofInt w.count.val

/-- `variance()`: `sum_sq_ / count_ - mean() * mean()`, or `0` below two values. -/
def variance (w : WinsorizedStats Window) : Int64 :=
  if w.count.val < 2 then 0 else w.sumSq / Int64.ofInt w.count.val - w.mean * w.mean

/-- `stddev_approx()`: `0` for a variance `<= 0`, else the Newton loop from `x = var`,
`y = (x + 1) / 2`. -/
def stddevApprox (w : WinsorizedStats Window) : Int64 := newtonSqrt w.variance

/-- `is_ready()`. -/
def isReady (w : WinsorizedStats Window) : Bool := Window / 2 ≤ w.count.val

/-- `update(x)` for each `x` of `xs` in turn. -/
def updateAll (w : WinsorizedStats Window) (xs : List Int64) : WinsorizedStats Window :=
  xs.foldl update w

@[simp] theorem updateAll_nil (w : WinsorizedStats Window) : w.updateAll [] = w := rfl

@[simp] theorem updateAll_cons (w : WinsorizedStats Window) (x : Int64) (xs : List Int64) :
    w.updateAll (x :: xs) = (w.update x).updateAll xs := rfl

/-! ## (3) The insertion sort sorts -/

/-- The element after a prefix of length `n`. -/
theorem getD_append_cons {l t : List Int64} {z d : Int64} {n : Nat} (hn : n = l.length) :
    (l ++ z :: t).getD n d = z := by
  rw [hn, List.getD_eq_getElem?_getD, List.getElem?_append_right le_rfl, Nat.sub_self]
  simp

/-- An index below the length reads the element there. -/
theorem getD_of_lt {l : List Int64} {n : Nat} (d : Int64) (h : n < l.length) :
    l.getD n d = l[n] := by
  simp [List.getD_eq_getElem?_getD, List.getElem?_eq_getElem h]

/-- Writing just past a prefix replaces the element there. -/
theorem set_append_cons {l t : List Int64} {z y : Int64} {n : Nat} (hn : n = l.length) :
    (l ++ y :: t).set n z = l ++ z :: t := by
  simp [List.set_append_right _ _ hn.ge, hn]

/-- **The inner loop.** Over a sorted `p` whose elements from `j` on all exceed `key`, with a
hole at `j`, the loop moves the hole down to some `m ≤ j`: the elements before `m` are at most
`key`, those after it exceed `key`, and `rest` is untouched. -/
theorem shiftRight_spec (key : Int64) {p : List Int64} (rest : List Int64)
    (hp : p.Sorted (· ≤ ·)) :
    ∀ (j : Nat) (y : Int64), j ≤ p.length → (∀ x ∈ p.drop j, key < x) →
      ∃ m y', m ≤ j ∧ shiftRight key (p.take j ++ y :: (p.drop j ++ rest)) j =
        (p.take m ++ y' :: (p.drop m ++ rest), m) ∧
        (∀ x ∈ p.take m, x ≤ key) ∧ ∀ x ∈ p.drop m, key < x
  | 0, y, _, hgt => ⟨0, y, le_rfl, rfl, by simp, hgt⟩
  | j + 1, y, hj, hgt => by
    have hj' : j < p.length := hj
    have hdrop := List.drop_eq_getElem_cons hj'
    have htake : p.take (j + 1) = p.take j ++ [p[j]] := by
      rw [List.take_succ, List.getElem?_eq_getElem hj', Option.toList_some]
    have hsplit : p.take j ++ p.drop j = p := List.take_append_drop j p
    rw [hdrop] at hsplit
    have hle : ∀ x ∈ p.take j, x ≤ p[j] := fun x hx =>
      (List.pairwise_append.1 (hsplit ▸ hp)).2.2 x hx _ (List.mem_cons_self _ _)
    rw [htake, List.append_assoc, List.singleton_append]
    unfold shiftRight
    rw [getD_append_cons (List.length_take_of_le hj'.le).symm]
    split
    · next hlt =>
      have hl : (p.take j).length = j := List.length_take_of_le hj'.le
      rw [List.set_append_right _ _ (by omega), hl, Nat.add_sub_cancel_left, List.set_cons_succ,
        List.set_cons_zero, ← List.cons_append, ← hdrop]
      obtain ⟨m, y', hm, he, h₁, h₂⟩ := shiftRight_spec key rest hp j p[j] hj'.le (by
        rw [hdrop]
        exact List.forall_mem_cons.2 ⟨hlt, hgt⟩)
      exact ⟨m, y', by omega, he, h₁, h₂⟩
    · next hge =>
      refine ⟨j + 1, y, le_rfl, by rw [htake, List.append_assoc, List.singleton_append], ?_, hgt⟩
      rw [htake]
      intro x hx
      rcases List.mem_append.1 hx with hx | hx
      · exact Int.le_trans (hle x hx) (Int.not_lt.1 hge)
      · rw [List.mem_singleton.1 hx]; exact Int.not_lt.1 hge

/-- **One round of the outer loop** inserts the element after a sorted prefix into it. -/
theorem insertAt_spec {p : List Int64} (hp : p.Sorted (· ≤ ·)) (key : Int64) (rest : List Int64) :
    ∃ q, insertAt (p ++ key :: rest) p.length = q ++ rest ∧ q.Sorted (· ≤ ·) ∧
      q.Perm (key :: p) := by
  have hform : p ++ key :: rest = p.take p.length ++ key :: (p.drop p.length ++ rest) := by simp
  obtain ⟨m, y', hm, he, h₁, h₂⟩ :=
    shiftRight_spec key rest hp p.length key le_rfl (by simp)
  have hsplit : p.take m ++ p.drop m = p := List.take_append_drop m p
  refine ⟨p.take m ++ key :: p.drop m, ?_, ?_, ?_⟩
  · unfold insertAt
    dsimp only
    rw [getD_append_cons rfl, hform, he,
      set_append_cons (List.length_take_of_le hm).symm]
    simp
  · have hpw := List.pairwise_append.1 (hsplit ▸ hp)
    refine List.pairwise_append.2 ⟨hpw.1,
      List.pairwise_cons.2 ⟨fun x hx => Int.le_of_lt (h₂ x hx), hpw.2.1⟩, fun a ha b hb => ?_⟩
    rcases List.mem_cons.1 hb with rfl | hb
    · exact h₁ a ha
    · exact hpw.2.2 a ha b hb
  · exact List.perm_middle.trans (by rw [hsplit])

/-- **The outer loop, round by round.** With the first `k` elements of `a` already sorted into
`q`, the next `m` rounds leave the first `k + m` sorted and the rest untouched. -/
theorem foldl_insertAt (a : List Int64) :
    ∀ (m k : Nat) (q : List Int64), q.Sorted (· ≤ ·) → q.Perm (a.take k) → k + m ≤ a.length →
      ∃ q', (List.range' k m).foldl insertAt (q ++ a.drop k) = q' ++ a.drop (k + m) ∧
        q'.Sorted (· ≤ ·) ∧ q'.Perm (a.take (k + m))
  | 0, k, q, hq, hperm, _ => ⟨q, rfl, hq, hperm⟩
  | m + 1, k, q, hq, hperm, hkm => by
    have hk : k < a.length := by omega
    have hlen : q.length = k := by rw [hperm.length_eq, List.length_take_of_le hk.le]
    obtain ⟨q₁, he, hs, hp⟩ := insertAt_spec hq a[k] (a.drop (k + 1))
    rw [hlen] at he
    rw [List.range'_succ, List.foldl_cons, List.drop_eq_getElem_cons hk, he]
    obtain ⟨q', he', hs', hp'⟩ := foldl_insertAt a m (k + 1) q₁ hs (by
      rw [List.take_succ, List.getElem?_eq_getElem hk, Option.toList_some]
      exact hp.trans ((List.Perm.cons _ hperm).trans (List.perm_append_singleton _ _).symm))
      (by omega)
    exact ⟨q', by rw [he', Nat.add_right_comm, Nat.add_assoc], hs',
      by rwa [Nat.add_right_comm, Nat.add_assoc] at hp'⟩

/-- The loops return a sorted permutation of the copied window. -/
theorem insertionSortLoop_sorted_perm (a : List Int64) :
    (insertionSortLoop a).Sorted (· ≤ ·) ∧ (insertionSortLoop a).Perm a := by
  cases a with
  | nil => exact ⟨List.sorted_nil, List.Perm.refl _⟩
  | cons x t =>
    obtain ⟨q, he, hs, hp⟩ := foldl_insertAt (x :: t) t.length 1 [x] (List.sorted_singleton x)
      (List.Perm.refl _) (by simp; omega)
    have hq : insertionSortLoop (x :: t) = q := by
      rw [insertionSortLoop, List.length_cons, Nat.add_sub_cancel]
      simpa [Nat.add_comm] using he
    rw [hq]
    exact ⟨hs, by simpa [Nat.add_comm] using hp⟩

/-- **The nested loops of `recalculate_sums()` sort.** For every list of values they return
the same list as `List.insertionSort`, ascending. -/
theorem insertionSortLoop_eq (a : List Int64) :
    insertionSortLoop a = a.insertionSort (· ≤ ·) :=
  List.eq_of_perm_of_sorted ((insertionSortLoop_sorted_perm a).2.trans
    (List.perm_insertionSort _ a).symm) (insertionSortLoop_sorted_perm a).1
    (List.sorted_insertionSort _ a)

/-- In a sorted list the values up to index `j` are at most the one there, those from `j` on
at least. -/
theorem sorted_split {s : List Int64} (hs : s.Sorted (· ≤ ·)) {j : Nat} (hj : j < s.length) :
    (∀ x ∈ s.take (j + 1), x ≤ s[j]) ∧ ∀ x ∈ s.drop j, s[j] ≤ x := by
  have hsplit : s.take j ++ s[j] :: s.drop (j + 1) = s := by
    rw [← List.drop_eq_getElem_cons hj, List.take_append_drop]
  have hpw := List.pairwise_append.1 (hsplit ▸ hs)
  rw [List.take_succ, List.getElem?_eq_getElem hj, Option.toList_some,
    List.drop_eq_getElem_cons hj]
  refine ⟨fun x hx => ?_, List.forall_mem_cons.2 ⟨Int.le_refl _, (List.pairwise_cons.1 hpw.2.1).1⟩⟩
  rcases List.mem_append.1 hx with hx | hx
  · exact hpw.2.2 x hx _ (List.mem_cons_self _ _)
  · rw [List.mem_singleton.1 hx]; exact Int.le_refl _

/-! ## (4) The sums `recalculate_sums()` leaves -/

/-- The value the last loop adds for `val`: `low_clip` below it, else `high_clip` above it. -/
def clamped (lowClip highClip val : Int64) : Int64 :=
  if val < lowClip then lowClip else if highClip < val then highClip else val

/-- Whether the last loop counts `val` in `outlier_count_`. -/
def isOutlier (lowClip highClip val : Int64) : Bool := val < lowClip || highClip < val

/-- The clip bounds of a window for a percentage `pct`: its values of rank
`count * pct / 100` and `count - 1 - count * pct / 100`, in ascending order. -/
def clipBounds (pct : Nat) (window : List Int64) : Int64 × Int64 :=
  let sorted := window.insertionSort (· ≤ ·)
  let k := window.length * pct / 100
  (sorted.getD k 0, sorted.getD (window.length - 1 - k) 0)

/-- The winsorized sums of a window: the wrapped sums of its values clamped to the clip bounds
and of their squares, and the number of values outside the bounds. -/
def winsorizedSums (pct : Nat) (window : List Int64) : Int64 × Int64 × BitVec 64 :=
  let b := clipBounds pct window
  (wrappedSum (fun v => (clamped b.1 b.2 v).val) window,
    wrappedSum (fun v => (clamped b.1 b.2 v).val * (clamped b.1 b.2 v).val) window,
    BitVec.ofNat 64 (window.countP (isOutlier b.1 b.2)))

theorem addClamped_eq (lowClip highClip : Int64) (acc : Int64 × Int64 × BitVec 64)
    (val : Int64) :
    addClamped lowClip highClip acc val =
      (acc.1 + clamped lowClip highClip val,
        acc.2.1 + clamped lowClip highClip val * clamped lowClip highClip val,
        acc.2.2 + BitVec.ofNat 64 (if isOutlier lowClip highClip val then 1 else 0)) := by
  unfold addClamped clamped isOutlier
  split_ifs <;> simp_all
  omega

/-- A wrapped sum does not depend on the order of the values. -/
theorem wrappedSum_perm {g : Int64 → Int} {l₁ l₂ : List Int64} (h : l₁.Perm l₂) :
    wrappedSum g l₁ = wrappedSum g l₂ := by
  rw [wrappedSum, wrappedSum, (h.map g).sum_eq]

/-- **The last loop** adds the clamped values of a list, their squares and its outliers. -/
theorem foldl_addClamped (lowClip highClip : Int64) (l : List Int64)
    (acc : Int64 × Int64 × BitVec 64) :
    l.foldl (addClamped lowClip highClip) acc =
      (acc.1 + wrappedSum (fun v => (clamped lowClip highClip v).val) l,
        acc.2.1 + wrappedSum (fun v => (clamped lowClip highClip v).val *
          (clamped lowClip highClip v).val) l,
        acc.2.2 + BitVec.ofNat 64 (l.countP (isOutlier lowClip highClip))) := by
  induction l generalizing acc with
  | nil =>
    show acc = (acc.1 + 0, acc.2.1 + 0, acc.2.2 + BitVec.ofNat 64 0)
    rw [Int64.add_zero, Int64.add_zero, BitVec.add_zero]
  | cons v l ih =>
    rw [List.foldl_cons, ih, addClamped_eq]
    refine Prod.ext (Int64.ext ?_) (Prod.ext (Int64.ext ?_) ?_)
    · simp only [wrappedSum, Int64.val_add, Int64.val_ofInt, List.map_cons, List.sum_cons,
        Int.bmod_add_bmod_congr, Int.add_bmod_bmod, add_assoc]
    · simp only [wrappedSum, Int64.val_add, Int64.val_mul, Int64.val_ofInt, List.map_cons,
        List.sum_cons, Int.bmod_add_bmod_congr, Int.add_bmod_bmod, add_assoc]
    · simp only [List.countP_cons, BitVec.ofNat_add, BitVec.add_assoc,
        BitVec.add_comm (BitVec.ofNat 64 (if _ then 1 else 0))]

/-- Values that the two bounds clamp alike are summed alike. -/
theorem wrappedSum_congr {g g' : Int64 → Int} {l : List Int64} (h : ∀ v ∈ l, g v = g' v) :
    wrappedSum g l = wrappedSum g' l := by
  rw [wrappedSum, wrappedSum, List.map_congr_left h]

/-- A clamped value lies between the two bounds, whichever of them is the larger. -/
theorem clamped_mem (lowClip highClip val : Int64) :
    min lowClip.val highClip.val ≤ (clamped lowClip highClip val).val ∧
      (clamped lowClip highClip val).val ≤ max lowClip.val highClip.val := by
  unfold clamped
  split_ifs <;> simp only [Int64.lt_def, not_lt] at * <;> omega

/-- Between the first and the last value of a sorted list that holds it, a value is neither
clamped nor counted. -/
theorem clamped_of_mem {s : List Int64} (hs : s.Sorted (· ≤ ·)) {v : Int64} (hv : v ∈ s) :
    clamped (s.getD 0 0) (s.getD (s.length - 1) 0) v = v ∧
      isOutlier (s.getD 0 0) (s.getD (s.length - 1) 0) v = false := by
  have hpos : 0 < s.length := List.length_pos_of_mem hv
  have hlo := (sorted_split hs hpos).2 v (by rwa [List.drop_zero])
  have hhi := (sorted_split hs (j := s.length - 1) (by omega)).1 v
    (by rwa [Nat.sub_add_cancel hpos, List.take_length])
  rw [getD_of_lt 0 hpos, getD_of_lt 0 (by omega)]
  simp only [Int64.le_def] at hlo hhi
  simp [clamped, isOutlier, hlo, hhi, Int.not_lt.2]

/-- At most `k` values of a sorted list lie below its value of rank `k`. -/
theorem countP_lt_getD_le {s : List Int64} (hs : s.Sorted (· ≤ ·)) {k : Nat}
    (hk : k < s.length) : s.countP (fun v => v < s.getD k 0) ≤ k := by
  have hge := (sorted_split hs hk).2
  rw [getD_of_lt 0 hk]
  generalize s[k] = z at hge ⊢
  conv_lhs => rw [← List.take_append_drop k s]
  rw [List.countP_append, (List.countP_eq_zero (l := s.drop k)).2 fun x hx => by
    simpa using hge x hx, Nat.add_zero]
  exact (List.countP_le_length _).trans (List.length_take_le k s)

/-- At most `length - 1 - j` values of a sorted list lie above its value of rank `j`. -/
theorem countP_getD_lt_le {s : List Int64} (hs : s.Sorted (· ≤ ·)) {j : Nat}
    (hj : j < s.length) : s.countP (fun v => s.getD j 0 < v) ≤ s.length - 1 - j := by
  have hle := (sorted_split hs hj).1
  rw [getD_of_lt 0 hj]
  generalize s[j] = z at hle ⊢
  conv_lhs => rw [← List.take_append_drop (j + 1) s]
  rw [List.countP_append, List.countP_eq_zero.2 fun x hx => by simpa using hle x hx,
    Nat.zero_add]
  exact (List.countP_le_length _).trans (by rw [List.length_drop]; omega)

/-- A value counted for either of two tests is counted for one of them. -/
theorem countP_or_le (p q : Int64 → Bool) (l : List Int64) :
    l.countP (fun v => p v || q v) ≤ l.countP p + l.countP q := by
  induction l with
  | nil => simp
  | cons v l ih =>
    simp only [List.countP_cons]
    cases p v <;> cases q v <;> simp <;> omega

/-- Truncating division by a positive count keeps a sum between `count * a` and `count * b`
between `a` and `b`. -/
theorem tdiv_mem {S c a b : Int} (hc : 0 < c) (ha : c * a ≤ S) (hb : S ≤ c * b) :
    a ≤ S.tdiv c ∧ S.tdiv c ≤ b := by
  rw [tdiv_eq_ite S hc.le]
  split
  · exact ⟨Int.le_ediv_of_mul_le hc (by rw [Int.mul_comm]; omega),
      Int.ediv_le_of_le_mul hc (by rw [Int.mul_comm]; omega)⟩
  · have h₁ := Int.ediv_le_of_le_mul hc (show -S ≤ -a * c by rw [Int.neg_mul, Int.mul_comm]; omega)
    have h₂ := Int.le_ediv_of_mul_le hc (show -b * c ≤ -S by rw [Int.neg_mul, Int.mul_comm]; omega)
    omega

/-- `count` values each of magnitude at most `|a|`, `count <= Window`, stay within an `int64_t`
when `Window` of them do. -/
theorem mul_range {c W a : Int} (hc : 0 ≤ c) (hcW : c ≤ W) (ha : W * |a| < 2 ^ 63) :
    -2 ^ 63 < c * a ∧ c * a < 2 ^ 63 := by
  have : |c * a| < 2 ^ 63 := by
    rw [abs_mul, abs_of_nonneg hc]
    exact lt_of_le_of_lt (mul_le_mul_of_nonneg_right hcW (abs_nonneg a)) ha
  exact abs_lt.1 this

/-- Both clip bounds of a non-empty window are values of it. -/
theorem clipBounds_mem {pct : Nat} (hpct : pct ≤ 50) {l : List Int64} (hl : l ≠ []) :
    (clipBounds pct l).1 ∈ l ∧ (clipBounds pct l).2 ∈ l := by
  have hperm := List.perm_insertionSort (· ≤ ·) l
  have hpos : 0 < l.length := List.length_pos.2 hl
  have hk : l.length * pct ≤ l.length * 50 := Nat.mul_le_mul_left _ hpct
  have hmem : ∀ j, j < l.length → (l.insertionSort (· ≤ ·)).getD j 0 ∈ l := fun j hj => by
    rw [getD_of_lt 0 (by rwa [hperm.length_eq])]
    exact hperm.mem_iff.1 (List.getElem_mem _)
  exact ⟨hmem _ (by omega), hmem _ (by omega)⟩

/-- The clamped values of a window add up to between `count` times the smaller bound and
`count` times the larger. -/
theorem sum_clamped_mem (lowClip highClip : Int64) (l : List Int64) :
    l.length * min lowClip.val highClip.val ≤
        (l.map fun v => (clamped lowClip highClip v).val).sum ∧
      (l.map fun v => (clamped lowClip highClip v).val).sum ≤
        l.length * max lowClip.val highClip.val := by
  have h₁ := List.card_nsmul_le_sum (l.map fun v => (clamped lowClip highClip v).val)
    (min lowClip.val highClip.val) (by
      simp only [List.mem_map]; rintro _ ⟨v, -, rfl⟩; exact (clamped_mem _ _ v).1)
  have h₂ := List.sum_le_card_nsmul (l.map fun v => (clamped lowClip highClip v).val)
    (max lowClip.val highClip.val) (by
      simp only [List.mem_map]; rintro _ ⟨v, -, rfl⟩; exact (clamped_mem _ _ v).2)
  rw [List.length_map, nsmul_eq_mul] at h₁ h₂
  exact ⟨h₁, h₂⟩

/-- At most both bounds, a value is clamped to the lower bound. -/
theorem clamped_eq_low {lowClip highClip val : Int64} (h₁ : val.val ≤ lowClip.val)
    (h₂ : val.val ≤ highClip.val) :
    clamped lowClip highClip val = lowClip := by
  unfold clamped
  split_ifs with hl hh
  · rfl
  · exact absurd hh (Int.not_lt.2 h₂)
  · exact Int64.ext (by rw [Int64.lt_def] at hl; omega)

/-- At least both bounds, a value is clamped to the upper bound. -/
theorem clamped_eq_high {lowClip highClip val : Int64} (h₁ : lowClip.val ≤ val.val)
    (h₂ : highClip.val ≤ val.val) : clamped lowClip highClip val = highClip := by
  unfold clamped
  split_ifs with hl hh
  · exact absurd hl (Int.not_lt.2 h₁)
  · rfl
  · exact Int64.ext (by rw [Int64.lt_def] at hh; omega)

/-- **Clamping a sorted list to two neighbouring ranks.** With the upper bound the value of rank
`j` and the lower the value of rank `k`, `j ≤ k ≤ j + 1`, the first `k` values are clamped to the
lower bound and the others to the upper. -/
theorem map_clamped_of_sorted {s : List Int64} (hs : s.Sorted (· ≤ ·)) {j k : Nat}
    (hjk : j ≤ k) (hkj : k ≤ j + 1) (hk : k < s.length) :
    s.map (clamped (s.getD k 0) (s.getD j 0)) =
      List.replicate k (s.getD k 0) ++ List.replicate (s.length - k) (s.getD j 0) := by
  have hj : j < s.length := by omega
  have hpw := List.pairwise_append.1 ((List.take_append_drop k s).symm ▸ hs)
  have hkmem : s[k] ∈ s.drop k := by rw [List.drop_eq_getElem_cons hk]; exact List.mem_cons_self _ _
  have hsub : ∀ x ∈ s.drop k, x ∈ s.drop j := fun x hx => by
    rw [← Nat.add_sub_cancel' hjk, ← List.drop_drop] at hx; exact List.mem_of_mem_drop hx
  have hlow : ∀ x ∈ s.take k, x ≤ s[k] ∧ x ≤ s[j] := fun x hx =>
    ⟨hpw.2.2 x hx _ hkmem, (sorted_split hs hj).1 x (by
      rw [← min_eq_left hkj, ← List.take_take] at hx; exact List.mem_of_mem_take hx)⟩
  have hhigh : ∀ x ∈ s.drop k, s[k] ≤ x ∧ s[j] ≤ x := fun x hx =>
    ⟨(sorted_split hs hk).2 x hx, (sorted_split hs hj).2 x (hsub x hx)⟩
  rw [getD_of_lt 0 hk, getD_of_lt 0 hj]
  generalize s[k] = lo at *
  generalize s[j] = hi at *
  conv_lhs => rw [← List.take_append_drop k s]
  rw [List.map_append]
  congr 1
  · refine List.eq_replicate_iff.2 ⟨by simp; omega, fun b hb => ?_⟩
    obtain ⟨x, hx, rfl⟩ := List.mem_map.1 hb
    exact clamped_eq_low (hlow x hx).1 (hlow x hx).2
  · refine List.eq_replicate_iff.2 ⟨by simp, fun b hb => ?_⟩
    obtain ⟨x, hx, rfl⟩ := List.mem_map.1 hb
    exact clamped_eq_high (hhigh x hx).1 (hhigh x hx).2

/-- Truncating division cancels a positive factor. -/
theorem mul_tdiv_mul_of_pos {a b c : Int} (ha : 0 < a) (hc : 0 ≤ c) :
    (a * b).tdiv (a * c) = b.tdiv c := by
  rw [tdiv_eq_ite _ (Int.mul_nonneg ha.le hc), tdiv_eq_ite _ hc]
  by_cases hb : 0 ≤ b
  · rw [if_pos (Int.mul_nonneg ha.le hb), if_pos hb, Int.mul_ediv_mul_of_pos _ _ ha]
  · rw [if_neg (fun h => hb ((mul_nonneg_iff_of_pos_left ha).1 h)), if_neg hb, ← Int.mul_neg,
      Int.mul_ediv_mul_of_pos _ _ ha]

/-- The median of a window: its middle value, or for an even count the mean of its two middle
values, truncated. -/
def median (window : List Int64) : Int :=
  let s := window.insertionSort (· ≤ ·)
  if window.length % 2 = 1 then (s.getD (window.length / 2) 0).val
  else ((s.getD (window.length / 2 - 1) 0).val + (s.getD (window.length / 2) 0).val).tdiv 2

/-! ## (5) Every update winsorizes the last values -/

/-- The ring, the write slot `head_ & (Window - 1)`, the count and the sums as the fields of a
`RollingStats<Window>`. -/
def toRolling (w : WinsorizedStats Window) : RollingStats Window :=
  ⟨w.buffer, maskIndex Window w.head.toNat, w.count, w.sum, w.sumSq⟩

/-- The window reads only the ring, the write slot and the count. -/
theorem window_congr {s t : RollingStats Window} (hb : s.buffer = t.buffer)
    (hp : s.pos = t.pos) (hc : s.count = t.count) : window s = window t := by
  simp only [window, hb, hp, hc]

/-- `recalculate_sums()` leaves the ring, the counters and the percentage as they are. -/
theorem recalculateSums_ring (w : WinsorizedStats Window) :
    window w.recalculateSums.toRolling = window w.toRolling ∧
      w.recalculateSums.count = w.count ∧ w.recalculateSums.winsorPct = w.winsorPct := by
  unfold recalculateSums; split <;> exact ⟨rfl, rfl, rfl⟩

/-- What `WinsorizedStats<Window>` holds after the values `xs`: `min(k, Window)` of them, the
ring the last of those, and the sums and outlier count those of the winsorized window. -/
structure Tracks (w : WinsorizedStats Window) (xs : List Int64) : Prop where
  count_eq : w.count.val = min xs.length Window
  window_eq : window w.toRolling = lastN Window xs
  sums_eq : (w.sum, w.sumSq, w.outlierCount) = winsorizedSums w.winsorPct.val (lastN Window xs)

theorem tracks_create (winsorPct : Int) (buffer : Fin Window → Int64) :
    (create winsorPct buffer).Tracks [] :=
  ⟨by simp [create], by simp [create, toRolling, window, lastN], by
    simp only [lastN, List.drop_nil]; rfl⟩

omit [NeZero Window] in
/-- `mean()` reads only `count_` and `sum_`, as `RollingStats::mean()` does. -/
theorem mean_eq_of {w : WinsorizedStats Window} {r : RollingStats Window}
    (hc : w.count = r.count) (hs : w.sum = r.sum) : w.mean = r.mean := by
  unfold mean RollingStats.mean
  rw [hc, hs]
  split_ifs <;> first | rfl | omega

omit [NeZero Window] in
/-- `count_ * winsor_pct_` is at most `50 * Window`, so it does not wrap. -/
theorem clipCount_eq (hW : Window < 2 ^ 58) (w : WinsorizedStats Window) :
    w.clipCount = w.count.val * w.winsorPct.val / 100 := by
  have hc := w.count.isLt
  have hp := w.winsorPct.isLt
  have hlt : w.count.val * w.winsorPct.val < 2 ^ 64 :=
    calc w.count.val * w.winsorPct.val ≤ Window * 50 := Nat.mul_le_mul (by omega) (by omega)
      _ < 2 ^ 64 := by omega
  rw [clipCount, BitVec.toNat_mul, BitVec.toNat_ofNat, BitVec.toNat_ofNat,
    Nat.mod_eq_of_lt (show w.count.val < 2 ^ 64 by omega),
    Nat.mod_eq_of_lt (show w.winsorPct.val < 2 ^ 64 by omega), Nat.mod_eq_of_lt hlt]

section Ring

variable (hN : Window.isPowerOfTwo) (hW : Window < 2 ^ 58)
include hN hW

/-- The copy `recalculate_sums()` makes is the window, oldest first. -/
theorem copyWindow_eq (w : WinsorizedStats Window) : w.copyWindow = window w.toRolling := by
  unfold copyWindow window toRolling
  refine List.map_congr_left fun i hi => ?_
  rw [AdaptiveWindow.maskIndex_sub_add hN (by omega) w.head (by have := w.count.isLt; omega)
    (List.mem_range.1 hi)]

/-- **`recalculate_sums()` winsorizes the window**: over a ring holding values it leaves the
winsorized sums of the window. -/
theorem recalculateSums_sums (w : WinsorizedStats Window) (hc : w.count.val ≠ 0) :
    (w.recalculateSums.sum, w.recalculateSums.sumSq, w.recalculateSums.outlierCount) =
      winsorizedSums w.winsorPct.val (window w.toRolling) := by
  have hperm := List.perm_insertionSort (· ≤ ·) (window w.toRolling)
  unfold recalculateSums winsorizedSums clipBounds
  rw [if_neg hc]
  dsimp only
  rw [copyWindow_eq hN hW, insertionSortLoop_eq, foldl_addClamped, clipCount_eq hW]
  dsimp only
  rw [RollingStats.length_window, wrappedSum_perm hperm, wrappedSum_perm hperm,
    hperm.countP_eq, Int64.zero_add, Int64.zero_add, BitVec.ofNat_eq_ofNat, BitVec.zero_add]
  rfl

/-- **`update` stores into the ring, then recomputes.** Before `recalculate_sums()` the ring
of `update(value)` is that of a `RollingStats` update, and it holds a value. -/
theorem update_eq (w : WinsorizedStats Window) (value : Int64) :
    ∃ r : WinsorizedStats Window, window r.toRolling = window (w.toRolling.update value) ∧
      r.count.val ≠ 0 ∧ r.winsorPct = w.winsorPct ∧ w.update value = r.recalculateSums := by
  have hc := w.count.isLt
  have hW0 := NeZero.pos Window
  refine ⟨_, ?_, ?_, ?_, rfl⟩
  · by_cases hfull : w.count.val = Window
    · apply window_congr <;> simp [toRolling, RollingStats.update, hfull, -BitVec.toNat_add]
      exact AdaptiveWindow.maskIndex_succ hN (by omega) w.head
    · apply window_congr <;> simp [toRolling, RollingStats.update, hfull, -BitVec.toNat_add,
        show ¬Window ≤ w.count.val by omega, show w.count.val < Window by omega]
      exact AdaptiveWindow.maskIndex_succ hN (by omega) w.head
  all_goals split_ifs <;> simp_all <;> omega

/-- One update keeps the correspondence with one more value. -/
theorem Tracks.update {w : WinsorizedStats Window} {xs : List Int64} (h : w.Tracks xs)
    (x : Int64) : (w.update x).Tracks (xs ++ [x]) := by
  obtain ⟨r, hwin, hc, hpct, he⟩ := update_eq hN hW w x
  have hfull : w.toRolling.count.val = Window ↔ Window ≤ xs.length := by
    rw [show w.toRolling.count = w.count from rfl, h.count_eq]; omega
  have hr : window r.toRolling = lastN Window (xs ++ [x]) := by
    rw [hwin, RollingStats.window_update hN, RollingStats.lastN_append]
    simp only [hfull, h.window_eq]
  have hlen : r.count.val = (lastN Window (xs ++ [x])).length := by
    rw [← hr]; exact (RollingStats.length_window r.toRolling).symm
  rw [he]
  refine ⟨?_, ?_, ?_⟩
  · rw [(recalculateSums_ring r).2.1, hlen, lastN, List.length_drop]; omega
  · rw [(recalculateSums_ring r).1, hr]
  · rw [recalculateSums_sums hN hW r hc, (recalculateSums_ring r).2.2, hr]

theorem Tracks.updateAll {w : WinsorizedStats Window} {xs : List Int64} (h : w.Tracks xs)
    (ys : List Int64) : (w.updateAll ys).Tracks (xs ++ ys) := by
  induction ys generalizing w xs with
  | nil => simpa using h
  | cons y ys ih =>
    rw [updateAll_cons, show xs ++ y :: ys = xs ++ [y] ++ ys by simp]
    exact ih (h.update hN hW y)

theorem winsorPct_updateAll (w : WinsorizedStats Window) (xs : List Int64) :
    (w.updateAll xs).winsorPct = w.winsorPct := by
  induction xs generalizing w with
  | nil => rfl
  | cons x xs ih =>
    obtain ⟨r, -, -, hpct, he⟩ := update_eq hN hW w x
    rw [updateAll_cons, ih, he, (recalculateSums_ring r).2.2, hpct]

/-- The state after `xs` from the constructor keeps the correspondence with `xs`. -/
theorem tracks_updateAll (winsorPct : Int) (buffer : Fin Window → Int64) (xs : List Int64) :
    ((create winsorPct buffer).updateAll xs).Tracks xs := by
  simpa using (tracks_create winsorPct buffer).updateAll hN hW xs

end Ring

/-! ## (6) What the statistics satisfy -/

/-- **`WinsorizedStats` winsorizes the last values.** For every power-of-two `Window` below
`2^58`, every `winsor_pct`, whatever `buffer_` held, and every sequence of `k` updates from the
constructor: `count()` is `min(k, Window)`, and `sum_`, `sum_sq_` and `outlier_count()` are
the wrapped sums of the last `count()` values clamped to their values of rank `clip_count` and
`count() - 1 - clip_count`, `clip_count = count() * winsor_pct / 100`, and the number of those
values outside the two bounds. -/
theorem updateAll_winsorizedSums (hN : Window.isPowerOfTwo) (hW : Window < 2 ^ 58)
    (winsorPct : Int) (buffer : Fin Window → Int64) (xs : List Int64) :
    let w := (create winsorPct buffer).updateAll xs
    w.count.val = min xs.length Window ∧
      (w.sum, w.sumSq, w.outlierCount) =
        winsorizedSums (clampPct winsorPct).val (lastN Window xs) := by
  have h := tracks_updateAll hN hW winsorPct buffer xs
  exact ⟨h.count_eq, by rw [h.sums_eq, winsorPct_updateAll hN hW]; rfl⟩

/-- Five values through a window of four at `25%`: the window `100, 2, 3, 4` is clipped to
`[3, 4]`, adding `4 + 3 + 3 + 4`, with two outliers. -/
theorem updateAll_winsorizedSums_four :
    let w := (create 25 0 : WinsorizedStats 4).updateAll [1, 100, 2, 3, 4]
    w.count.val = 4 ∧ (w.sum, w.sumSq, w.outlierCount) = (14, 50, 2) :=
  have h := updateAll_winsorizedSums (⟨2, rfl⟩ : (4 : Nat).isPowerOfTwo) (by decide) 25 0
    [1, 100, 2, 3, 4]
  ⟨h.1, h.2.trans (by decide)⟩

/-- **`outlier_count()` is at most `2 * clip_count`.** Over every update sequence from the
constructor, at most `clip_count` values of the window lie below its value of rank
`clip_count`, and at most `clip_count` above its value of rank `count() - 1 - clip_count`. -/
theorem updateAll_outlierCount_le (hN : Window.isPowerOfTwo) (hW : Window < 2 ^ 58)
    (winsorPct : Int) (buffer : Fin Window → Int64) (xs : List Int64) :
    let w := (create winsorPct buffer).updateAll xs
    w.outlierCount.toNat ≤ 2 * (w.count.val * w.winsorPct.val / 100) := by
  intro w
  have h : w.Tracks xs := tracks_updateAll hN hW winsorPct buffer xs
  have hcnt := congrArg (fun t => t.2.2) h.sums_eq
  have hperm := List.perm_insertionSort (· ≤ ·) (lastN Window xs)
  have hs := List.sorted_insertionSort (· ≤ ·) (lastN Window xs)
  have hlen : (lastN Window xs).length = w.count.val := by
    rw [h.count_eq, lastN, List.length_drop]; omega
  have hp : w.count.val * w.winsorPct.val ≤ w.count.val * 50 :=
    Nat.mul_le_mul_left _ (by have := w.winsorPct.isLt; omega)
  simp only [winsorizedSums, clipBounds] at hcnt
  rw [hcnt, BitVec.toNat_ofNat, ← hperm.countP_eq, hlen]
  set s := (lastN Window xs).insertionSort (· ≤ ·)
  have hslen : s.length = w.count.val := by rw [hperm.length_eq, hlen]
  rcases Nat.eq_zero_or_pos w.count.val with h0 | h0
  · rw [List.eq_nil_of_length_eq_zero (hslen.trans h0), List.countP_nil, Nat.zero_mod]
    exact Nat.zero_le _
  · refine (Nat.mod_le _ _).trans ((countP_or_le _ _ s).trans ?_)
    have h₁ := countP_lt_getD_le hs (k := w.count.val * w.winsorPct.val / 100) (by omega)
    have h₂ := countP_getD_lt_le hs
      (j := w.count.val - 1 - w.count.val * w.winsorPct.val / 100) (by omega)
    rw [hslen] at h₂
    omega

theorem updateAll_outlierCount_le_four :
    let w := (create 25 0 : WinsorizedStats 4).updateAll [1, 100, 2, 3, 4]
    w.outlierCount.toNat ≤ 2 * (w.count.val * w.winsorPct.val / 100) :=
  updateAll_outlierCount_le (⟨2, rfl⟩ : (4 : Nat).isPowerOfTwo) (by decide) 25 0
    [1, 100, 2, 3, 4]

/-- **Below one percent of the window nothing is clipped.** For every `winsor_pct` that the
constructor clamps to a `p` with `p * Window < 100`, and every update sequence, `clip_count`
stays `0`, so the clip bounds are the smallest and the largest value of the window:
`outlier_count()` stays `0`, and `mean()`, `variance()` and `stddev_approx()` are those of a
`RollingStats<Window>` fed the same values. -/
theorem updateAll_eq_rolling (hN : Window.isPowerOfTwo) (hW : Window < 2 ^ 58)
    (winsorPct : Int) (buffer : Fin Window → Int64) (xs : List Int64)
    (hpct : (clampPct winsorPct).val * Window < 100) :
    let w := (create winsorPct buffer).updateAll xs
    let r := (RollingStats.empty : RollingStats Window).updateAll xs
    w.outlierCount = 0 ∧ w.mean = r.mean ∧ w.variance = r.variance ∧
      w.stddevApprox = r.stddevApprox := by
  intro w r
  have h : w.Tracks xs := tracks_updateAll hN hW winsorPct buffer xs
  have hr : r.Tracks xs := by simpa using RollingStats.tracks_empty.updateAll hN xs
  have hpw : w.winsorPct = clampPct winsorPct := winsorPct_updateAll hN hW _ xs
  have hperm := List.perm_insertionSort (· ≤ ·) (lastN Window xs)
  have hs := List.sorted_insertionSort (· ≤ ·) (lastN Window xs)
  have hk : (lastN Window xs).length * w.winsorPct.val / 100 = 0 := by
    rw [hpw]
    apply Nat.div_eq_of_lt
    calc (lastN Window xs).length * (clampPct winsorPct).val
        ≤ Window * (clampPct winsorPct).val :=
          Nat.mul_le_mul_right _ (by rw [lastN, List.length_drop]; omega)
      _ < 100 := by rw [Nat.mul_comm]; exact hpct
  have hsums := h.sums_eq
  simp only [winsorizedSums, clipBounds, hk, Nat.sub_zero, Prod.mk.injEq] at hsums
  rw [← hperm.length_eq] at hsums
  have hmem := fun v (hv : v ∈ lastN Window xs) => clamped_of_mem hs (hperm.mem_iff.2 hv)
  have hc : w.count = r.count := Fin.ext (h.count_eq.trans hr.count_eq.symm)
  have hsum : w.sum = r.sum := by
    rw [hsums.1, hr.sum_eq, hr.window_eq]
    exact wrappedSum_congr fun v hv => by rw [(hmem v hv).1]
  have hsq : w.sumSq = r.sumSq := by
    rw [hsums.2.1, hr.sumSq_eq, hr.window_eq]
    exact wrappedSum_congr fun v hv => by rw [(hmem v hv).1]
  have hvar : w.variance = r.variance := by
    simp only [variance, RollingStats.variance, mean_eq_of hc hsum, hc, hsq]
  refine ⟨?_, mean_eq_of hc hsum, hvar, by rw [stddevApprox, RollingStats.stddevApprox, hvar]⟩
  rw [hsums.2.2, (List.countP_eq_zero).2 fun v hv => by
    rw [(hmem v hv).2]; exact Bool.false_ne_true]
  rfl

/-- At `1%` a window of `64` is never clipped. -/
theorem updateAll_eq_rolling_one_pct :
    (clampPct 1).val * 64 < 100 ∧
      ((create 1 0 : WinsorizedStats 64).updateAll [5, -3, 7]).mean =
        ((RollingStats.empty : RollingStats 64).updateAll [5, -3, 7]).mean :=
  ⟨by decide, (updateAll_eq_rolling (⟨6, rfl⟩ : (64 : Nat).isPowerOfTwo) (by decide) 1 0
    [5, -3, 7] (by decide)).2.1⟩

/-- While `Window` values of the stream add up within an `int64_t`, `mean()` is the truncated
mean of the clamped window, computed without wrapping. -/
theorem updateAll_mean_val (hN : Window.isPowerOfTwo) (hW : Window < 2 ^ 58)
    (winsorPct : Int) (buffer : Fin Window → Int64) (xs : List Int64)
    (hsmall : ∀ x ∈ xs, Window * |x.val| < 2 ^ 63) :
    ((create winsorPct buffer).updateAll xs).mean.val =
      ((lastN Window xs).map fun v => (clamped (clipBounds (clampPct winsorPct).val
        (lastN Window xs)).1 (clipBounds (clampPct winsorPct).val (lastN Window xs)).2 v).val
        ).sum.tdiv (lastN Window xs).length := by
  set w := (create winsorPct buffer).updateAll xs
  have h : w.Tracks xs := tracks_updateAll hN hW winsorPct buffer xs
  have hpw : w.winsorPct = clampPct winsorPct := winsorPct_updateAll hN hW _ xs
  have hsum := congrArg (fun t => t.1) h.sums_eq
  simp only [winsorizedSums, hpw] at hsum
  have hlen : (lastN Window xs).length = w.count.val := by
    rw [h.count_eq, lastN, List.length_drop]; omega
  unfold mean
  split
  · next h0 =>
    rw [← hlen, List.length_eq_zero] at h0
    simp [h0]
  · next h0 =>
    -- both bounds are values of the window, so of the stream, and small
    obtain ⟨hlo, hhi⟩ := clipBounds_mem (l := lastN Window xs)
      (Nat.lt_succ_iff.1 (clampPct winsorPct).isLt)
      (fun he => h0 (by rw [← hlen, he]; rfl))
    have hlo' := hsmall _ (List.mem_of_mem_drop hlo)
    have hhi' := hsmall _ (List.mem_of_mem_drop hhi)
    set b := clipBounds (clampPct winsorPct).val (lastN Window xs)
    obtain ⟨hS₁, hS₂⟩ := sum_clamped_mem b.1 b.2 (lastN Window xs)
    rw [hlen] at hS₁ hS₂ ⊢
    have hcW : (w.count.val : Int) ≤ Window := by have := w.count.isLt; omega
    have hmin : -2 ^ 63 < (w.count.val : Int) * min b.1.val b.2.val := by
      rcases min_choice b.1.val b.2.val with hm | hm <;> rw [hm]
      exacts [(mul_range (by omega) hcW hlo').1, (mul_range (by omega) hcW hhi').1]
    have hmax : (w.count.val : Int) * max b.1.val b.2.val < 2 ^ 63 := by
      rcases max_choice b.1.val b.2.val with hm | hm <;> rw [hm]
      exacts [(mul_range (by omega) hcW hlo').2, (mul_range (by omega) hcW hhi').2]
    have hS : w.sum.val = ((lastN Window xs).map fun v => (clamped b.1 b.2 v).val).sum := by
      rw [hsum, wrappedSum, Int64.val_ofInt, Int64.bmod_of_range (by omega) (by omega)]
    have hpos : (0 : Int) < w.count.val := by omega
    have hcv : (Int64.ofInt w.count.val).val = w.count.val :=
      Int64.val_ofInt_of_range (by omega) (by omega)
    have hq := tdiv_range hpos (x := w.sum.val) (by omega) (by omega)
    rw [Int64.val_div, hcv, Int64.bmod_of_range hq.1 hq.2, hS]

/-- **`mean()` lies between the clip bounds.** Over every update sequence from the
constructor whose values are small enough that `Window` of them add up within an `int64_t`,
`mean()` lies between the two clip bounds of the window, the values of rank `clip_count` and
`count() - 1 - clip_count`, whichever is the smaller. -/
theorem updateAll_mean_mem (hN : Window.isPowerOfTwo) (hW : Window < 2 ^ 58)
    (winsorPct : Int) (buffer : Fin Window → Int64) (xs : List Int64)
    (hsmall : ∀ x ∈ xs, Window * |x.val| < 2 ^ 63) :
    let w := (create winsorPct buffer).updateAll xs
    let b := clipBounds (clampPct winsorPct).val (lastN Window xs)
    min b.1.val b.2.val ≤ w.mean.val ∧ w.mean.val ≤ max b.1.val b.2.val := by
  intro w b
  rw [show w.mean.val = _ from updateAll_mean_val hN hW winsorPct buffer xs hsmall]
  rcases Nat.eq_zero_or_pos (lastN Window xs).length with h0 | h0
  · simp [b, List.eq_nil_of_length_eq_zero h0, clipBounds]
  · obtain ⟨hS₁, hS₂⟩ := sum_clamped_mem b.1 b.2 (lastN Window xs)
    exact tdiv_mem (by omega) hS₁ hS₂

omit [NeZero Window] in
/-- `std::clamp` sends every percentage from `50` on to `50`. -/
theorem clampPct_of_ge {winsorPct : Int} (h : 50 ≤ winsorPct) : clampPct winsorPct = 50 := by
  unfold clampPct
  rw [if_neg (by omega)]
  split
  · rfl
  · exact Fin.ext (show winsorPct.toNat = 50 by omega)

/-- **At `50%` `mean()` is the median.** For every `winsor_pct` of at least `50` and every
update sequence whose values are small enough that `Window` of them add up within an
`int64_t`, `mean()` is the median of the window: its middle value for an odd count, the mean
of its two middle values, truncated, for an even one. -/
theorem updateAll_mean_median (hN : Window.isPowerOfTwo) (hW : Window < 2 ^ 58)
    (winsorPct : Int) (hpct : 50 ≤ winsorPct) (buffer : Fin Window → Int64) (xs : List Int64)
    (hsmall : ∀ x ∈ xs, Window * |x.val| < 2 ^ 63) :
    ((create winsorPct buffer).updateAll xs).mean.val = median (lastN Window xs) := by
  rw [updateAll_mean_val hN hW winsorPct buffer xs hsmall, clampPct_of_ge hpct]
  have hperm := List.perm_insertionSort (· ≤ ·) (lastN Window xs)
  have hs := List.sorted_insertionSort (· ≤ ·) (lastN Window xs)
  simp only [clipBounds, median, show ((50 : Fin 51) : Nat) = 50 from rfl]
  generalize lastN Window xs = l at hperm hs
  generalize l.insertionSort (· ≤ ·) = s at hperm hs ⊢
  have hslen : s.length = l.length := hperm.length_eq
  rcases Nat.eq_zero_or_pos l.length with h0 | h0
  · rw [List.eq_nil_of_length_eq_zero h0, List.eq_nil_of_length_eq_zero (hslen.trans h0)]; rfl
  rw [show l.length * 50 / 100 = l.length / 2 by omega]
  -- the sorted window clamped: its lower half to one middle value, its upper half to the other
  have hS : (l.map fun v => (clamped (s.getD (l.length / 2) 0)
      (s.getD (l.length - 1 - l.length / 2) 0) v).val).sum =
      ((l.length / 2 : Nat) : Int) * (s.getD (l.length / 2) 0).val +
        ((l.length - l.length / 2 : Nat) : Int) * (s.getD (l.length - 1 - l.length / 2) 0).val := by
    have h := congrArg (fun t => (t.map Int64.val).sum) (map_clamped_of_sorted hs
      (j := l.length - 1 - l.length / 2) (k := l.length / 2) (by omega) (by omega) (by omega))
    simp only [List.map_map, Function.comp_def] at h
    rw [← (hperm.map _).sum_eq, h]
    simp only [List.map_append, List.map_replicate, List.sum_append, List.sum_replicate,
      nsmul_eq_mul, hslen]
  rw [hS]
  split
  · next hodd =>
    rw [show l.length - 1 - l.length / 2 = l.length / 2 by omega, ← Int.add_mul,
      show ((l.length / 2 : Nat) : Int) + ((l.length - l.length / 2 : Nat) : Int) = l.length by
        omega]
    exact Int.mul_tdiv_cancel_left _ (by omega)
  · next heven =>
    rw [show l.length - 1 - l.length / 2 = l.length / 2 - 1 by omega,
      show ((l.length - l.length / 2 : Nat) : Int) = ((l.length / 2 : Nat) : Int) by omega,
      ← Int.mul_add, Int.add_comm, show (l.length : Int) = ((l.length / 2 : Nat) : Int) * 2 by
        omega]
    exact mul_tdiv_mul_of_pos (by omega) (by omega)

/-- At `50%` the window `100, 2, 3, 4` has `mean()` `3`, its median `(3 + 4) / 2`. -/
theorem updateAll_mean_median_four :
    ((create 50 0 : WinsorizedStats 4).updateAll [1, 100, 2, 3, 4]).mean.val = 3 :=
  (updateAll_mean_median (⟨2, rfl⟩ : (4 : Nat).isPowerOfTwo) (by decide) 50 (by decide) 0
    [1, 100, 2, 3, 4] (by decide)).trans (by decide)

/-- Five values through a window of four at `25%`: `mean()` is `3`, between the bounds `3`
and `4`. -/
theorem updateAll_mean_mem_four :
    let w := (create 25 0 : WinsorizedStats 4).updateAll [1, 100, 2, 3, 4]
    let b := clipBounds (clampPct 25).val (lastN 4 [1, 100, 2, 3, 4])
    min b.1.val b.2.val ≤ w.mean.val ∧ w.mean.val ≤ max b.1.val b.2.val :=
  updateAll_mean_mem (⟨2, rfl⟩ : (4 : Nat).isPowerOfTwo) (by decide) 25 0 [1, 100, 2, 3, 4]
    (by decide)

end WinsorizedStats

end Sage
