import Sage.Infra.RingBufferSteps
import Sage.Infra.RingBufferQueue

/-! # One producer and one consumer: every interleaving is a FIFO

The contract of `RingBuffer` is one producer thread and one consumer thread. Under it, and
with a consumer that never calls `try_pop` after a `try_pop_batch` (the defect of
`run_tryPop_after_tryPopBatch`; every consumer of the pipeline qualifies), every interleaving
of their atomic steps loses, duplicates, reorders and invents nothing: at every point of the
run, the items obtained followed by the items the ring holds are exactly the items pushed.

The invariant records what each thread's program point knows of the shared ring: the index
it loaded is still current, and, past its test, that there is room (producer) or an item
(consumer). A thread's facts only mention what the other thread cannot change, or change in
the one direction that keeps them true.

* **`Sys.ProdOk`**, **`Sys.ConsOk`**, **`Sys.Inv`** — the invariant.
* **`Sys.prodNext_inv`**, **`Sys.consNext_inv`**, **`Sys.step_inv`** — one step of either
  thread keeps it.
* **`Sys.run_fifo`** — every run from a fresh ring. -/

namespace Sage

/-- Whether an action calls `try_pop_batch`. -/
def Action.isCallBatch {ι α : Type} : Action ι α → Bool
  | .callBatch _ => true
  | _ => false

/-- Whether the consumer is inside `try_pop`. -/
def PopPc.inPop {α : Type} : PopPc α → Bool
  | .popLoaded _ | .popReload _ | .popRead _ | .popPublish _ _ => true
  | _ => false

/-- Whether the consumer is inside `try_pop_batch`. -/
def PopPc.inBatch {α : Type} : PopPc α → Bool
  | .batchLoaded _ _ | .batchCopy _ _ _ => true
  | _ => false

namespace Sys

variable {α : Type} {N : Capacity}

@[simp] theorem setProd_ring (s : Sys Unit α N) (pc : PushPc α) : (s.setProd () pc).ring = s.ring :=
  rfl

@[simp] theorem setProd_cons (s : Sys Unit α N) (pc : PushPc α) : (s.setProd () pc).cons = s.cons :=
  rfl

@[simp] theorem setProd_obtained (s : Sys Unit α N) (pc : PushPc α) :
    (s.setProd () pc).obtained = s.obtained := rfl

@[simp] theorem setProd_pushed (s : Sys Unit α N) (pc : PushPc α) :
    (s.setProd () pc).pushed = s.pushed := rfl

@[simp] theorem setProd_prod (s : Sys Unit α N) (pc : PushPc α) :
    (s.setProd () pc).prod () = pc := by
  simp [setProd]

/-! ## (1) What each program point knows -/

/-- What the producer's program point records of the ring. From `write` on, the room test
has passed against `cached_tail_`, which only the producer changes. -/
def ProdOk (rb : RingBuffer α N) : PushPc α → Prop
  | .idle => True
  | .loaded _ h | .reload _ h => h = rb.head
  | .write _ h => h = rb.head ∧ (h + 1 - rb.cachedTail).toNat ≤ N.val
  | .publish x h => h = rb.head ∧ (h + 1 - rb.cachedTail).toNat ≤ N.val ∧ rb.buffer (slot N h) = x

/-- What the consumer's program point records of the ring. Past `try_pop`'s test the cached
`head_` differs from `tail_`; past `try_pop_batch`'s load the count is at most what is held,
and the items copied so far are the oldest ones. -/
def ConsOk (rb : RingBuffer α N) : PopPc α → Prop
  | .idle => True
  | .popLoaded t | .popReload t | .batchLoaded _ t | .peekLoaded t | .peekRead t => t = rb.tail
  | .popRead t => t = rb.tail ∧ rb.cachedHead ≠ t
  | .popPublish t x => t = rb.tail ∧ rb.cachedHead ≠ t ∧ rb.contents.head? = some x
  | .batchCopy t n got =>
    t = rb.tail ∧ n.toNat ≤ (rb.head - rb.tail).toNat ∧ got.length ≤ n.toNat ∧
      got = rb.contents.take got.length

/-- **The invariant** of a system with one producer: what was obtained, then what the ring
holds, is what was pushed; the producer's cached view is safe; and both program points agree
with the ring. -/
structure Inv (s : Sys Unit α N) : Prop where
  fifo : s.obtained ++ s.ring.contents = s.pushed ()
  tailOk : s.ring.TailOk
  prod : ProdOk s.ring (s.prod ())
  cons : ConsOk s.ring s.cons

/-- The producer's facts survive any change of `tail_` and `cached_head_`. -/
theorem ProdOk.of_eq {rb rb' : RingBuffer α N} {pc : PushPc α} (h : ProdOk rb pc)
    (hh : rb'.head = rb.head) (hc : rb'.cachedTail = rb.cachedTail) (hb : rb'.buffer = rb.buffer) :
    ProdOk rb' pc := by
  cases pc <;> simp only [ProdOk, hh, hc, hb] at h ⊢ <;> exact h

/-- The consumer's facts survive any change of `cached_tail_`, and a write that leaves the
held items as they were. -/
theorem ConsOk.of_eq {rb rb' : RingBuffer α N} {pc : PopPc α} (h : ConsOk rb pc)
    (hh : rb'.head = rb.head) (ht : rb'.tail = rb.tail) (hc : rb'.cachedHead = rb.cachedHead)
    (hcont : rb'.contents = rb.contents) : ConsOk rb' pc := by
  cases pc <;> simp only [ConsOk, hh, ht, hc, hcont] at h ⊢ <;> exact h

/-- The consumer's facts survive a publish, which adds an item at the back. -/
theorem ConsOk.succ_head {rb : RingBuffer α N} {pc : PopPc α} (h : ConsOk rb pc)
    (hroom : (rb.head - rb.tail).toNat < N.val) :
    ConsOk ({ rb with head := rb.head + 1 } : RingBuffer α N) pc := by
  have hN := N.le
  have hcont := RingBuffer.contents_succ_head rb hroom
  cases pc with
  | popPublish t x =>
    obtain ⟨h₁, h₂, h₃⟩ := h
    refine ⟨h₁, h₂, ?_⟩
    rw [hcont, List.head?_append, h₃]; rfl
  | batchCopy t n got =>
    obtain ⟨h₁, h₂, h₃, h₄⟩ := h
    refine ⟨h₁, by simp only; bv_omega, h₃, ?_⟩
    rw [hcont, List.take_append_of_le_length (by rw [RingBuffer.length_contents]; omega)]
    exact h₄
  | _ => exact h

/-! ## (2) A producer step -/

/-- **A producer step keeps the invariant.** It leaves the consumer, `tail_`,
`cached_head_` and what was obtained as they were, and keeps the consumer's view safe. -/
theorem prodNext_inv {s s' : Sys Unit α N} (h : s.Inv)
    (hs : s.prodNext () (s.prod ()) = some s') :
    s'.Inv ∧ s'.cons = s.cons ∧ (s.ring.HeadOk → s'.ring.HeadOk) := by
  obtain ⟨hfifo, ⟨h₁, h₂⟩, hprod, hcons⟩ := h
  have hN := N.le
  generalize hpc : s.prod () = pc at hs hprod
  cases pc with
  | idle => cases hs
  | loaded x hd =>
    simp only [prodNext] at hs
    split at hs <;> cases hs
    · exact ⟨⟨hfifo, ⟨h₁, h₂⟩, by simpa [ProdOk] using hprod, hcons⟩, rfl, id⟩
    · next hfast =>
      refine ⟨⟨hfifo, ⟨h₁, h₂⟩, ?_, hcons⟩, rfl, id⟩
      simp only [setProd_prod, setProd_ring, ProdOk]
      exact ⟨hprod, by bv_omega⟩
  | reload x hd =>
    simp only [prodNext] at hs
    split at hs <;> cases hs
    · refine ⟨⟨hfifo, ⟨by simp, by simp only [setProd_ring]; bv_omega⟩, trivial,
        hcons.of_eq rfl rfl rfl rfl⟩, rfl, id⟩
    · next hroom =>
      refine ⟨⟨hfifo, ⟨by simp, by simp only [setProd_ring]; bv_omega⟩, ?_,
        hcons.of_eq rfl rfl rfl rfl⟩, rfl, id⟩
      simp only [setProd_prod, setProd_ring, ProdOk]
      exact ⟨hprod, by bv_omega⟩
  | write x hd =>
    obtain ⟨rfl, hroom⟩ := hprod
    simp only [prodNext] at hs
    cases hs
    have hcont := RingBuffer.contents_write s.ring x (by bv_omega)
    refine ⟨⟨?_, ⟨h₁, h₂⟩, ⟨rfl, hroom, Function.update_same _ _ _⟩,
      hcons.of_eq rfl rfl rfl hcont⟩, rfl, id⟩
    simp only [setProd_ring]
    rw [hcont]; exact hfifo
  | publish x hd =>
    obtain ⟨rfl, hroom, hx⟩ := hprod
    have hsize : (s.ring.head - s.ring.tail).toNat < N.val := by bv_omega
    simp only [prodNext] at hs
    cases hs
    refine ⟨⟨?_, RingBuffer.TailOk.succ_head ⟨h₁, h₂⟩ hroom rfl rfl rfl, trivial,
      hcons.succ_head hsize⟩, rfl, fun hh => hh.succ_head hsize rfl rfl rfl⟩
    simp only [Function.update_same, setProd_obtained]
    rw [RingBuffer.contents_succ_head s.ring hsize, hx, ← List.append_assoc, hfifo]

/-! ## (3) A consumer step -/

/-- A consumer step stays inside the call it is in, or leaves it: it enters neither
`try_pop` nor `try_pop_batch` (only the calls do). -/
theorem consNext_pc {ι : Type} [DecidableEq ι] {s s' : Sys ι α N}
    (hs : s.consNext s.cons = some s') :
    (s'.cons.inPop → s.cons.inPop) ∧ (s.cons.inBatch = false → s'.cons.inBatch = false) := by
  generalize s.cons = pc at hs ⊢
  cases pc <;> simp only [consNext] at hs <;> (repeat' split at hs) <;> cases hs <;>
    simp [PopPc.inPop, PopPc.inBatch]

/-- Inside `try_pop` the consumer is not inside `try_pop_batch`. -/
theorem PopPc.inBatch_of_inPop {pc : PopPc α} (h : pc.inPop) : pc.inBatch = false := by
  cases pc <;> first | rfl | cases h

/-- **A consumer step keeps the invariant**, given a safe consumer view inside `try_pop`;
outside `try_pop_batch` it keeps the consumer's view safe. -/
theorem consNext_inv {s s' : Sys Unit α N} (h : s.Inv) (hh : s.cons.inPop → s.ring.HeadOk)
    (hs : s.consNext s.cons = some s') :
    s'.Inv ∧ (s.cons.inBatch = false → s.ring.HeadOk → s'.ring.HeadOk) := by
  obtain ⟨hfifo, ht, hprod, hcons⟩ := h
  generalize hpc : s.cons = pc at hs hcons hh ⊢
  cases pc with
  | idle => cases hs
  | popLoaded t =>
    simp only [consNext] at hs
    split at hs <;> cases hs
    · exact ⟨⟨hfifo, ht, hprod, hcons⟩, fun _ => id⟩
    · next hne => exact ⟨⟨hfifo, ht, hprod, hcons, hne⟩, fun _ => id⟩
  | popReload t =>
    simp only [consNext] at hs
    split at hs <;> cases hs
    · exact ⟨⟨hfifo, ⟨ht.1, ht.2⟩, hprod.of_eq rfl rfl rfl, trivial⟩, fun _ _ => le_refl _⟩
    · next hne =>
      exact ⟨⟨hfifo, ⟨ht.1, ht.2⟩, hprod.of_eq rfl rfl rfl, hcons, hne⟩, fun _ _ => le_refl _⟩
  | popRead t =>
    obtain ⟨rfl, hne⟩ := hcons
    simp only [consNext] at hs
    cases hs
    refine ⟨⟨hfifo, ht, hprod, rfl, hne, ?_⟩, fun _ => id⟩
    rw [RingBuffer.head?_contents, if_neg ((hh rfl).head_ne hne)]
  | popPublish t x =>
    obtain ⟨rfl, hne, hx⟩ := hcons
    have hhd : s.ring.HeadOk := hh rfl
    have hht := hhd.head_ne hne
    obtain ⟨rest, hrest⟩ := List.head?_eq_some_iff.1 hx
    have hcont := RingBuffer.contents_advance s.ring hht
    simp only [RingBuffer.advance] at hcont
    simp only [consNext] at hs
    cases hs
    refine ⟨⟨?_, ht.add_tail 1 (by bv_omega) rfl rfl rfl,
      hprod.of_eq rfl rfl rfl, trivial⟩, fun _ _ => hhd.succ_tail hne rfl rfl rfl⟩
    simp only [hcont, hrest, List.tail_cons, List.append_assoc, List.singleton_append, ← hfifo]
  | batchLoaded m t =>
    obtain rfl := hcons
    simp only [consNext] at hs
    split at hs <;> split at hs <;> cases hs
    all_goals first
      | exact ⟨⟨hfifo, ht, hprod, trivial⟩, fun _ => id⟩
      | exact ⟨⟨hfifo, ht, hprod, rfl, by bv_omega, Nat.zero_le _, rfl⟩, fun _ => id⟩
  | batchCopy t n got =>
    obtain ⟨rfl, hn, hgot, hpre⟩ := hcons
    simp only [consNext] at hs
    split at hs <;> cases hs
    · next hlt =>
      have hlen :
          (got ++ [s.ring.buffer (slot N (s.ring.tail + BitVec.ofNat 64 got.length))]).length =
            got.length + 1 := List.length_append _ _
      refine ⟨⟨hfifo, ht, hprod, rfl, hn, by omega, ?_⟩, fun _ => id⟩
      dsimp only
      rw [hlen, List.take_succ, RingBuffer.getElem?_contents s.ring (i := got.length) (by omega),
        ← hpre]
      rfl
    · next hge =>
      have hlen : got.length = n.toNat := by omega
      have hdrop := RingBuffer.contents_drop s.ring n.toNat hn
      rw [show BitVec.ofNat 64 n.toNat = n by bv_omega] at hdrop
      refine ⟨⟨?_, ht.add_tail n hn rfl rfl rfl,
        hprod.of_eq rfl rfl rfl, trivial⟩, nofun⟩
      simp only [hdrop, List.append_assoc]
      rw [hpre, hlen, List.take_append_drop, hfifo]
  | peekLoaded t =>
    simp only [consNext] at hs
    split at hs <;> cases hs
    · exact ⟨⟨hfifo, ht, hprod, trivial⟩, fun _ => id⟩
    · exact ⟨⟨hfifo, ht, hprod, hcons⟩, fun _ => id⟩
  | peekRead t =>
    simp only [consNext] at hs
    cases hs
    exact ⟨⟨hfifo, ht, hprod, trivial⟩, fun _ => id⟩

/-! ## (4) Any step, and whole runs -/

/-- **One step of either thread keeps the invariant**, given a safe consumer view inside
`try_pop`. With no call of `try_pop_batch` and the consumer outside it, the consumer's view
stays safe and the consumer stays outside; with no call of `try_pop`, the view stays safe
inside `try_pop`. -/
theorem step_inv {s s' : Sys Unit α N} {a : Action Unit α} (h : s.Inv)
    (hh : s.cons.inPop → s.ring.HeadOk) (hs : s.step a = some s') :
    s'.Inv ∧
      (a.isCallBatch = false → s.cons.inBatch = false → s.ring.HeadOk →
        s'.ring.HeadOk ∧ s'.cons.inBatch = false) ∧
      (a ≠ .callPop → s'.cons.inPop → s'.ring.HeadOk) := by
  cases a with
  | call p x =>
    cases p
    simp only [step] at hs
    split at hs <;> cases hs
    exact ⟨⟨h.fifo, h.tailOk, by simp [ProdOk], h.cons⟩, fun _ hb hd => ⟨hd, hb⟩,
      fun _ hp => hh hp⟩
  | prodStep p =>
    obtain ⟨h', hc, hd⟩ := prodNext_inv h hs
    exact ⟨h', fun _ hb hhd => ⟨hd hhd, hc ▸ hb⟩, fun _ hp => hd (hh (hc ▸ hp))⟩
  | consStep =>
    obtain ⟨h', hd⟩ := consNext_inv h hh hs
    obtain ⟨hpop, hbat⟩ := consNext_pc hs
    exact ⟨h', fun _ hb hhd => ⟨hd hb hhd, hbat hb⟩,
      fun _ hp => hd (PopPc.inBatch_of_inPop (hpop hp)) (hh (hpop hp))⟩
  | callPop =>
    simp only [step] at hs
    split at hs <;> cases hs
    exact ⟨⟨h.fifo, h.tailOk, h.prod, rfl⟩, fun _ _ hd => ⟨hd, rfl⟩, fun hne => absurd rfl hne⟩
  | callBatch m =>
    simp only [step] at hs
    split at hs <;> cases hs
    exact ⟨⟨h.fifo, h.tailOk, h.prod, rfl⟩, nofun, fun _ => nofun⟩
  | callPeek =>
    simp only [step] at hs
    split at hs <;> cases hs
    exact ⟨⟨h.fifo, h.tailOk, h.prod, rfl⟩, fun _ _ hd => ⟨hd, rfl⟩, fun _ => nofun⟩

/-- **Before the first `try_pop_batch`**, a run keeps the invariant and the consumer's view
safe, and the consumer out of `try_pop_batch`. -/
theorem run_inv_of_noBatch : ∀ {s s' : Sys Unit α N} (as : List (Action Unit α)),
    s.Inv → s.ring.HeadOk → s.cons.inBatch = false → (∀ a ∈ as, a.isCallBatch = false) →
    s.run as = some s' → s'.Inv ∧ s'.ring.HeadOk ∧ s'.cons.inBatch = false
  | _, _, [], h, hh, hb, _, hrun => by cases hrun; exact ⟨h, hh, hb⟩
  | s, _, a :: as, h, hh, hb, has, hrun => by
    simp only [run, Option.bind_eq_some] at hrun
    obtain ⟨s₁, hs₁, hrun⟩ := hrun
    obtain ⟨h₁, hnb, -⟩ := step_inv h (fun _ => hh) hs₁
    obtain ⟨hh₁, hb₁⟩ := hnb (has a (List.mem_cons_self _ _)) hb hh
    exact run_inv_of_noBatch as h₁ hh₁ hb₁ (fun a ha => has a (List.mem_cons_of_mem _ ha)) hrun

/-- **With no call of `try_pop`**, a run keeps the invariant and the consumer's view safe
inside `try_pop`. -/
theorem run_inv_of_noPop : ∀ {s s' : Sys Unit α N} (as : List (Action Unit α)),
    s.Inv → (s.cons.inPop → s.ring.HeadOk) → (∀ a ∈ as, a ≠ .callPop) →
    s.run as = some s' → s'.Inv ∧ (s'.cons.inPop → s'.ring.HeadOk)
  | _, _, [], h, hh, _, hrun => by cases hrun; exact ⟨h, hh⟩
  | s, _, a :: as, h, hh, has, hrun => by
    simp only [run, Option.bind_eq_some] at hrun
    obtain ⟨s₁, hs₁, hrun⟩ := hrun
    obtain ⟨h₁, -, hpop⟩ := step_inv h hh hs₁
    exact run_inv_of_noPop as h₁ (hpop (has a (List.mem_cons_self _ _)))
      (fun a ha => has a (List.mem_cons_of_mem _ ha)) hrun

/-- A run of two schedules is the run of the first, then of the second. -/
theorem run_append {ι : Type} [DecidableEq ι] (s : Sys ι α N) (as bs : List (Action ι α)) :
    s.run (as ++ bs) = (s.run as).bind fun s' => s'.run bs := by
  induction as generalizing s with
  | nil => rfl
  | cons a as ih => simp only [List.cons_append, run, List.append_eq, ih, Option.bind_assoc]

/-- A fresh ring satisfies the invariant, and its consumer's view is safe. -/
theorem inv_init (k : BitVec 64) (init : Nat → α) :
    (Sys.init k init : Sys Unit α N).Inv ∧ (Sys.init k init : Sys Unit α N).ring.HeadOk :=
  ⟨⟨by simp [Sys.init, RingBuffer.contents, RingBuffer.empty], RingBuffer.tailOk_empty k init,
    trivial, trivial⟩, RingBuffer.headOk_empty k init⟩

/-- **Every interleaving of one producer and one consumer is a FIFO.** From a fresh ring,
whatever the schedule of the two threads' atomic steps, provided the consumer calls
`try_pop_batch` only after its last `try_pop`: the items obtained are a prefix of the items
pushed, and the ring holds exactly the rest, in order. -/
theorem run_fifo (k : BitVec 64) (init : Nat → α) (pre post : List (Action Unit α))
    (s : Sys Unit α N) (hpre : ∀ a ∈ pre, a.isCallBatch = false)
    (hpost : ∀ a ∈ post, a ≠ .callPop) (hrun : (Sys.init k init).run (pre ++ post) = some s) :
    s.obtained <+: s.pushed () ∧ s.obtained ++ s.ring.contents = s.pushed () := by
  rw [run_append, Option.bind_eq_some] at hrun
  obtain ⟨s₁, hs₁, hrun⟩ := hrun
  obtain ⟨h₀, hh₀⟩ := inv_init (N := N) k init
  obtain ⟨h₁, hh₁, -⟩ := run_inv_of_noBatch pre h₀ hh₀ rfl hpre hs₁
  obtain ⟨h, -⟩ := run_inv_of_noPop post h₁ (fun _ => hh₁) hpost hrun
  exact ⟨⟨_, h.fifo⟩, h.fifo⟩

/-- Two pushes, a `try_pop` that overlaps the second, then a `try_pop_batch` and a peek. -/
theorem run_fifo_pop_then_batch :
    ∃ s, (Sys.init 0 (fun _ => 0) : Sys Unit Nat cap16).run
        ([.call () 5, .prodStep (), .prodStep (), .callPop, .prodStep (), .call () 6,
          .consStep, .prodStep (), .consStep, .consStep, .prodStep (), .prodStep (), .consStep] ++
          [.callBatch 4, .consStep, .consStep, .consStep, .callPeek, .consStep]) = some s ∧
      (s.obtained <+: s.pushed () ∧ s.obtained ++ s.ring.contents = s.pushed ()) := by
  refine ⟨_, (Option.some_get ?h).symm,
    run_fifo 0 _ _ _ _ (by decide) (by decide) (Option.some_get ?h).symm⟩
  decide

end Sys

end Sage
