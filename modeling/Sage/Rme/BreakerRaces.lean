import Sage.Rme.PositionTracker

/-! # The circuit breaker under concurrent calls (`rme/circuit_breaker.hpp`)

`trip(r)` makes two accesses: the atomic `tripped_.exchange(true)`, and, only when that
returned `false`, the plain write `reason_ = r`. `reset()` makes two as well: the atomic
`tripped_.store(false)`, then `reason_ = NONE`. RME's heartbeat thread calls `trip` and an
operator may call `reset` at any time, so the accesses of different calls interleave. Here
each call is split at those two accesses; a thread between them has a write of `reason_`
pending.

* **`BreakerSys.step`**, **`BreakerSys.run`** — interleavings of the threads' accesses.
* **`BreakerSys.run_events`** — a call whose two accesses run back to back is the call of
  `CircuitBreaker` run whole.
* **`BreakerSys.run_calls_agree`** — when no two calls overlap, every state between calls has
  `is_tripped()` exactly when `get_reason() != NONE`, the reason being that of the trip that
  set the flag since the last reset.
* **`BreakerSys.trip_reset_race`** — a reset that completes inside a trip's window, or a trip
  that completes inside a reset's window, leaves the flag and the reason disagreeing, with no
  call in progress. -/

namespace Sage

/-- Where a thread stands on the breaker. -/
inductive BreakerPc
  /-- In no call of the breaker. -/
  | idle
  /-- In `trip(r)`: the exchange returned `false`; `reason_ = r` is next. -/
  | tripWrite (r : CircuitBreakerReason)
  /-- In `reset()`: `tripped_` is stored `false`; `reason_ = NONE` is next. -/
  | resetWrite
  deriving DecidableEq, Repr

/-- The breaker shared by the threads of `T`, and where each thread stands. -/
structure BreakerSys (T : Type) where
  breaker : CircuitBreaker
  pc : T → BreakerPc

/-- What can happen next: a thread makes the atomic access that starts `trip(r)` or `reset()`,
or makes its pending write of `reason_`. -/
inductive BreakerEvent (T : Type)
  | trip (t : T) (r : CircuitBreakerReason)
  | reset (t : T)
  | write (t : T)

/-- A call of the breaker made by thread `t`. -/
inductive BreakerCall (T : Type)
  | trip (t : T) (r : CircuitBreakerReason)
  | reset (t : T)

namespace BreakerCall

variable {T : Type}

/-- The accesses of a call run back to back. -/
def events : BreakerCall T → List (BreakerEvent T)
  | .trip t r => [.trip t r, .write t]
  | .reset t => [.reset t, .write t]

/-- The reason of the trip that set `tripped_` since the last reset, after `acc`: a trip on a
set flag writes nothing. -/
def setterSince :
    Option CircuitBreakerReason → List (BreakerCall T) → Option CircuitBreakerReason
  | acc, [] => acc
  | acc, .trip _ r :: cs => setterSince (some (acc.getD r)) cs
  | _, .reset _ :: cs => setterSince none cs

/-- Trips with reasons other than `NONE` never leave `NONE` as the setter's reason. -/
theorem setterSince_ne_some_none (cs : List (BreakerCall T))
    (hr : ∀ t r, BreakerCall.trip t r ∈ cs → r ≠ .none) (acc : Option CircuitBreakerReason)
    (hacc : acc ≠ some .none) : setterSince acc cs ≠ some .none := by
  induction cs generalizing acc with
  | nil => exact hacc
  | cons c cs ih =>
    have hr' := fun t r h => hr t r (List.mem_cons_of_mem _ h)
    cases c with
    | trip t r =>
      refine ih hr' _ ?_
      cases acc with
      | none => simpa using hr t r (List.mem_cons_self _ _)
      | some a => simpa using hacc
    | reset t => exact ih hr' none nofun

end BreakerCall

/-- A whole call of the breaker, as `CircuitBreaker` runs it. -/
def CircuitBreaker.call {T : Type} (b : CircuitBreaker) : BreakerCall T → CircuitBreaker
  | .trip _ r => b.trip r
  | .reset _ => b.reset

/-- `is_tripped()` holds exactly when `get_reason() != NONE`. -/
def CircuitBreaker.Agrees (b : CircuitBreaker) : Prop :=
  b.isTripped = true ↔ b.getReason ≠ .none

/-- A breaker set exactly when a setter's reason, other than `NONE`, is recorded agrees. -/
theorem CircuitBreaker.agrees_of_ne_some_none {o : Option CircuitBreakerReason}
    (h : o ≠ some .none) : CircuitBreaker.Agrees ⟨o.isSome, o.getD .none⟩ := by
  cases o with
  | none => simp [Agrees, isTripped, getReason]
  | some a => simpa [Agrees, isTripped, getReason] using h

namespace BreakerSys

variable {T : Type} [DecidableEq T]

/-- The breaker as constructed, no thread in a call. -/
def init : BreakerSys T := ⟨CircuitBreaker.init, fun _ => .idle⟩

/-- No thread is in a call of the breaker. -/
def Quiet (s : BreakerSys T) : Prop := ∀ t, s.pc t = .idle

/-! ## (1) The interleaved accesses -/

/-- One access. A thread starts a call only from `idle`; `write` makes its pending write of
`reason_`, and does nothing for a thread with none. -/
def step (s : BreakerSys T) : BreakerEvent T → BreakerSys T
  | .trip t r =>
    if s.pc t = .idle then
      -- `if (!tripped_.exchange(true))`
      if s.breaker.tripped then s
      else ⟨{ s.breaker with tripped := true }, Function.update s.pc t (.tripWrite r)⟩
    else s
  | .reset t =>
    if s.pc t = .idle then
      ⟨{ s.breaker with tripped := false }, Function.update s.pc t .resetWrite⟩
    else s
  | .write t =>
    match s.pc t with
    | .tripWrite r => ⟨{ s.breaker with reason := r }, Function.update s.pc t .idle⟩
    | .resetWrite => ⟨{ s.breaker with reason := .none }, Function.update s.pc t .idle⟩
    | .idle => s

/-- A schedule of accesses. -/
def run (s : BreakerSys T) : List (BreakerEvent T) → BreakerSys T
  | [] => s
  | e :: es => (s.step e).run es

@[simp] theorem run_nil (s : BreakerSys T) : s.run [] = s := rfl

@[simp] theorem run_cons (s : BreakerSys T) (e : BreakerEvent T) (es : List (BreakerEvent T)) :
    s.run (e :: es) = (s.step e).run es := rfl

theorem run_append (s : BreakerSys T) (es es' : List (BreakerEvent T)) :
    s.run (es ++ es') = (s.run es).run es' := by
  induction es generalizing s <;> simp [*]

/-! ## (2) Calls that do not overlap -/

/-- **A call run back to back is the whole call.** From a state where thread `t` is in no
call, the two accesses of its call leave it in none again and the breaker as
`CircuitBreaker.trip` or `CircuitBreaker.reset` leaves it. -/
theorem run_events (s : BreakerSys T) (c : BreakerCall T)
    (ht : s.pc (match c with | .trip t _ => t | .reset t => t) = .idle) :
    s.run c.events = ⟨s.breaker.call c, s.pc⟩ := by
  obtain ⟨⟨tripped, reason⟩, pc⟩ := s
  cases c with
  | trip t r =>
    simp only at ht
    cases tripped <;>
      simp [BreakerCall.events, step, ht, CircuitBreaker.call, CircuitBreaker.trip,
        Function.update_eq_self]
  | reset t =>
    simp only at ht
    simp [BreakerCall.events, step, ht, CircuitBreaker.call, CircuitBreaker.reset,
      Function.update_eq_self]

/-- **Run lemma.** Calls run whole one after another, from a state with no call in progress,
are the calls of `CircuitBreaker` in turn. -/
theorem run_flatMap_events (cs : List (BreakerCall T)) (s : BreakerSys T) (hs : s.Quiet) :
    s.run (cs.flatMap BreakerCall.events) = ⟨cs.foldl CircuitBreaker.call s.breaker, s.pc⟩ := by
  induction cs generalizing s with
  | nil => rfl
  | cons c cs ih =>
    rw [List.flatMap_cons, run_append, run_events s c (by cases c <;> exact hs _),
      List.foldl_cons]
    exact ih _ hs

omit [DecidableEq T] in
/-- The breaker after whole calls agrees with the trip that set it since the last reset. -/
theorem calls_setter (b : CircuitBreaker) (acc : Option CircuitBreakerReason)
    (hb : b = ⟨acc.isSome, acc.getD .none⟩) (cs : List (BreakerCall T)) :
    cs.foldl CircuitBreaker.call b =
      ⟨(BreakerCall.setterSince acc cs).isSome,
        (BreakerCall.setterSince acc cs).getD .none⟩ := by
  induction cs generalizing b acc with
  | nil => exact hb
  | cons c cs ih =>
    subst hb
    cases c with
    | trip t r =>
      cases acc <;> exact ih _ _ (by simp [CircuitBreaker.call, CircuitBreaker.trip])
    | reset t => exact ih _ none rfl

/-- **Calls that never overlap keep the flag and the reason agreeing.** For every sequence of
`trip(r)` calls with `r != NONE` and `reset()` calls by any threads, each run whole before the
next starts, the breaker ends with no call in progress; `is_tripped()` holds exactly when
`get_reason() != NONE`; and the reason is that of the trip that set `tripped_` since the last
reset, or `NONE` if none did. -/
theorem run_calls_agree (cs : List (BreakerCall T))
    (hr : ∀ t r, BreakerCall.trip t r ∈ cs → r ≠ .none) :
    (init.run (cs.flatMap BreakerCall.events)).Quiet ∧
      (init.run (cs.flatMap BreakerCall.events)).breaker.Agrees ∧
      (init.run (cs.flatMap BreakerCall.events)).breaker.getReason =
        (BreakerCall.setterSince none cs).getD .none := by
  rw [run_flatMap_events cs init fun _ => rfl, calls_setter init.breaker none rfl]
  exact ⟨fun _ => rfl,
    CircuitBreaker.agrees_of_ne_some_none (BreakerCall.setterSince_ne_some_none cs hr none nofun),
    rfl⟩

/-- The heartbeat's trip, an operator's reset, then an operator's manual halt. -/
theorem run_calls_agree_halt :
    (∀ t r, BreakerCall.trip t r ∈
        [.trip true .dailyLossBreach, .reset false, .trip false .manualHalt] → r ≠ .none) ∧
      ((init : BreakerSys Bool).run
          ([.trip true .dailyLossBreach, .reset false, .trip false .manualHalt].flatMap
            BreakerCall.events)).Quiet ∧
      ((init : BreakerSys Bool).run
          ([.trip true .dailyLossBreach, .reset false, .trip false .manualHalt].flatMap
            BreakerCall.events)).breaker.Agrees ∧
      ((init : BreakerSys Bool).run
          ([.trip true .dailyLossBreach, .reset false, .trip false .manualHalt].flatMap
            BreakerCall.events)).breaker.getReason =
        (BreakerCall.setterSince none
          [BreakerCall.trip true .dailyLossBreach, .reset false, .trip false .manualHalt]).getD
          .none := by
  have hr : ∀ t r, BreakerCall.trip t r ∈
      [.trip true .dailyLossBreach, .reset false, .trip false .manualHalt] → r ≠ .none := by
    intro t r h
    simp only [List.mem_cons, BreakerCall.trip.injEq, reduceCtorEq, List.mem_nil_iff, or_false,
      false_or] at h
    obtain ⟨-, rfl⟩ | ⟨-, rfl⟩ := h <;> decide
  exact ⟨hr, run_calls_agree _ hr⟩

/-! ## (3) Calls that overlap -/

/-- **Overlapping calls leave the flag and the reason disagreeing.** Take two threads, `h`
(RME's heartbeat thread) and `o` (an operator), and any reason `r != NONE`. If `o`'s whole
`reset()` falls between `h`'s exchange and its write of `reason_`, no call is in progress
afterwards, `is_tripped()` is `false` and `get_reason()` is `r`. If instead `h`'s whole
`trip(r)` falls between `o`'s store and its write, `is_tripped()` is `true` and `get_reason()`
is `NONE`, though `h`'s trip set the flag after the last completed reset. -/
theorem trip_reset_race {h o : T} (hne : h ≠ o) (r : CircuitBreakerReason) (hr : r ≠ .none) :
    let s₁ := init.run [.trip h r, .reset o, .write o, .write h]
    let s₂ := init.run [.reset o, .trip h r, .write h, .write o]
    (s₁.Quiet ∧ s₁.breaker.isTripped = false ∧ s₁.breaker.getReason = r ∧
        ¬s₁.breaker.Agrees) ∧
      s₂.Quiet ∧ s₂.breaker.isTripped = true ∧ s₂.breaker.getReason = .none ∧
        ¬s₂.breaker.Agrees := by
  have hne' := Ne.symm hne
  refine ⟨⟨fun t => ?_, ?_, ?_, ?_⟩, fun t => ?_, ?_, ?_, ?_⟩ <;>
    simp [init, CircuitBreaker.init, step, Function.update_apply, hne, hne', hr,
      CircuitBreaker.Agrees, CircuitBreaker.isTripped, CircuitBreaker.getReason] <;>
    exact fun ht _ => ht

/-- RME's heartbeat thread and an operator, with `DAILY_LOSS_BREACH`. -/
theorem trip_reset_race_dailyLoss :
    (true ≠ false ∧ CircuitBreakerReason.dailyLossBreach ≠ .none) ∧
      let s₁ := (init : BreakerSys Bool).run
        [.trip true .dailyLossBreach, .reset false, .write false, .write true]
      let s₂ := (init : BreakerSys Bool).run
        [.reset false, .trip true .dailyLossBreach, .write true, .write false]
      (s₁.Quiet ∧ s₁.breaker.isTripped = false ∧
          s₁.breaker.getReason = .dailyLossBreach ∧ ¬s₁.breaker.Agrees) ∧
        s₂.Quiet ∧ s₂.breaker.isTripped = true ∧ s₂.breaker.getReason = .none ∧
          ¬s₂.breaker.Agrees :=
  ⟨⟨by decide, by decide⟩, trip_reset_race (by decide) _ (by decide)⟩

end BreakerSys

end Sage
