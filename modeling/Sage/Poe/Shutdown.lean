import Sage.Types.Message

/-! # POE's threads, `mutex_` and the shutdown path (`poe/poe_main.cpp`, `ShutdownManager`)

POE runs three threads over one `AuditLog`: `main`, which runs the hot loop and then joins the
other two and makes the final `sync`; `fsync_thread`; and `heartbeat_thread`. Every log call
POE makes that touches the file (`write_entry`, under `log_order`, `log_sent` and `log_error`;
`flush`; `sync`) takes the log's `std::mutex` through a `lock_guard`. `ShutdownManager` sets
its flag by a compare-and-swap and, on its first success only, runs the registered handlers on
the thread that took the signal; POE registers one, `g_audit_log.sync()`.

The state keeps, per thread, where its own code stands (`Pc`) and the locked calls in progress
on its stack (`Frame`). A signal handler runs on top of whatever the thread was doing, so a
thread inside `write_entry` that takes SIGINT runs `sync` above it. The mutex is a plain
`std::mutex`: `lock()` waits until no thread owns it, its owner included. The model starts
where `main` enters its loop: before that no thread holds the mutex, and a signal there only
sets the flag and syncs, as a signal on `main` at `init` does.

* **`PoeProcess.step`**, **`PoeProcess.run`** — one scheduling event (a thread's step, a
  message popped by `main`, a signal delivered to a thread), and a schedule of them; a thread
  that cannot move stays as it is.
* **`PoeProcess.Wf.reachable`** — in every reachable state only the owner of `mutex_` is in a
  critical section, and `main` has passed a join only once that thread has finished.
* **`signal_in_critical_section_deadlocks`** — each thread can hold the mutex; a signal taken
  there leaves the thread waiting for the mutex it holds, no schedule releases it, and `main`
  never returns from its final `sync`.
* **`shutdown_message_blocks_joins`** — a popped `SHUTDOWN` leaves the loop with the flag
  unset, and until a signal comes `main` waits in `sync_thread.join()`. -/

namespace Sage

/-- POE's threads. -/
inductive PoeThread
  | main | fsync | heartbeat
  deriving DecidableEq, Repr

/-- The `AuditLog` calls POE makes that take `mutex_`. -/
inductive LockedCall
  | writeEntry | flush | sync
  deriving DecidableEq, Repr

/-- A locked call in progress on a thread's stack: blocked in `lock()` (`holds = false`) or
inside its critical section. -/
structure Frame where
  call : LockedCall
  holds : Bool
  deriving DecidableEq, Repr

/-- Where a thread's own code stands; the frames on its stack run first. -/
inductive Pc
  /-- `while (!is_shutdown_requested())`. -/
  | loop
  /-- `main`: `g_rme_to_poe_buffer.try_pop(msg)`. -/
  | poll
  /-- `main`: in `process_order`, with `n` calls of `write_entry` still to make (one under
  `log_order`, one under `log_sent` or `log_error`). -/
  | ordering (n : Nat)
  /-- `fsync_thread`, `heartbeat_thread`: the loop body, before its log call. -/
  | body
  /-- `main`: `sync_thread.join()`. -/
  | joinSync
  /-- `main`: `hb_thread.join()`. -/
  | joinHeartbeat
  /-- `main`: the final `g_audit_log.sync()`. -/
  | finalSync
  /-- The thread function has returned. -/
  | exited
  deriving DecidableEq, Repr

/-- How many of its two joins `main` has passed at `pc`. -/
def Pc.joined : Pc → Nat
  | .joinHeartbeat => 1
  | .finalSync | .exited => 2
  | _ => 0

/-- One step of a thread's own code: go to `pc`, entering the locked call `call` first, if
there is one. -/
structure Move where
  pc : Pc
  call : Option LockedCall

/-- `fsync_thread` and `heartbeat_thread`: `while (!is_shutdown_requested()) { sleep; call; }`.
`none` once the thread has returned. -/
def housekeeping (call : LockedCall) (shutdownRequested : Bool) : Pc → Option Move
  | .loop => some ⟨if shutdownRequested then .exited else .body, none⟩
  | .body => some ⟨.loop, some call⟩
  | _ => none

/-- `fsync_thread`: its body calls `g_audit_log.sync()`. -/
def fsyncThread : Bool → Pc → Option Move := housekeeping .sync

/-- `heartbeat_thread`: its body prints the counters and calls `g_audit_log.flush()`. -/
def heartbeatThread : Bool → Pc → Option Move := housekeeping .flush

/-- Where `main` goes with the message `try_pop` returned: `process_order` for an
`ORDER_REQUEST`, out of the loop (`break`) for a `SHUTDOWN`, back to the loop for the rest. -/
def afterPop (msg : SageMessage) : Pc :=
  if msg.msgType = .orderRequest then .ordering 2
  else if msg.msgType = .shutdown then .joinSync
  else .loop

/-- The frames after entering `call`: on a file that did not open, the `log_*` calls return
before `write_entry`, and `flush` and `sync` before locking. -/
def enter (isOpen : Bool) (call : Option LockedCall) (fs : List Frame) : List Frame :=
  match call, isOpen with
  | some c, true => ⟨c, false⟩ :: fs
  | _, _ => fs

/-- POE's process once `main` has started both threads. -/
structure PoeProcess where
  /-- `file_.is_open()`, fixed by the log's constructor. -/
  isOpen : Bool
  /-- `ShutdownManager::shutdown_requested_`. -/
  shutdownRequested : Bool
  /-- The thread that owns `mutex_`. -/
  owner : Option PoeThread
  pc : PoeThread → Pc
  /-- The locked calls in progress on each thread's stack, innermost first. -/
  frames : PoeThread → List Frame

/-- What can happen next: a thread takes its next step (for `main` at `try_pop`, the queue is
empty), `main`'s `try_pop` returns a message, or SIGINT or SIGTERM is delivered to a thread. -/
inductive PoeSched
  | run (t : PoeThread)
  | pop (msg : SageMessage)
  | signal (t : PoeThread)

/-- The thread an event runs on. -/
def PoeSched.thread : PoeSched → PoeThread
  | .run t => t
  | .pop _ => .main
  | .signal t => t

namespace PoeProcess

/-- `main` entering its loop: both threads started, no lock taken, no signal yet. -/
def init (isOpen : Bool) : PoeProcess := ⟨isOpen, false, none, fun _ => .loop, fun _ => []⟩

/-- Thread `t` has returned from its thread function with nothing left on its stack. -/
def finished (s : PoeProcess) (t : PoeThread) : Prop := s.pc t = .exited ∧ s.frames t = []

instance (s : PoeProcess) (t : PoeThread) : Decidable (s.finished t) :=
  inferInstanceAs (Decidable (_ ∧ _))

/-- `main`'s own code, `try_pop` apart: `none` while a join waits and after `return`. -/
def mainThread (s : PoeProcess) : Option Move :=
  match s.pc .main with
  | .loop => some ⟨if s.shutdownRequested then .joinSync else .poll, none⟩
  | .poll => some ⟨.loop, none⟩
  | .ordering 0 => some ⟨.loop, none⟩
  | .ordering (n + 1) => some ⟨.ordering n, some .writeEntry⟩
  | .joinSync => if s.finished .fsync then some ⟨.joinHeartbeat, none⟩ else none
  | .joinHeartbeat => if s.finished .heartbeat then some ⟨.finalSync, none⟩ else none
  | .finalSync => some ⟨.exited, some .sync⟩
  | _ => none

/-- Thread `t`'s own code. -/
def code (s : PoeProcess) : PoeThread → Option Move
  | .main => s.mainThread
  | .fsync => fsyncThread s.shutdownRequested (s.pc .fsync)
  | .heartbeat => heartbeatThread s.shutdownRequested (s.pc .heartbeat)

/-- Thread `t` makes the move `m`. -/
def advance (s : PoeProcess) (t : PoeThread) (m : Move) : PoeProcess :=
  { s with pc := Function.update s.pc t m.pc,
           frames := Function.update s.frames t (enter s.isOpen m.call (s.frames t)) }

/-- Thread `t` runs its innermost frame `f`: a critical section ends and `lock_guard`
unlocks, or a blocked `lock()` takes the mutex once no thread owns it. -/
def runFrame (s : PoeProcess) (t : PoeThread) (f : Frame) (rest : List Frame) : PoeProcess :=
  if f.holds then { s with owner := none, frames := Function.update s.frames t rest }
  else if s.owner = none then
    { s with owner := some t, frames := Function.update s.frames t (⟨f.call, true⟩ :: rest) }
  else s

/-- SIGINT or SIGTERM on thread `t`: `signal_handler` calls `signal_shutdown`, whose
compare-and-swap succeeds only while the flag is unset; then the one handler,
`g_audit_log.sync()`, runs on `t` above what `t` was doing. A finished thread takes no
signal. -/
def signal (s : PoeProcess) (t : PoeThread) : PoeProcess :=
  if s.finished t then s
  else if s.shutdownRequested then s
  else { s with shutdownRequested := true }.advance t ⟨s.pc t, some .sync⟩

/-- One event. -/
def step (s : PoeProcess) : PoeSched → PoeProcess
  | .run t =>
    match s.frames t, s.code t with
    | f :: rest, _ => s.runFrame t f rest
    | [], some m => s.advance t m
    | [], none => s
  | .pop msg =>
    if s.pc .main = .poll ∧ s.frames .main = [] then s.advance .main ⟨afterPop msg, none⟩
    else s
  | .signal t => s.signal t

/-- A schedule of events. -/
def run (s : PoeProcess) : List PoeSched → PoeProcess
  | [] => s
  | e :: es => (s.step e).run es

/-- The states some schedule reaches from `init isOpen`. -/
def Reachable (isOpen : Bool) (s : PoeProcess) : Prop := ∃ es, (init isOpen).run es = s

/-- Thread `t` is blocked in `lock()` on the mutex it owns: `std::mutex` is not recursive, so
it waits for itself. -/
def SelfWaits (s : PoeProcess) (t : PoeThread) : Prop :=
  s.owner = some t ∧ ∃ c rest, s.frames t = ⟨c, false⟩ :: rest

/-- The number of critical sections thread `t` is in. -/
def holdCount (s : PoeProcess) (t : PoeThread) : Nat := (s.frames t).countP (·.holds)

/-! ## (1) What one event changes -/

@[simp] theorem run_nil (s : PoeProcess) : s.run [] = s := rfl

@[simp] theorem run_cons (s : PoeProcess) (e : PoeSched) (es : List PoeSched) :
    s.run (e :: es) = (s.step e).run es := rfl

theorem run_append (s : PoeProcess) (es es' : List PoeSched) :
    s.run (es ++ es') = (s.run es).run es' := by
  induction es generalizing s <;> simp [*]

theorem Reachable.run {b : Bool} {s : PoeProcess} (h : Reachable b s) (es : List PoeSched) :
    Reachable b (s.run es) := by
  obtain ⟨es₀, rfl⟩ := h
  exact ⟨es₀ ++ es, run_append _ _ _⟩

@[simp] theorem countP_enter (b : Bool) (c : Option LockedCall) (fs : List Frame) :
    (enter b c fs).countP (·.holds) = fs.countP (·.holds) := by
  unfold enter; split <;> simp

@[simp] theorem advance_isOpen (s : PoeProcess) (t : PoeThread) (m : Move) :
    (s.advance t m).isOpen = s.isOpen := rfl

@[simp] theorem advance_shutdownRequested (s : PoeProcess) (t : PoeThread) (m : Move) :
    (s.advance t m).shutdownRequested = s.shutdownRequested := rfl

@[simp] theorem advance_owner (s : PoeProcess) (t : PoeThread) (m : Move) :
    (s.advance t m).owner = s.owner := rfl

@[simp] theorem advance_pc (s : PoeProcess) (t u : PoeThread) (m : Move) :
    (s.advance t m).pc u = if u = t then m.pc else s.pc u := by
  simp [advance, Function.update_apply]

@[simp] theorem advance_frames (s : PoeProcess) (t u : PoeThread) (m : Move) :
    (s.advance t m).frames u =
      if u = t then enter s.isOpen m.call (s.frames t) else s.frames u := by
  simp [advance, Function.update_apply]

@[simp] theorem holdCount_advance (s : PoeProcess) (t u : PoeThread) (m : Move) :
    (s.advance t m).holdCount u = s.holdCount u := by
  simp only [holdCount, advance_frames]; split_ifs with h <;> simp [h]

@[simp] theorem runFrame_isOpen (s : PoeProcess) (t : PoeThread) (f : Frame) (rest : List Frame) :
    (s.runFrame t f rest).isOpen = s.isOpen := by
  unfold runFrame; split_ifs <;> rfl

@[simp] theorem runFrame_shutdownRequested (s : PoeProcess) (t : PoeThread) (f : Frame)
    (rest : List Frame) : (s.runFrame t f rest).shutdownRequested = s.shutdownRequested := by
  unfold runFrame; split_ifs <;> rfl

@[simp] theorem runFrame_pc (s : PoeProcess) (t : PoeThread) (f : Frame) (rest : List Frame) :
    (s.runFrame t f rest).pc = s.pc := by
  unfold runFrame; split_ifs <;> rfl

/-- **What an event can do.** Nothing; a move of its thread's own code; the first signal,
which sets the flag and enters the handler's `sync`; or a step of a locked call. -/
theorem step_cases (s : PoeProcess) (e : PoeSched) :
    s.step e = s ∨ (∃ m, s.step e = s.advance e.thread m) ∨
      (∃ t, e = .signal t ∧ s.shutdownRequested = false ∧ ¬ s.finished t ∧
        s.step e = { s with shutdownRequested := true }.advance t ⟨s.pc t, some .sync⟩) ∨
      ∃ t f rest, e = .run t ∧ s.frames t = f :: rest ∧ s.step e = s.runFrame t f rest := by
  cases e with
  | run t =>
    cases hfr : s.frames t with
    | cons f rest => exact .inr (.inr (.inr ⟨t, f, rest, rfl, hfr, by simp only [step, hfr]⟩))
    | nil =>
      cases hc : s.code t with
      | some m => exact .inr (.inl ⟨m, by simp only [step, hfr, hc]; rfl⟩)
      | none => exact .inl (by simp only [step, hfr, hc])
  | pop msg =>
    simp only [step]
    split
    · exact .inr (.inl ⟨_, rfl⟩)
    · exact .inl rfl
  | signal t =>
    simp only [step, signal]
    split_ifs with h₁ h₂
    · exact .inl rfl
    · exact .inl rfl
    · exact .inr (.inr (.inl ⟨t, rfl, by simpa using h₂, h₁, rfl⟩))

/-- **Frame lemma.** An event changes no other thread's code position or stack. -/
theorem step_frame {s : PoeProcess} {e : PoeSched} {u : PoeThread} (hu : u ≠ e.thread) :
    (s.step e).pc u = s.pc u ∧ (s.step e).frames u = s.frames u := by
  rcases step_cases s e with h | ⟨m, h⟩ | ⟨t, rfl, -, -, h⟩ | ⟨t, f, rest, rfl, -, h⟩ <;> rw [h]
  · exact ⟨rfl, rfl⟩
  · simp [hu]
  · simp only [PoeSched.thread] at hu
    simp [hu]
  · simp only [PoeSched.thread] at hu
    unfold runFrame
    split_ifs <;> simp [Function.update_apply, hu]

/-- A finished thread stays finished. -/
theorem finished_step {s : PoeProcess} {u : PoeThread} (h : s.finished u) (e : PoeSched) :
    (s.step e).finished u := by
  by_cases hu : u = e.thread
  · obtain ⟨hpc, hfr⟩ := h
    cases e with
    | run t =>
      obtain rfl : u = t := hu
      have hcode : s.code u = none := by
        cases u <;> simp [code, mainThread, fsyncThread, heartbeatThread, housekeeping, hpc]
      simp only [step, hfr, hcode]
      exact ⟨hpc, hfr⟩
    | pop msg =>
      obtain rfl : u = .main := hu
      simp [step, hpc, hfr, finished]
    | signal t =>
      obtain rfl : u = t := hu
      simp [step, signal, finished, hpc, hfr]
  · obtain ⟨h₁, h₂⟩ := step_frame (s := s) hu
    exact ⟨h₁ ▸ h.1, h₂ ▸ h.2⟩

@[simp] theorem isOpen_step (s : PoeProcess) (e : PoeSched) : (s.step e).isOpen = s.isOpen := by
  rcases step_cases s e with h | ⟨m, h⟩ | ⟨t, -, -, -, h⟩ | ⟨t, f, rest, -, -, h⟩ <;> simp [h]

/-- The flag is only ever set, and only by a signal. -/
theorem shutdownRequested_step (s : PoeProcess) (e : PoeSched) :
    (s.step e).shutdownRequested = s.shutdownRequested ∨
      (∃ t, e = .signal t) ∧ s.shutdownRequested = false := by
  rcases step_cases s e with h | ⟨m, h⟩ | ⟨t, rfl, hf, -, h⟩ | ⟨t, f, rest, -, -, h⟩ <;> simp [h, *]

/-- Where an event leaves a thread's code: where it was, where that thread's own code moves it,
or where `main` goes with a popped message. -/
theorem pc_step (s : PoeProcess) (e : PoeSched) (u : PoeThread) :
    (s.step e).pc u = s.pc u ∨
      (e = .run u ∧ s.frames u = [] ∧ ∃ m, s.code u = some m ∧ (s.step e).pc u = m.pc) ∨
      ∃ msg, e = .pop msg ∧ u = .main ∧ s.pc .main = .poll ∧ (s.step e).pc u = afterPop msg := by
  by_cases hu : u = e.thread
  · cases e with
    | run t =>
      obtain rfl : u = t := hu
      cases hfr : s.frames u with
      | cons f rest => exact .inl (by simp [step, hfr])
      | nil =>
        cases hc : s.code u with
        | some m => exact .inr (.inl ⟨rfl, rfl, m, rfl, by simp [step, hfr, hc]⟩)
        | none => exact .inl (by simp [step, hfr, hc])
    | pop msg =>
      obtain rfl : u = .main := hu
      by_cases h : s.pc .main = .poll ∧ s.frames .main = []
      · exact .inr (.inr ⟨msg, rfl, rfl, h.1, by simp [step, h]⟩)
      · exact .inl (by simp [step, h])
    | signal t =>
      obtain rfl : u = t := hu
      simp only [step, signal]
      split_ifs <;> simp
  · exact .inl (step_frame hu).1

/-! ## (2) The process's invariant -/

/-- **What holds in every reachable state.** -/
structure Wf (s : PoeProcess) : Prop where
  /-- `mutex_` excludes: its owner is in one critical section, every other thread in none. -/
  holdCount_eq : ∀ t, s.holdCount t = if s.owner = some t then 1 else 0
  /-- `main` has passed `sync_thread.join()` only once `fsync_thread` has finished. -/
  fsync_joined : 1 ≤ (s.pc .main).joined → s.finished .fsync
  /-- `main` has passed `hb_thread.join()` only once `heartbeat_thread` has finished. -/
  heartbeat_joined : 2 ≤ (s.pc .main).joined → s.finished .heartbeat
  /-- The background threads leave their loops only once the flag is set. -/
  running : s.shutdownRequested = false → s.pc .fsync ≠ .exited ∧ s.pc .heartbeat ≠ .exited

/-- The owner keeps `mutex_` through every event of another thread. -/
theorem Wf.owner_step {s : PoeProcess} (hw : s.Wf) {t : PoeThread} (ho : s.owner = some t)
    (e : PoeSched) (ht : t ≠ e.thread) : (s.step e).owner = some t := by
  rcases step_cases s e with h | ⟨m, h⟩ | ⟨u, -, -, -, h⟩ | ⟨u, f, rest, rfl, hfr, h⟩ <;> rw [h]
  · exact ho
  · simpa
  · simpa
  · simp only [PoeSched.thread] at ht
    unfold runFrame
    split_ifs with hf hn
    · have := hw.holdCount_eq u
      simp [holdCount, hfr, hf, ho, ht] at this
    · simp [ho] at hn
    · exact ho

theorem Wf.holdCount_step {s : PoeProcess} (hw : s.Wf) (e : PoeSched) (u : PoeThread) :
    (s.step e).holdCount u = if (s.step e).owner = some u then 1 else 0 := by
  rcases step_cases s e with h | ⟨m, h⟩ | ⟨t, -, -, -, h⟩ | ⟨t, f, rest, -, hfr, h⟩ <;> rw [h]
  · exact hw.holdCount_eq u
  · exact (holdCount_advance _ _ _ _).trans (hw.holdCount_eq u)
  · exact (holdCount_advance _ _ _ _).trans (hw.holdCount_eq u)
  · have ht := hw.holdCount_eq t
    simp only [holdCount, hfr, List.countP_cons] at ht
    unfold runFrame
    by_cases hut : u = t
    · subst hut
      split_ifs at ht ⊢ <;> simp_all [holdCount]
    · have hu := hw.holdCount_eq u
      have htu : t ≠ u := Ne.symm hut
      split_ifs at ht ⊢ <;> simp_all [holdCount, Function.update_apply]

@[simp] theorem joined_afterPop (msg : SageMessage) : (afterPop msg).joined = 0 := by
  unfold afterPop; split_ifs <;> rfl

/-- The housekeeping threads' own code leaves the loop only on the flag. -/
theorem code_ne_exited {s : PoeProcess} {u : PoeThread} {m : Move}
    (hf : s.shutdownRequested = false) (hu : u ≠ .main) (hm : s.code u = some m) : m.pc ≠ .exited := by
  cases u
  · exact absurd rfl hu
  all_goals
    simp only [code, fsyncThread, heartbeatThread, housekeeping, hf] at hm
    split at hm <;> cases hm <;> simp

/-- `main`'s own code passes a join only once that thread has finished. -/
theorem Wf.mainThread_joined {s : PoeProcess} (hw : s.Wf) {m : Move} (hm : s.mainThread = some m) :
    (1 ≤ m.pc.joined → s.finished .fsync) ∧ (2 ≤ m.pc.joined → s.finished .heartbeat) := by
  unfold mainThread at hm
  split at hm
  case h_5 hpc =>
    split at hm <;> cases hm
    exact ⟨fun _ => ‹_›, by simp [Pc.joined]⟩
  case h_6 hpc =>
    split at hm <;> cases hm
    exact ⟨fun _ => hw.fsync_joined (by simp [hpc, Pc.joined]), fun _ => ‹_›⟩
  case h_7 hpc =>
    cases hm
    exact ⟨fun _ => hw.fsync_joined (by simp [hpc, Pc.joined]),
      fun _ => hw.heartbeat_joined (by simp [hpc, Pc.joined])⟩
  all_goals cases hm; try split
  all_goals simp [Pc.joined]

/-- What an event does to `main`'s joins. -/
theorem Wf.joined_step {s : PoeProcess} (hw : s.Wf) (e : PoeSched) :
    (1 ≤ ((s.step e).pc .main).joined → s.finished .fsync) ∧
      (2 ≤ ((s.step e).pc .main).joined → s.finished .heartbeat) := by
  rcases pc_step s e .main with h | ⟨-, -, m, hm, h⟩ | ⟨msg, -, -, -, h⟩ <;> rw [h]
  · exact ⟨hw.fsync_joined, hw.heartbeat_joined⟩
  · exact hw.mainThread_joined hm
  · simp

/-- **Step lemma.** Every event keeps the invariant. -/
theorem Wf.step {s : PoeProcess} (hw : s.Wf) (e : PoeSched) : (s.step e).Wf where
  holdCount_eq := hw.holdCount_step e
  fsync_joined h := finished_step ((hw.joined_step e).1 h) e
  heartbeat_joined h := finished_step ((hw.joined_step e).2 h) e
  running h := by
    have hf : s.shutdownRequested = false := by
      rcases shutdownRequested_step s e with h' | ⟨-, h'⟩
      · rwa [← h']
      · exact h'
    have key : ∀ u, u ≠ .main → s.pc u ≠ .exited → (s.step e).pc u ≠ .exited := fun u hu hpc => by
      rcases pc_step s e u with h' | ⟨-, -, m, hm, h'⟩ | ⟨-, -, rfl, -, -⟩
      · rwa [h']
      · rw [h']; exact code_ne_exited hf hu hm
      · exact absurd rfl hu
    exact ⟨key _ (by decide) (hw.running hf).1, key _ (by decide) (hw.running hf).2⟩

theorem Wf.init (b : Bool) : (init b).Wf where
  holdCount_eq _ := by simp [holdCount, PoeProcess.init]
  fsync_joined h := by simp [PoeProcess.init, Pc.joined] at h
  heartbeat_joined h := by simp [PoeProcess.init, Pc.joined] at h
  running _ := by simp [PoeProcess.init]

/-- **Run lemma.** -/
theorem Wf.run {s : PoeProcess} (hw : s.Wf) (es : List PoeSched) : (s.run es).Wf := by
  induction es generalizing s with
  | nil => exact hw
  | cons e es ih => exact ih (hw.step e)

/-- **The invariant holds in every reachable state.** -/
theorem Wf.reachable {b : Bool} {s : PoeProcess} (h : Reachable b s) : s.Wf := by
  obtain ⟨es, rfl⟩ := h
  exact (Wf.init b).run es

theorem Reachable.isOpen {b : Bool} {s : PoeProcess} (h : Reachable b s) : s.isOpen = b := by
  obtain ⟨es, rfl⟩ := h
  suffices ∀ (s : PoeProcess) es, (s.run es).isOpen = s.isOpen from this _ es
  intro s es
  induction es generalizing s <;> simp [*]

/-! ## (3) A signal inside a critical section -/

/-- A signal delivered to the owner of `mutex_` before the flag is set leaves it waiting for
the mutex it holds. -/
theorem Wf.selfWaits_signal {s : PoeProcess} (hw : s.Wf) (hopen : s.isOpen = true)
    {t : PoeThread} (ho : s.owner = some t) (hf : s.shutdownRequested = false) :
    (s.step (.signal t)).SelfWaits t := by
  have hfr : s.frames t ≠ [] := fun h => by simpa [holdCount, h, ho] using hw.holdCount_eq t
  have hfin : ¬ s.finished t := fun h => hfr h.2
  simp only [PoeProcess.step, signal, if_neg hfin, hf]
  exact ⟨ho, .sync, s.frames t, by simp [hopen, enter]⟩

/-- A thread waiting on itself stays so through every event. -/
theorem Wf.selfWaits_step {s : PoeProcess} (hw : s.Wf) {t : PoeThread} (h : s.SelfWaits t)
    (e : PoeSched) : (s.step e).SelfWaits t := by
  obtain ⟨ho, c, rest, hfr⟩ := h
  by_cases ht : t = e.thread
  · cases e with
    | run u =>
      obtain rfl : t = u := ht
      refine ⟨?_, c, rest, ?_⟩ <;> simp [PoeProcess.step, hfr, runFrame, ho]
    | pop msg =>
      obtain rfl : t = .main := ht
      refine ⟨?_, c, rest, ?_⟩ <;> simp [PoeProcess.step, hfr, ho]
    | signal u =>
      obtain rfl : t = u := ht
      have hfin : ¬ s.finished t := fun h => List.cons_ne_nil _ _ (hfr.symm.trans h.2)
      simp only [PoeProcess.step, signal, if_neg hfin]
      split_ifs
      · exact ⟨ho, c, rest, hfr⟩
      · refine ⟨ho, ?_⟩
        cases hb : s.isOpen
        · exact ⟨c, rest, by simp [hb, hfr, enter]⟩
        · exact ⟨.sync, ⟨c, false⟩ :: rest, by simp [hb, hfr, enter]⟩
  · exact ⟨hw.owner_step ho e ht, c, rest, (step_frame ht).2.trans hfr⟩

/-- While a thread waits on itself, `main` has not returned: it is that thread, or it has not
yet joined it. -/
theorem Wf.not_finished_main {s : PoeProcess} (hw : s.Wf) {t : PoeThread} (h : s.SelfWaits t) :
    ¬ s.finished .main := by
  rintro ⟨hpc, hfr⟩
  obtain ⟨-, c, rest, ht⟩ := h
  have hj : 2 ≤ (s.pc .main).joined := by simp [hpc, Pc.joined]
  cases t with
  | main => simp [hfr] at ht
  | fsync => simp [(hw.fsync_joined (by omega)).2] at ht
  | heartbeat => simp [(hw.heartbeat_joined hj).2] at ht

theorem Wf.selfWaits_run {s : PoeProcess} (hw : s.Wf) {t : PoeThread} (h : s.SelfWaits t)
    (es : List PoeSched) : (s.run es).SelfWaits t := by
  induction es generalizing s with
  | nil => exact h
  | cons e es ih => exact ih (hw.step e) (hw.selfWaits_step h e)

end PoeProcess

open PoeProcess in
/-- **A signal inside a critical section deadlocks POE.** On a log that opened, each of the
three threads can own `mutex_` with no signal yet taken. If SIGINT or SIGTERM is delivered to
the owner there, the handler's `sync` blocks in `lock()` on the mutex that thread holds. From
then on no schedule of events frees it, and `main` never returns from its final `sync`. -/
theorem signal_in_critical_section_deadlocks :
    (∀ t, ∃ s, Reachable true s ∧ s.owner = some t ∧ s.shutdownRequested = false) ∧
    (∀ s t, Reachable true s → s.owner = some t → s.shutdownRequested = false →
      (s.step (.signal t)).SelfWaits t) ∧
    ∀ s t, Reachable true s → s.SelfWaits t →
      ∀ es, (s.run es).SelfWaits t ∧ ¬ (s.run es).finished .main := by
  refine ⟨fun t => ?_, fun s t h => (Wf.reachable h).selfWaits_signal h.isOpen,
    fun s t h hs es => ⟨(Wf.reachable h).selfWaits_run hs es,
      ((Wf.reachable h).run es).not_finished_main ((Wf.reachable h).selfWaits_run hs es)⟩⟩
  cases t
  · exact ⟨_, ⟨[.run .main, .pop ⟨0, 0, .order ⟨0, 0, FixedPoint.zero, FixedPoint.zero, 1, 1, 1⟩⟩,
      .run .main, .run .main], rfl⟩, rfl, rfl⟩
  · exact ⟨_, ⟨[.run .fsync, .run .fsync, .run .fsync], rfl⟩, rfl, rfl⟩
  · exact ⟨_, ⟨[.run .heartbeat, .run .heartbeat, .run .heartbeat], rfl⟩, rfl, rfl⟩

open PoeProcess in
/-- `fsync_thread` takes SIGTERM inside `sync`: it waits on itself and `main` never returns. -/
theorem fsync_signalled_in_sync :
    (((init true).run [.run .fsync, .run .fsync, .run .fsync]).step (.signal .fsync)).SelfWaits
      .fsync ∧
    ¬ ((((init true).run [.run .fsync, .run .fsync, .run .fsync]).step (.signal .fsync)).run
      []).finished .main :=
  have h := signal_in_critical_section_deadlocks.2.1 _ .fsync
    ⟨[.run .fsync, .run .fsync, .run .fsync], rfl⟩ rfl rfl
  ⟨h, (signal_in_critical_section_deadlocks.2.2 _ _
    ⟨[.run .fsync, .run .fsync, .run .fsync, .signal .fsync], rfl⟩ h []).2⟩

/-! ## (4) Leaving the loop on a `SHUTDOWN` message -/

namespace PoeProcess

/-- With the flag unset, `main` stays in `sync_thread.join()` through every event but a
signal: `fsync_thread` is still in its loop. -/
theorem Wf.joinSync_step {s : PoeProcess} (hw : s.Wf) (hpc : s.pc .main = .joinSync)
    (hf : s.shutdownRequested = false) {e : PoeSched} (he : ∀ t, e ≠ .signal t) :
    (s.step e).pc .main = .joinSync ∧ (s.step e).shutdownRequested = false := by
  refine ⟨?_, ?_⟩
  · rcases pc_step s e .main with h | ⟨-, -, m, hm, h⟩ | ⟨-, -, -, hpoll, -⟩
    · rwa [h]
    · have : ¬ s.finished .fsync := fun h => (hw.running hf).1 h.1
      simp [code, mainThread, hpc, this] at hm
    · simp [hpc] at hpoll
  · rcases shutdownRequested_step s e with h | ⟨⟨t, rfl⟩, -⟩
    · rwa [h]
    · exact absurd rfl (he t)

theorem Wf.joinSync_run {s : PoeProcess} (hw : s.Wf) (hpc : s.pc .main = .joinSync)
    (hf : s.shutdownRequested = false) (es : List PoeSched) (hes : ∀ t, .signal t ∉ es) :
    (s.run es).pc .main = .joinSync := by
  induction es generalizing s with
  | nil => exact hpc
  | cons e es ih =>
    have he : ∀ t, e ≠ .signal t := fun t h => hes t (h ▸ List.mem_cons_self _ _)
    obtain ⟨hpc', hf'⟩ := hw.joinSync_step hpc hf he
    exact ih (hw.step e) hpc' hf' fun t ht => hes t (List.mem_cons_of_mem _ ht)

end PoeProcess

open PoeProcess in
/-- **A `SHUTDOWN` message leaves `main` in its first join.** Popping `SHUTDOWN` breaks out of
the hot loop with the flag still unset. From any reachable state where `main` waits in
`sync_thread.join()` with the flag unset, no schedule without a signal moves it on:
`fsync_thread` keeps looping, and the final `sync` never runs. -/
theorem shutdown_message_blocks_joins (isOpen : Bool) (ts seq : BitVec 64) :
    ((init isOpen).run [.run .main, .pop ⟨ts, seq, .shutdown⟩]).pc .main = .joinSync ∧
      ((init isOpen).run [.run .main, .pop ⟨ts, seq, .shutdown⟩]).shutdownRequested = false ∧
      ∀ s, Reachable isOpen s → s.pc .main = .joinSync → s.shutdownRequested = false →
        ∀ es, (∀ t, .signal t ∉ es) → (s.run es).pc .main = .joinSync :=
  ⟨rfl, rfl, fun _ h hpc hf => (Wf.reachable h).joinSync_run hpc hf⟩

open PoeProcess in
/-- After a `SHUTDOWN` message, a round of every thread leaves `main` in the join. -/
theorem shutdown_message_then_round_waits :
    (((init true).run [.run .main, .pop ⟨0, 0, .shutdown⟩]).run
      [.run .fsync, .run .heartbeat, .run .main]).pc .main = .joinSync :=
  (shutdown_message_blocks_joins true 0 0).2.2 _ ⟨_, rfl⟩ (shutdown_message_blocks_joins true 0 0).1
    (shutdown_message_blocks_joins true 0 0).2.1 _ (by simp)

end Sage
