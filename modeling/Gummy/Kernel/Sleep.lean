import Gummy.Kernel.Clock

/-!
How long a thread sleeps.

`sys_sleep` computes the tick to wake at as a sum of `uint32_t`, and both
`sched_thread_sleep` and `timer_handler` compare ticks with a plain `<=`.  The divisor is
what `sched_init` made of the frequency.  A thread that is asleep stays in its queue as long
as the clock shows less than its time to wake, which no step but its own calls of
`sys_sleep` changes.
-/

namespace Gummy

open CWord

open Transition (Reachable Run restrict)

/-! ### What is asked for -/

/-- The kernel that `sched_init` leaves behind, for any frequency. -/
def InitAt (frequency : ℕ) (s : Kernel) : Prop := ∃ s₀, Boot s₀ ∧ s = schedInit frequency s₀

/-- The frequency the timer is set to. -/
def timerFrequency (frequency : ℕ) : ℕ := if frequency ≤ 18 then 100 else frequency

/-- The number of ticks that a sleep of `ms` milliseconds is to last. -/
def sleepTicks (s : Kernel) (ms : ℕ) : ℕ := u32 ms / s.msPerTick

/-- The call `sys_sleep(ms)` does what it is for: nothing is divided by zero; the handler
gets as far as its call of the scheduler with the thread in the sleep queue, where it is
still when the step is over; and from then on, in any run in which the thread does not call
`sys_sleep` again, no timer interrupt before the last of those asked for takes it out. -/
structure FullSleep (s : Kernel) (ms : ℕ) : Prop where
  divisor : s.msPerTick ≠ 0
  handler : 0 < sleepTicks s ms → ∃ sp0 rest s', handle (.sleep ms) s = .call sp0 rest s' ∧
    s.currentThread ∈ s'.queues.toList .sleep
  queued : 0 < sleepTicks s ms → s.currentThread ∈ (step s (.sleep ms)).queues.toList .sleep
  waits : ∀ l x, Run (restrict Step (SleepsOn s.currentThread)) (step s (.sleep ms)) l x →
    ticksIn l + 1 < sleepTicks s ms → s.currentThread ∈ x.queues.toList .sleep →
      s.currentThread ∈ (timerTick x).queues.toList .sleep

variable {s s' : Kernel} {v : View} {D : List (ℕ × ℕ)} {t : ThreadRef}

/-! ### Runs -/

/-- The thread `t`, if it sleeps, wakes at the tick `wake`, and the clock shows at most `now`. -/
structure WakesAt (t : ThreadRef) (wake now : ℕ) (s : Kernel) : Prop where
  abs : ∃ v, Abs s v []
  ticks : s.ticks ≤ now
  wakeTick : t ∈ s.queues.toList .sleep → (s.thread t).wakeTick = wake

lemma WakesAt.step {wake now : ℕ} (h : WakesAt t wake now s) {e : Event}
    (hadm : Admissible s e) (hs : SleepsOn t s e) :
    WakesAt t wake (now + ticksIn [e]) (Gummy.step s e) := by
  obtain ⟨v, habs⟩ := h.abs
  obtain ⟨v', habs'⟩ := habs.step_abs hadm
  cases hrun : s.halted with
  | true =>
    have hstep : Gummy.step s e = s := by rw [Gummy.step, hrun, if_pos rfl]
    rw [hstep]
    exact ⟨h.abs, h.ticks.trans (Nat.le_add_right _ _), h.wakeTick⟩
  | false =>
    have hframe := habs.step_sleepFrame hrun hadm hs
    refine ⟨⟨v', habs'⟩, ?_, fun ht => ?_⟩
    · rw [hframe.ticks]
      exact (s.clock_ticks_le e).trans (Nat.add_le_add_right h.ticks _)
    · obtain ⟨ht', hwake⟩ := hframe.sleeping ht
      rw [s.clock_queues] at ht'
      rw [hwake, s.clock_thread]
      exact h.wakeTick ht'

lemma WakesAt.run {wake now : ℕ} (h : WakesAt t wake now s) {l : List Event}
    (hrun : Run (restrict Step (SleepsOn t)) s l s') : WakesAt t wake (now + ticksIn l) s' := by
  refine hrun.invariant (P := fun l x => WakesAt t wake (now + ticksIn l) x) h ?_
  rintro l x e _ hx ⟨⟨hadm, rfl⟩, hs⟩
  have hcount : ticksIn (l ++ [e]) = ticksIn l + ticksIn [e] := List.countP_append
  rw [hcount, ← Nat.add_assoc]
  exact hx.step hadm hs

/-- The timer leaves a thread asleep whose time has not come. -/
lemma WakesAt.timerTick {wake now : ℕ} (h : WakesAt t wake now s) (hnow : now + 1 < wake)
    (ht : t ∈ s.queues.toList .sleep) : t ∈ (Gummy.timerTick s).queues.toList .sleep := by
  obtain ⟨v, habs⟩ := h.abs
  obtain ⟨v', -, habs', hkeep⟩ := habs.timerTick fun _ => True
  have hlate : u32 (s.ticks + 1) ≤ s.ticks + 1 := Nat.mod_le _ _
  have hticks := h.ticks
  rw [habs'.sleepers]
  refine hkeep t (habs.sleepers ▸ ht) ?_
  rw [h.wakeTick ht]
  omega

/-- What every state after `sched_init` has, whatever the frequency. -/
theorem reachable_initAt {frequency : ℕ} (h : Reachable (InitAt frequency) Step s) :
    (∃ v, Abs s v []) ∧ s.msPerTick = 1000 / timerFrequency frequency := by
  refine h.invariant (P := fun s => (∃ v, Abs s v []) ∧
    s.msPerTick = 1000 / timerFrequency frequency) ?_ ?_
  · rintro s ⟨s₀, hboot, rfl⟩
    exact ⟨⟨_, Abs.init hboot frequency⟩, rfl⟩
  · rintro s e _ ⟨⟨v, habs⟩, hms⟩ ⟨hadm, rfl⟩
    obtain ⟨v', habs'⟩ := habs.step_abs hadm
    refine ⟨⟨v', habs'⟩, ?_⟩
    cases hrun : s.halted with
    | true => rw [step, hrun, if_pos rfl, hms]
    | false =>
      have hs : SleepsOn ⟨s.currentThread.process + 1, 0⟩ s e := fun _ _ heq => by
        have := congrArg ThreadRef.process heq
        simp at this
      rw [(habs.step_sleepFrame hrun hadm hs).msPerTick, s.clock_msPerTick, hms]

/-! ### The law of `sys_sleep` -/

lemma sleepTicks_lt (s : Kernel) (ms : ℕ) : sleepTicks s ms < 2 ^ 32 :=
  (Nat.div_le_self _ _).trans_lt (u32_lt ms)

/-- The sum wraps around: `sched_thread_sleep` takes the time for one that has passed. -/
lemma handle_sleep_wrapped {ms : ℕ} (hticks : s.ticks < 2 ^ 32)
    (hwrap : 2 ^ 32 ≤ s.ticks + sleepTicks s ms) :
    handle (.sleep ms) s = .done (s.setEax s.currentThread 0) := by
  have hlt := sleepTicks_lt s ms
  have hwake : u32 (s.ticks + sleepTicks s ms) ≤ s.ticks := by
    rw [u32]
    omega
  exact if_pos hwake

/-- The current thread has gone to sleep, up to the call of the scheduler. -/
def fallAsleep (wakeTick : ℕ) (s : Kernel) : Kernel :=
  schedSleep s.currentThread (s.setThread s.currentThread ({ · with wakeTick }))

/-- The sum does not wrap around: the thread goes to sleep until then. -/
lemma handle_sleep_fits {ms : ℕ} (ht : s.currentThread ≠ idleThread)
    (hpos : 0 < sleepTicks s ms) (hfit : s.ticks + sleepTicks s ms < 2 ^ 32) :
    handle (.sleep ms) s = .call .interrupted (fun s => s.setEax s.currentThread 0)
      (fallAsleep (s.ticks + sleepTicks s ms) s) := by
  have hwake : u32 (s.ticks + sleepTicks s ms) = s.ticks + sleepTicks s ms := u32_of_lt hfit
  have hlate : ¬ s.ticks + sleepTicks s ms ≤ s.ticks := by omega
  have hcall : handle (.sleep ms) s = schedThreadSleep (u32 (s.ticks + sleepTicks s ms)) s := rfl
  rw [hcall, hwake, schedThreadSleep]
  exact (if_neg hlate).trans (if_neg ht)

lemma Abs.fallAsleep (h : Abs s v D) (wakeTick : ℕ) :
    Abs (fallAsleep wakeTick s) (v.move .sleep .sleeping v.current) D :=
  h.moveCurrent (f := ({ · with wakeTick })) rfl rfl .sleep .sleeping (by simp) (by simp)

/-- The current thread, when it has gone to sleep. -/
lemma View.mem_sleep_move (hwf : v.WF) :
    v.current ∈ (v.move .sleep .sleeping v.current).queue .sleep :=
  (Denotes.mem_pushList (n := v.current) (k := .sleep) hwf.nodup).2 (Or.inr ⟨rfl, rfl⟩)

/-- The scheduler does not take the thread out of the sleep queue again. -/
lemma Abs.fallAsleep_finish (h : Abs s v D) (wakeTick : ℕ) {rest : Kernel → Kernel}
    (hrest : ∀ x, (rest x).queues = x.queues) :
    s.currentThread ∈
      (Outcome.call .interrupted rest
        (Gummy.fallAsleep wakeTick s)).finish.queues.toList .sleep := by
  have hstate : ((v.move .sleep .sleeping v.current).thread v.current).map ThreadView.state ≠
      some .running := by
    simp [View.move, View.setThread]
  obtain ⟨b, x, w, heq, hsched, habs⟩ := (h.fallAsleep wakeTick).schedule .interrupted
  have hx : s.currentThread ∈ x.queues.toList .sleep := by
    rw [habs.sleepers, hsched.sleep_eq hstate, h.current]
    exact View.mem_sleep_move h.wf
  rw [Outcome.finish, heq]
  cases b with
  | false => exact (hrest x).symm ▸ hx
  | true => exact (resume_queues x).symm ▸ hx

/-- The step in which the thread goes to sleep. -/
lemma Abs.sleep_step (h : Abs s v []) (hrun : s.halted = false) {ms : ℕ}
    (ht : s.currentThread ≠ idleThread) (hpos : 0 < sleepTicks s ms)
    (hfit : s.ticks + sleepTicks s ms < 2 ^ 32) :
    s.currentThread ∈ (Gummy.step s (.sleep ms)).queues.toList .sleep ∧
      WakesAt s.currentThread (s.ticks + sleepTicks s ms) s.ticks
        (Gummy.step s (.sleep ms)) := by
  obtain ⟨v', habs'⟩ := h.step_abs (e := .sleep ms) trivial
  have hstep : Gummy.step s (.sleep ms) = (Gummy.handle (.sleep ms) s).finish := by
    rw [Gummy.step, hrun, if_neg (by simp)]
  rw [hstep, handle_sleep_fits ht hpos hfit] at habs' ⊢
  generalize s.ticks + sleepTicks s ms = wake at habs' ⊢
  have hrest : ∀ x : Kernel, Timeless s.currentThread x (x.setEax x.currentThread 0) :=
    fun x => {}
  have htime : Timeless s.currentThread
      (s.setThread s.currentThread ({ · with wakeTick := wake })) _ :=
    (Timeless.moveTo .sleep .sleeping s.currentThread _).trans
      (.finish .interrupted (Gummy.fallAsleep wake s) hrest)
  refine ⟨h.fallAsleep_finish wake fun x => rfl, ⟨v', habs'⟩, htime.ticks.le, fun _ => ?_⟩
  rw [htime.wakeTick, Kernel.setThread_self]

/-- **How long `sys_sleep` sleeps.**  At any tick count, the call is good if the timer runs at
no more than 1000 Hz and the tick to wake at can still be counted to; otherwise the division is
by zero, or the thread does not sleep at all. -/
theorem fullSleep_iff {frequency : ℕ} (h : Reachable (InitAt frequency) Step s)
    (hrun : s.halted = false) (ht : s.currentThread ≠ idleThread) {now : ℕ}
    (hnow : now < 2 ^ 32) (ms : ℕ) :
    FullSleep { s with ticks := now } ms ↔
      frequency ≤ 1000 ∧ (sleepTicks s ms = 0 ∨ now + sleepTicks s ms < 2 ^ 32) := by
  obtain ⟨⟨v, habs⟩, hms⟩ := reachable_initAt h
  have habs' : Abs { s with ticks := now } v [] :=
    habs.quiet { habs.inv with heap := { habs.inv.heap with } } {}
  have hdiv : s.msPerTick ≠ 0 ↔ frequency ≤ 1000 := by
    rw [hms, timerFrequency]
    split_ifs with hlow
    · simp
      omega
    · rw [Nat.div_ne_zero_iff]
      omega
  constructor
  · intro hfull
    refine ⟨hdiv.1 hfull.divisor, ?_⟩
    by_contra hcon
    obtain ⟨hpos, hwrap⟩ := not_or.1 hcon
    obtain ⟨sp0, rest, s', hcall, -⟩ := hfull.handler (Nat.pos_of_ne_zero hpos)
    rw [handle_sleep_wrapped hnow (not_lt.1 hwrap)] at hcall
    exact Outcome.noConfusion hcall
  · rintro ⟨hfreq, hticks⟩
    have hfit : 0 < sleepTicks s ms → now + sleepTicks s ms < 2 ^ 32 := fun hpos =>
      hticks.resolve_left hpos.ne'
    refine ⟨hdiv.2 hfreq, fun hpos => ?_, fun hpos => ?_, fun l x hl hcount hx => ?_⟩
    · refine ⟨_, _, _, handle_sleep_fits ht hpos (hfit hpos), ?_⟩
      rw [(habs'.fallAsleep _).sleepers, habs'.current]
      exact View.mem_sleep_move habs'.wf
    · exact (habs'.sleep_step hrun ht hpos (hfit hpos)).1
    · have hpos : 0 < sleepTicks s ms := Nat.zero_lt_of_lt hcount
      have hwakes := (habs'.sleep_step hrun ht hpos (hfit hpos)).2.run hl
      refine hwakes.timerTick ?_ hx
      have hcount' : ticksIn l + 1 < sleepTicks s ms := hcount
      have hwake : now + ticksIn l + 1 < now + sleepTicks s ms := by omega
      exact hwake

/-- A second of sleep at 100 Hz, a second before the counter wraps around. -/
theorem fullSleep_bootThread :
    let s := bootThread ⟨fun _ => 0, ⟨fun _ => 0, 0, 0, 0, 0⟩, 0⟩
    FullSleep { s with ticks := 0xFFFFFF00 } 1000 := by
  intro s
  have hreach : Reachable (InitAt 100) Step s :=
    .next .tick (.next (.nthread 0xC0010000 ⟨0, heapBase⟩)
      (.start ⟨_, boot_bootKernel _, rfl⟩) ⟨trivial, rfl⟩) ⟨trivial, rfl⟩
  have hsleep : sleepTicks s 1000 = 100 := by decide +kernel
  refine (fullSleep_iff hreach (by decide +kernel) (by decide +kernel) (by norm_num) 1000).2
    ⟨by norm_num, Or.inr ?_⟩
  rw [hsleep]
  norm_num

/-- The same call one tick before the counter wraps around returns at once; and at 1001 Hz the
divisor is zero. -/
theorem fullSleep_fails_at_wrap :
    let s := bootThread ⟨fun _ => 0, ⟨fun _ => 0, 0, 0, 0, 0⟩, 0⟩
    Reachable (InitAt 100) Step s ∧ s.halted = false ∧ s.currentThread ≠ idleThread ∧
      ¬ FullSleep { s with ticks := 0xFFFFFFFF } 1000 ∧
        ∀ s', InitAt 1001 s' → s'.msPerTick = 0 := by
  intro s
  have hreach : Reachable (InitAt 100) Step s :=
    .next .tick (.next (.nthread 0xC0010000 ⟨0, heapBase⟩)
      (.start ⟨_, boot_bootKernel _, rfl⟩) ⟨trivial, rfl⟩) ⟨trivial, rfl⟩
  refine ⟨hreach, by decide +kernel, by decide +kernel, fun hfull => ?_, ?_⟩
  · have hsleep : sleepTicks { s with ticks := 0xFFFFFFFF } 1000 = 100 := by decide +kernel
    obtain ⟨sp0, rest, s', hcall, -⟩ := hfull.handler (by rw [hsleep]; norm_num)
    rw [handle_sleep_wrapped (by norm_num) (by rw [hsleep]; norm_num)] at hcall
    exact Outcome.noConfusion hcall
  · rintro s' ⟨s₀, -, rfl⟩
    rfl

end Gummy
