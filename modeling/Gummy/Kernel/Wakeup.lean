import Gummy.Kernel.Simulation
import Gummy.Vmm.Walk

/-!
The loop of `timer_handler`, on any queues that are well formed.

The loop walks the list that it takes nodes out of: a node that is due is linked into
`ready_queue` while the loop holds the successor that it read before.  The invariant splits
the list into the nodes that were passed over, which are still linked, and those ahead.
-/

namespace Gummy

open CWord

variable {s : Kernel} {N : ThreadRef → Prop} {K : QueueRef → Prop}
  {L : QueueRef → List ThreadRef}

/-- The nodes that the loop looks at. -/
def wakeVisits : ℕ → Option ThreadRef → Kernel → List ThreadRef
  | 0, _, _ => []
  | _ + 1, none, _ => []
  | fuel + 1, some n, s =>
    let next := s.queues.next n
    let s := if s.ticks ≥ (s.thread n).wakeTick then schedReady n s else s
    n :: wakeVisits fuel next s

/-- The time at which the thread is to wake has come. -/
def Due (s : Kernel) (t : ThreadRef) : Prop := (s.thread t).wakeTick ≤ s.ticks

instance (s : Kernel) : DecidablePred (Due s) := fun t =>
  inferInstanceAs (Decidable ((s.thread t).wakeTick ≤ s.ticks))

/-- The queues after the loop has looked at `l`, behind the nodes `A` that still sleep. -/
def wakeLists (s : Kernel) (L : QueueRef → List ThreadRef) (A l : List ThreadRef) :
    QueueRef → List ThreadRef
  | .ready => L .ready ++ l.filter (Due s ·)
  | .sleep => A ++ l.filter (¬ Due s ·)
  | q => L q

/-- Exactly the due threads of `l` have been made ready. -/
structure Woken (s s' : Kernel) (l : List ThreadRef) : Prop where
  woken : ∀ t ∈ l, Due s t → s'.thread t = { s.thread t with state := .ready }
  asleep : ∀ t, ¬ (t ∈ l ∧ Due s t) → s'.thread t = s.thread t
  frame : s' = { s with queues := s'.queues, thread := s'.thread }

lemma schedReady_frame (n : ThreadRef) (s : Kernel) : schedReady n s =
    { s with queues := (schedReady n s).queues, thread := (schedReady n s).thread } := rfl

lemma schedReady_thread_self (n : ThreadRef) (s : Kernel) :
    (schedReady n s).thread n = { s.thread n with state := .ready } := by
  rw [schedReady, moveTo, Kernel.setThread_self]

lemma schedReady_thread_of_ne {n t : ThreadRef} (s : Kernel) (h : t ≠ n) :
    (schedReady n s).thread t = s.thread t := by
  rw [schedReady, moveTo, Kernel.setThread_of_ne _ _ h]

/-- Waking one thread makes no other one due. -/
lemma due_schedReady (n : ThreadRef) (s : Kernel) (t : ThreadRef) :
    Due (schedReady n s) t ↔ Due s t := by
  have hticks : (schedReady n s).ticks = s.ticks := rfl
  rw [Due, Due, hticks]
  by_cases ht : t = n
  · rw [ht, schedReady_thread_self]
  · rw [schedReady_thread_of_ne s ht]

/-- `sched_ready` of the first of the sleepers ahead. -/
lemma Denotes.schedReady_sleeper (h : Denotes s.queues N K L) (hready : K .ready)
    {n : ThreadRef} {A l : List ThreadRef} (hl : L .sleep = A ++ n :: l) :
    ∃ L', Denotes (schedReady n s).queues N K L' ∧ L' .sleep = A ++ l ∧
      L' .ready = L .ready ++ [n] ∧ ∀ q, q ≠ .ready → q ≠ .sleep → L' q = L q := by
  have hn : n ∈ L .sleep := by simp [hl]
  have hnd := h.nodup .sleep
  rw [hl] at hnd
  have hnA : n ∉ A := by
    intro hA
    exact (List.nodup_append.1 hnd).2.2 n hA n (by simp) rfl
  have hout : ∀ q, q ≠ .sleep → (L q).erase n = L q := by
    intro q hq
    exact List.erase_of_not_mem fun hmem => hq (h.unique hmem hn)
  refine ⟨pushList L .ready n, h.remove_push (h.live _ n hn).2 hready, ?_, ?_, ?_⟩
  · rw [pushList_of_ne L n (by decide), hl, List.erase_append_right _ hnA, List.erase_cons_head]
  · rw [pushList_self, hout .ready (by decide)]
  · intro q hq hsleep
    rw [pushList_of_ne L n hq, hout q hsleep]

namespace Woken

variable {s' : Kernel} {n : ThreadRef} {l : List ThreadRef}

/-- The first sleeper is woken, the loop goes on. -/
lemma cons_due (h : Woken (schedReady n s) s' l) (hdue : Due s n) (hnl : n ∉ l) :
    Woken s s' (n :: l) := by
  have hne : ∀ t ∈ l, t ≠ n := by
    rintro t ht rfl
    exact hnl ht
  refine ⟨fun t ht htdue => ?_, fun t ht => ?_, ?_⟩
  · rcases List.mem_cons.1 ht with rfl | ht
    · rw [h.asleep t fun hmem => hnl hmem.1, schedReady_thread_self]
    · rw [h.woken t ht ((due_schedReady n s t).2 htdue), schedReady_thread_of_ne s (hne t ht)]
  · have htn : t ≠ n := by
      rintro rfl
      exact ht ⟨List.mem_cons_self, hdue⟩
    rw [h.asleep t, schedReady_thread_of_ne s htn]
    rintro ⟨hmem, htdue⟩
    exact ht ⟨List.mem_cons_of_mem n hmem, (due_schedReady n s t).1 htdue⟩
  · rw [h.frame]
    rfl

/-- The first sleeper sleeps on. -/
lemma cons_late (h : Woken s s' l) (hlate : ¬ Due s n) : Woken s s' (n :: l) := by
  refine ⟨fun t ht htdue => ?_, fun t ht => h.asleep t ?_, h.frame⟩
  · rcases List.mem_cons.1 ht with rfl | ht
    · exact absurd htdue hlate
    · exact h.woken t ht htdue
  · rintro ⟨hmem, htdue⟩
    exact ht ⟨List.mem_cons_of_mem n hmem, htdue⟩

end Woken

/-- What the loop does with the sleepers `l` that are ahead of it. -/
lemma Denotes.wakeSleepers (h : Denotes s.queues N K L) (hready : K .ready) (hsleep : K .sleep)
    {A l : List ThreadRef} (hl : L .sleep = A ++ l) {fuel : ℕ} (hfuel : l.length ≤ fuel) :
    Denotes (wakeSleepers fuel l.head? s).queues N K (wakeLists s L A l) ∧
      Woken s (Gummy.wakeSleepers fuel l.head? s) l ∧ wakeVisits fuel l.head? s = l ∧
      Gummy.wakeSleepers fuel l.head? s = Gummy.wakeSleepers l.length l.head? s := by
  induction l generalizing s L A fuel with
  | nil =>
    have hlists : wakeLists s L A [] = L := by
      funext q
      cases q <;> simp [wakeLists, hl]
    have hstop : Gummy.wakeSleepers fuel none s = s := by cases fuel <;> rfl
    rw [List.head?_nil, hstop, hlists]
    refine ⟨h, ⟨fun t ht => by simp at ht, fun _ _ => rfl, rfl⟩, ?_, rfl⟩
    cases fuel <;> rfl
  | cons n l ih =>
    obtain ⟨fuel, rfl⟩ : ∃ k, fuel = k + 1 := Nat.exists_eq_add_of_le' (by simp at hfuel; omega)
    have hfuel : l.length ≤ fuel := by simpa using hfuel
    have hlinked := h.linked .sleep hsleep
    rw [hl] at hlinked
    have hnext := hlinked.next_of_eq_append
    have hnl : n ∉ l := by
      have hnd := (List.nodup_append.1 hlinked.nodup).2.1
      exact (List.nodup_cons.1 hnd).1
    simp only [List.head?_cons, List.length_cons, Gummy.wakeSleepers, wakeVisits, hnext]
    by_cases hwake : s.ticks ≥ (s.thread n).wakeTick
    · -- the node leaves the list, the rest of it stays linked as it was
      have hdue : Due s n := hwake
      rw [if_pos hwake]
      obtain ⟨L', h', hsleep', hready', hother⟩ := h.schedReady_sleeper hready hl
      obtain ⟨hdenotes, hwoken, hvisits, hfuel⟩ := ih h' hsleep' hfuel
      have hlists : wakeLists (schedReady n s) L' A l = wakeLists s L A (n :: l) := by
        funext q
        cases q with
        | ready => simp [wakeLists, hready', hdue, due_schedReady]
        | sleep => simp [wakeLists, hdue, due_schedReady]
        | _ => exact hother _ (by simp) (by simp)
      rw [← hlists, hvisits]
      exact ⟨hdenotes, hwoken.cons_due hdue hnl, rfl, hfuel⟩
    · -- the node is passed over
      have hlate : ¬ Due s n := hwake
      rw [if_neg hwake]
      obtain ⟨hdenotes, hwoken, hvisits, hfuel⟩ := ih h (A := A ++ [n]) (by simp [hl]) hfuel
      have hlists : wakeLists s L (A ++ [n]) l = wakeLists s L A (n :: l) := by
        funext q
        cases q <;> simp [wakeLists, hlate]
      rw [← hlists, hvisits]
      exact ⟨hdenotes, hwoken.cons_late hlate, rfl, hfuel⟩

/-- **The timer wakes whoever is due, in order.**  For all well-formed queues and every tick,
the loop of `timer_handler` moves exactly the threads that are due from `sleep_queue` to the
end of `ready_queue`, keeps the order of both, looks at each sleeper once, and stops. -/
theorem timerTick_wakes (h : Denotes s.queues N K L) (hready : K .ready) (hsleep : K .sleep) :
    let s₁ := { s with ticks := u32 (s.ticks + 1) }
    Denotes (timerTick s).queues N K (wakeLists s₁ L [] (L .sleep)) ∧
      Woken s₁ (timerTick s) (L .sleep) ∧
      ∀ fuel, (L .sleep).length ≤ fuel →
        wakeVisits fuel (s.queues.headNext .sleep) s₁ = L .sleep ∧
          wakeSleepers fuel (s.queues.headNext .sleep) s₁ = timerTick s := by
  intro s₁
  have h₁ : Denotes s₁.queues N K L := h
  have hloop : timerTick s = wakeSleepers (L .sleep).length (L .sleep).head? s₁ := by
    rw [timerTick, ← h.size .sleep hsleep, ← h.headNext .sleep hsleep]
  obtain ⟨hdenotes, hwoken, -, -⟩ := h₁.wakeSleepers hready hsleep (A := []) rfl le_rfl
  rw [← hloop] at hdenotes hwoken
  refine ⟨hdenotes, hwoken, fun fuel hfuel => ?_⟩
  rw [h.headNext .sleep hsleep, hloop]
  exact (h₁.wakeSleepers hready hsleep (A := []) rfl hfuel).2.2

/-- A kernel with one sleeper, whose time has come. -/
def sleeperKernel : Kernel :=
  { bootKernel bootMachine with
    queues := queuePush (bootKernel bootMachine).queues .sleep idleThread }

lemma denotes_sleeperKernel : Denotes sleeperKernel.queues (fun _ => True) (fun _ => True)
    (Denotes.pushList (fun _ => []) .sleep idleThread) := by
  have hempty : Denotes (bootKernel bootMachine).queues (fun _ => True) (fun _ => True)
      fun _ => [] :=
    ⟨fun _ _ => .nil, fun _ _ => rfl, fun _ _ => rfl, fun _ _ => rfl,
      fun n _ k => by simp [bootKernel], fun k n hn => by simp at hn⟩
  exact hempty.push trivial trivial

theorem timerTick_wakes_one :
    Denotes (timerTick sleeperKernel).queues (fun _ => True) (fun _ => True)
      (wakeLists { sleeperKernel with ticks := 1 }
        (Denotes.pushList (fun _ => []) .sleep idleThread) [] [idleThread]) ∧
    Woken { sleeperKernel with ticks := 1 } (timerTick sleeperKernel) [idleThread] ∧
    wakeVisits 1 (sleeperKernel.queues.headNext .sleep) { sleeperKernel with ticks := 1 } =
      [idleThread] := by
  obtain ⟨hdenotes, hwoken, hvisits⟩ := timerTick_wakes denotes_sleeperKernel trivial trivial
  exact ⟨hdenotes, hwoken, (hvisits 1 le_rfl).1⟩

end Gummy
