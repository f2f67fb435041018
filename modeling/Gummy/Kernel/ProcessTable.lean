import Gummy.Kernel.Simulation

/-!
The process table and the registers that follow the current thread.

`View.Tree` says that the fathers form a forest in which pids grow; it is kept as long as
pids do not wrap.  Together with the invariant of the kernel it shows that nothing that
is linked anywhere points to a process that is gone.
-/

namespace Gummy

open CWord

open View (Act Acts GiveUp Resumes Schedule After)

open Transition (Reachable)

variable {takes waits : View → Prop} {v v' : View}

namespace View

/-- Pids are pairwise distinct, and a father is a listed process with a smaller pid. -/
structure Tree (v : View) : Prop where
  pid_le : ∀ p ∈ v.processes, (v.proc p).pid ≤ v.created
  pid_inj : ∀ p ∈ v.processes, ∀ q ∈ v.processes, (v.proc p).pid = (v.proc q).pid → p = q
  dad : ∀ p ∈ v.processes, ∀ d, (v.proc p).dad = some d →
    d ∈ v.processes ∧ (v.proc d).pid < (v.proc p).pid

lemma Tree.init : View.init.Tree where
  pid_le _ _ := le_rfl
  pid_inj p hp q hq _ := (List.mem_singleton.1 hp).trans (List.mem_singleton.1 hq).symm
  dad _ _ _ hd := by simp [View.init] at hd

/-- Only the list, the pids and the fathers matter. -/
lemma Tree.congr (h : v.Tree) (hP : v'.processes = v.processes) (hc : v'.created = v.created)
    (hpid : ∀ p, (v'.proc p).pid = (v.proc p).pid) (hdad : ∀ p, (v'.proc p).dad = (v.proc p).dad) :
    v'.Tree := by
  refine ⟨?_, ?_, ?_⟩
  · simpa only [hP, hc, hpid] using h.pid_le
  · simpa only [hP, hpid] using h.pid_inj
  · simpa only [hP, hpid, hdad] using h.dad

/-- Changing a process without changing its pid and its father. -/
lemma Tree.setProc (h : v.Tree) (p : ℕ) {f : ProcessView → ProcessView}
    (hpid : (f (v.proc p)).pid = (v.proc p).pid) (hdad : (f (v.proc p)).dad = (v.proc p).dad) :
    (v.setProc p f).Tree := by
  refine h.congr rfl rfl (fun q => ?_) fun q => ?_
  all_goals
    by_cases hq : q = p
    · subst hq
      simpa [View.setProc]
    · simp [View.setProc, hq]

lemma Tree.create (h : v.Tree) {p : ℕ} (hp : p ∉ v.processes)
    (hcur : v.current.process ∈ v.processes) (hlt : v.created + 1 < 2 ^ 32) :
    (v.create p).Tree := by
  have hself : (v.create p).proc p =
      ⟨v.created + 1, some v.current.process, .normal, [], [], []⟩ := by
    simp [View.create, u32_of_lt hlt]
  have hproc : ∀ q ∈ v.processes, (v.create p).proc q = v.proc q := by
    intro q hq
    refine Function.update_of_ne ?_ _ _
    rintro rfl
    exact hp hq
  have hmem : ∀ q, q ∈ (v.create p).processes ↔ q = p ∨ q ∈ v.processes := fun q =>
    List.mem_cons
  refine ⟨fun q hq => ?_, fun q hq r hr heq => ?_, fun q hq d hd => ?_⟩
  · obtain rfl | hq := (hmem q).1 hq
    · rw [hself]
      exact le_rfl
    · rw [hproc q hq]
      exact (h.pid_le q hq).trans (Nat.le_succ _)
  · -- the new pid is larger than all others
    have hle : ∀ r ∈ v.processes, (v.proc r).pid ≠ v.created + 1 := fun r hr =>
      ((h.pid_le r hr).trans_lt (Nat.lt_succ_self _)).ne
    obtain hqp | hqv := (hmem q).1 hq
    · obtain hrp | hrv := (hmem r).1 hr
      · rw [hqp, hrp]
      · rw [hqp, hself, hproc r hrv] at heq
        exact absurd heq.symm (hle r hrv)
    · obtain hrp | hrv := (hmem r).1 hr
      · rw [hrp, hself, hproc q hqv] at heq
        exact absurd heq (hle q hqv)
      · rw [hproc q hqv, hproc r hrv] at heq
        exact h.pid_inj q hqv r hrv heq
  · obtain rfl | hq := (hmem q).1 hq
    · rw [hself] at hd ⊢
      obtain rfl := Option.some.inj hd
      rw [hproc _ hcur]
      exact ⟨(hmem _).2 (Or.inr hcur), Nat.lt_succ_of_le (h.pid_le _ hcur)⟩
    · rw [hproc q hq] at hd
      obtain ⟨hd, hlt⟩ := h.dad q hq d hd
      rw [hproc q hq, hproc d hd]
      exact ⟨(hmem d).2 (Or.inr hd), hlt⟩

lemma Tree.destroy (h : v.Tree) {p : ℕ} (hnd : v.processes.Nodup) (hp : p ∈ v.processes) :
    (v.destroy p).Tree := by
  have hmem : ∀ q, q ∈ (v.destroy p).processes ↔ q ≠ p ∧ q ∈ v.processes := fun q =>
    hnd.mem_erase_iff
  refine ⟨fun q hq => ?_, fun q hq r hr heq => ?_, fun q hq d hd => ?_⟩
  · exact h.pid_le q ((hmem q).1 hq).2
  · exact h.pid_inj q ((hmem q).1 hq).2 r ((hmem r).1 hr).2 heq
  · have hq := ((hmem q).1 hq).2
    change (if (v.proc q).dad = some p then (v.proc p).dad else (v.proc q).dad) = some d at hd
    by_cases hqp : (v.proc q).dad = some p
    · -- the new father is the old grandfather
      rw [if_pos hqp] at hd
      have hlt := (h.dad q hq p hqp).2
      obtain ⟨hdm, hlt'⟩ := h.dad p hp d hd
      refine ⟨(hmem d).2 ⟨?_, hdm⟩, hlt'.trans hlt⟩
      rintro rfl
      exact lt_irrefl _ hlt'
    · rw [if_neg hqp] at hd
      obtain ⟨hdm, hlt⟩ := h.dad q hq d hd
      refine ⟨(hmem d).2 ⟨?_, hdm⟩, hlt⟩
      rintro rfl
      exact hqp hd

/-- The count of processes never goes back. -/
lemma Act.created_le (h : Act takes v v') : v.created ≤ v'.created := by
  cases h with
  | create hp hi => exact Nat.le_succ _
  | send m hp hs hm =>
    rw [View.send]
    split <;> exact le_rfl
  | _ => exact le_rfl

lemma Tree.act (hwf : v.WF) (h : v.created < 2 ^ 32 → v.Tree) (hact : Act takes v v')
    (hlt : v'.created < 2 ^ 32) : v'.Tree := by
  have hv := h (hact.created_le.trans_lt hlt)
  cases hact with
  | wake h => exact hv.congr rfl rfl (fun _ => rfl) fun _ => rfl
  | start ctx hp h => exact hv.congr rfl rfl (fun _ => rfl) fun _ => rfl
  | create hp hi => exact hv.create hp hwf.current_mem hlt
  | destroy hp hi hcur => exact hv.destroy hwf.processes_nodup hp
  | @send p m hp hs hm =>
    have hpost : (v.post p m).Tree := hv.setProc p rfl rfl
    rw [View.send]
    split
    · exact hpost
    · exact hpost.congr rfl rfl (fun _ => rfl) fun _ => rfl
  | take hm hd ht => exact hv.setProc _ rfl rfl

lemma Tree.giveUp (hv : v.Tree) {sp0 : Context} (hg : GiveUp waits v sp0 v') : v'.Tree := by
  cases hg with
  | kill h =>
    have hdrop : ({ v with queue := dropProcess v.queue v.current.process } : View).Tree :=
      hv.congr rfl rfl (fun _ => rfl) fun _ => rfl
    exact hdrop.setProc v.current.process rfl rfl
  | _ => exact hv.congr rfl rfl (fun _ => rfl) fun _ => rfl

lemma Schedule.processes_eq {sp0 : Context} {b : Bool} (h : Schedule sp0 v b v') :
    v'.processes = v.processes ∧ v'.proc = v.proc ∧ v'.created = v.created := by
  cases h with
  | idle h => exact ⟨rfl, rfl, rfl⟩
  | keep h hn => exact ⟨requeue_processes sp0 v, requeue_proc sp0 v, requeue_created sp0 v⟩
  | switch h hn hs => exact ⟨requeue_processes sp0 v, requeue_proc sp0 v, requeue_created sp0 v⟩

lemma Tree.step (h : v.created < 2 ^ 32 → v.Tree)
    (hs : View.Step takes waits v v') : v'.created < 2 ^ 32 → v'.Tree := by
  refine hs.invariant (J := fun v => v.created < 2 ^ 32 → v.Tree)
    (K := fun _ v => v.created < 2 ^ 32 → v.Tree) ?_ (fun _ _ h => h) ?_ ?_ h
  · exact fun v v' hwf hJ hact => Tree.act hwf hJ hact
  · intro v v' sp0 _ _ hJ hg hlt
    have hc : v'.created = v.created := by cases hg <;> rfl
    exact (hJ (hc ▸ hlt)).giveUp hg
  · intro v v₁ v₂ sp0 b _ hJ hs _ hafter hlt
    obtain ⟨hP, hproc, hc⟩ := hs.processes_eq
    have hc₂ : v₂.created = v₁.created := by cases hafter <;> rfl
    have hv₁ : v₁.Tree := (hJ (by rwa [← hc, ← hc₂])).congr hP hc (fun p => by rw [hproc])
      fun p => by rw [hproc]
    cases hafter with
    | received h hm hd => exact hv₁.setProc _ rfl rfl
    | _ => exact hv₁.congr rfl rfl (fun _ => rfl) fun _ => rfl

end View

end Gummy
