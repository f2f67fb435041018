import Gummy.Lib.Transition
import Gummy.Trap

/-!
One processor for all threads.

`Processor` is the machine with its stacks; each thread that waits has the frames of its interrupts
on its kernel stack, and `sp0` points to the last one.  `Virtual` has no memory: every thread has
registers of its own, and a pile of those it goes back to.  What the machine does is what the
virtual processors do.
-/

namespace Gummy

open CWord ByteMem

open Transition (Run restrict)

/-! ### The machine -/

structure Processor where
  core : Core
  current : ThreadRef
  sp0 : ThreadRef → ℕ
  /-- in the TSS -/
  esp0 : ℕ
  /-- the kernel stacks: where they start, and where they end -/
  lo : ThreadRef → ℕ
  hi : ThreadRef → ℕ
  /-- where the frames of the interrupts lie that a thread has not returned from, the last one
  first; nothing that runs looks at it -/
  frames : ThreadRef → List ℕ

/-- The fields of an `interrupt_context_t`, in their order. -/
def InterruptContext.words (ctx : InterruptContext) : List ℕ :=
  [ctx.gs, ctx.fs, ctx.es, ctx.ds, ctx.esi, ctx.edi, ctx.ebp, ctx.edx, ctx.ecx, ctx.ebx, ctx.eax,
    ctx.intNum, ctx.errorCode, ctx.eip, ctx.cs, ctx.eflags, ctx.esp, ctx.ss]

/-- The registers that the context at `a` stands for. -/
def InterruptContext.regs (ctx : InterruptContext) (a : ℕ) : Regs
  | .gs => ctx.gs
  | .fs => ctx.fs
  | .es => ctx.es
  | .ds => ctx.ds
  | .esi => ctx.esi
  | .edi => ctx.edi
  | .ebp => ctx.ebp
  | .edx => ctx.edx
  | .ecx => ctx.ecx
  | .ebx => ctx.ebx
  | .eax => ctx.eax
  | .eip => ctx.eip
  | .cs => ctx.cs
  | .eflags => ctx.eflags
  | .esp => if ctx.cs % 4 = 3 then ctx.esp else a + 64
  | .ss => ctx.ss

/-- `sched_create_thread`, as far as the new kernel stack is concerned. -/
def layFrame (stack0 : ℕ) (ctx : InterruptContext) (m : ByteMem) : ByteMem :=
  (m.store stack0 (List.replicate kernelStackSize 0)).writeWords
    (stack0 + kernelStackSize - 72) ctx.words

/-- What happens, and what it leaves in the registers where the machine alone does not say. -/
inductive Doing
  | compute (r : Regs)
  | enter (r : Regs)
  | leave
  | switch (t : ThreadRef)
  | setEax (v : ℕ)
  | create (t : ThreadRef) (r : Regs)
  | destroy (t : ThreadRef)

namespace Processor

/-- A thread that runs or can go on. -/
def Live (p : Processor) (t : ThreadRef) : Prop := t = p.current ∨ p.frames t ≠ []

/-- The end of what is free on the kernel stack of the current thread. -/
def free (p : Processor) : ℕ := (p.frames p.current).headD (p.hi p.current)

def setFrames (t : ThreadRef) (l : List ℕ) (p : Processor) : Processor :=
  { p with frames := Function.update p.frames t l }

/-- What the code between two interrupts keeps to: it stays at its privilege level, on its own
stack, and below the frames of the interrupts it will return from. -/
structure Keeps (p : Processor) (c : Core) : Prop where
  valid : c.regs.Valid
  ring : c.regs.User ↔ p.core.regs.User
  esp : ¬ c.regs.User → p.lo p.current ≤ c.regs .esp ∧ c.regs .esp ≤ p.free
  own : ∀ x, p.free ≤ x → x < p.hi p.current → c.mem x = p.core.mem x
  others : ∀ t, t ≠ p.current → p.frames t ≠ [] → ∀ x, p.lo t ≤ x → x < p.hi t →
    c.mem x = p.core.mem x

/-- The machine, with the calls that the kernel makes. -/
inductive Step (p : Processor) : Doing → Processor → Prop
  /-- code of the current thread -/
  | compute {c : Core} (h : p.Keeps c) : Step p (.compute c.regs) { p with core := c }
  /-- an interrupt -/
  | enter {i entry : ℕ} {error : Option ℕ} (hi : i < 256)
      (hisSome : error.isSome ↔ i ∈ errorVectors) (herror : ∀ e ∈ error, e < 2 ^ 32)
      (hentry : entry < 2 ^ 32)
      (hroom : ¬ p.core.regs.User → p.lo p.current + 76 ≤ p.core.regs .esp) :
      Step p (.enter (enterHandler i error p.esp0 entry p.core).regs)
        ({ p with core := enterHandler i error p.esp0 entry p.core }.setFrames p.current
          (p.core.regs.frameAt p.esp0 :: p.frames p.current))
  /-- `interrupt_handler` returns -/
  | leave {l : List ℕ} (hl : p.frames p.current = (p.core.regs .esp + 4) :: l)
      (hkernel : ¬ p.core.regs.User) :
      Step p .leave ({ p with core := exec isrReturn p.core }.setFrames p.current l)
  /-- `schedule(ctx)` and `switch_context`, for another thread -/
  | switch {t : ThreadRef} {ctx a : ℕ} {l l' : List ℕ} (hne : t ≠ p.current)
      (hctx : p.frames p.current = ctx :: l) (ht : p.frames t = a :: l')
      (hkernel : ¬ p.core.regs.User) :
      Step p (.switch t)
        ({ p with
          core := restoreAt (p.sp0 t) p.core
          current := t
          sp0 := Function.update p.sp0 p.current ctx
          esp0 := if t = idleThread then p.esp0 else p.hi t }.setFrames t l')
  /-- `ctx->eax = ret` -/
  | setEax {v ctx : ℕ} {l : List ℕ} (hctx : p.frames p.current = ctx :: l) (hv : v < 2 ^ 32) :
      Step p (.setEax v)
        { p with core := { p.core with mem := p.core.mem.write32 (ctx + 40) v } }
  /-- `sched_create_thread`: the heap gives a stack that overlaps with no other -/
  | create {t : ThreadRef} {stack0 loc sp : ℕ} (ht : ¬ p.Live t) (hi : t ≠ idleThread)
      (hend : stack0 + kernelStackSize + 8 < 2 ^ 32)
      (hapart : ∀ u, p.Live u → p.hi u ≤ stack0 ∨ stack0 + kernelStackSize ≤ p.lo u)
      (hloc : loc < 2 ^ 32) (hsp : sp < 2 ^ 32) :
      Step p (.create t ((initialContext t.process loc sp).regs (stack0 + kernelStackSize - 72)))
        ({ p with
          core := { p.core with
            mem := layFrame stack0 (initialContext t.process loc sp) p.core.mem }
          sp0 := Function.update p.sp0 t (stack0 + kernelStackSize - 72)
          lo := Function.update p.lo t stack0
          hi := Function.update p.hi t (stack0 + kernelStackSize)
          }.setFrames t [stack0 + kernelStackSize - 72])
  /-- `sched_destroy_thread` -/
  | destroy {t : ThreadRef} (ht : t ≠ p.current) (hi : t ≠ idleThread) :
      Step p (.destroy t) (p.setFrames t [])

end Processor

/-! ### The virtual processors -/

/-- Registers for each thread. -/
structure Virtual where
  current : ThreadRef
  regs : Regs
  /-- what a thread goes back to, the last interrupt first -/
  saved : ThreadRef → List Regs

namespace Virtual

def save (t : ThreadRef) (l : List Regs) (v : Virtual) : Virtual :=
  { v with saved := Function.update v.saved t l }

/-- What happens to the registers of the threads. -/
def step (v : Virtual) : Doing → Virtual
  | .compute r => { v with regs := r }
  | .enter r => { v.save v.current (v.regs :: v.saved v.current) with regs := r }
  | .leave =>
    match v.saved v.current with
    | [] => v
    | r :: l => { v.save v.current l with regs := r }
  | .switch t =>
    match v.saved t with
    | [] => v
    | r :: l => { v.save t l with current := t, regs := r }
  | .setEax x =>
    match v.saved v.current with
    | [] => v
    | r :: l => v.save v.current (Function.update r .eax x :: l)
  | .create t r => v.save t [r]
  | .destroy t => v.save t []

end Virtual

/-! ### The frames on a stack -/

section Nested

variable {m m' : ByteMem} {lo hi a : ℕ} {l : List ℕ} {r : Regs} {rs : List Regs}

lemma Regs.frameSize_eq : r.frameSize = 64 + if r.User then 8 else 0 := by
  unfold Regs.frameSize
  split_ifs <;> rfl

/-- A frame depends on its own bytes only. -/
lemma Frame.congr (h : Frame m a r) (hm : ∀ x, a ≤ x → x < a + r.frameSize → m' x = m x) :
    Frame m' a r := by
  obtain ⟨i, e, hi, he, hw⟩ := h.words
  refine ⟨h.valid, ⟨i, e, hi, he, hw.congr fun x hx hx' => hm x hx ?_⟩, h.lt, h.kernel⟩
  rwa [length_frameWords] at hx'

/-- The frames of a thread: each leads back to the part of the stack where the one before it lies,
and the one of user code is the first of all. -/
def Nested (m : ByteMem) (lo hi : ℕ) : List ℕ → List Regs → Prop
  | [], [] => True
  | a :: l, r :: rs =>
    (Frame m a r ∧ lo ≤ a ∧ a + r.frameSize ≤ l.headD hi ∧ (r.User → l = [] ∧ a + 72 = hi)) ∧
      Nested m lo hi l rs
  | _, _ => False

lemma Nested.nil_left (h : Nested m lo hi [] rs) : rs = [] := by
  cases rs with
  | nil => rfl
  | cons r rs => exact h.elim

lemma Nested.cons_left (h : Nested m lo hi (a :: l) rs) : ∃ r rs', rs = r :: rs' := by
  cases rs with
  | nil => exact h.elim
  | cons r rs => exact ⟨r, rs, rfl⟩

/-- No frame goes beyond the end of the stack. -/
lemma Nested.headD_le (h : Nested m lo hi l rs) : l.headD hi ≤ hi := by
  induction l generalizing rs with
  | nil => exact le_rfl
  | cons a l ih =>
    obtain ⟨r, rs, rfl⟩ := h.cons_left
    obtain ⟨⟨-, -, hle, -⟩, hl⟩ := h
    exact (Nat.le_of_add_right_le hle).trans (ih hl)

lemma Nested.lo_le (h : Nested m lo hi (a :: l) rs) : lo ≤ a := by
  obtain ⟨r, rs, rfl⟩ := h.cons_left
  exact h.1.2.1

/-- Frames depend on what lies from the last one on. -/
lemma Nested.congr (h : Nested m lo hi l rs)
    (hm : ∀ x, l.headD hi ≤ x → x < hi → m' x = m x) : Nested m' lo hi l rs := by
  induction l generalizing rs with
  | nil =>
    obtain rfl := h.nil_left
    trivial
  | cons a l ih =>
    obtain ⟨r, rs, rfl⟩ := h.cons_left
    obtain ⟨⟨hframe, hlo, hle, huser⟩, hl⟩ := h
    have hend := hl.headD_le
    refine ⟨⟨hframe.congr fun x hx hx' => hm x hx ?_, hlo, hle, huser⟩, ih hl fun x hx hx' => ?_⟩
    · exact hx'.trans_le (hle.trans hend)
    · exact hm x ((Nat.le_of_add_right_le hle).trans hx) hx'

/-- The value that a system call returns is put into the frame. -/
lemma Frame.setEax {v : ℕ} (h : Frame m a r) (hv : v < 2 ^ 32) :
    Frame (m.write32 (a + 40) v) a (Function.update r .eax v) := by
  obtain ⟨i, e, hi, he, hw⟩ := h.words
  have hother : ∀ x, x ≠ .eax → Function.update r .eax v x = r x := fun x hx =>
    Function.update_of_ne hx ..
  have hcs : Function.update r .eax v .cs = r .cs := hother .cs (by simp)
  have huser : Regs.User (Function.update r .eax v) ↔ r.User := by
    show Function.update r .eax v .cs % 4 = 3 ↔ _
    rw [hcs]
  refine ⟨⟨fun x => ?_, ?_⟩, ⟨i, e, hi, he, ?_⟩, h.lt, fun hu => ?_⟩
  · by_cases hx : x = .eax
    · rw [hx, Function.update_self]
      exact hv
    · rw [hother x hx]
      exact h.valid.lt x
  · have hring := h.valid.ring
    rwa [huser, hcs, hother .ss (by simp)]
  · have hsplit : ∀ r' : Regs, frameWords r' i e = [r' .gs, r' .fs, r' .es, r' .ds, r' .esi,
        r' .edi, r' .ebp, r' .edx, r' .ecx, r' .ebx] ++ r' .eax :: ([i, e, r' .eip, r' .cs,
        r' .eflags] ++ if r'.User then [r' .esp, r' .ss] else []) := fun _ => rfl
    rw [hsplit] at hw
    have hset := hw.set hv
    rw [hsplit, Function.update_self]
    simp only [huser, hcs, hother _ (by simp : Reg.gs ≠ .eax), hother _ (by simp : Reg.fs ≠ .eax),
      hother _ (by simp : Reg.es ≠ .eax), hother _ (by simp : Reg.ds ≠ .eax),
      hother _ (by simp : Reg.esi ≠ .eax), hother _ (by simp : Reg.edi ≠ .eax),
      hother _ (by simp : Reg.ebp ≠ .eax), hother _ (by simp : Reg.edx ≠ .eax),
      hother _ (by simp : Reg.ecx ≠ .eax), hother _ (by simp : Reg.ebx ≠ .eax),
      hother _ (by simp : Reg.eip ≠ .eax), hother _ (by simp : Reg.eflags ≠ .eax),
      hother _ (by simp : Reg.esp ≠ .eax), hother _ (by simp : Reg.ss ≠ .eax)]
    exact hset
  · rw [hother .esp (by simp)]
    exact h.kernel fun h => hu (huser.2 h)

/-- The last two words of a context count for user code only. -/
lemma InterruptContext.words_eq (ctx : InterruptContext) (a : ℕ) :
    ctx.words = frameWords (ctx.regs a) ctx.intNum ctx.errorCode ++
      if ctx.cs % 4 = 3 then [] else [ctx.esp, ctx.ss] := by
  by_cases h : ctx.cs % 4 = 3
  · have hu : (ctx.regs a).User := h
    have hesp : ctx.regs a .esp = ctx.esp := if_pos h
    rw [frameWords, if_pos hu, if_pos h, hesp]
    rfl
  · have hu : ¬ (ctx.regs a).User := h
    rw [frameWords, if_neg hu, if_neg h]
    rfl

lemma initialContext_words {proc loc sp : ℕ} (hloc : loc < 2 ^ 32) (hsp : sp < 2 ^ 32) :
    ∀ v ∈ (initialContext proc loc sp).words, v < 2 ^ 32 := by
  intro v hv
  by_cases hp : proc = idleProcess <;>
    simp only [InterruptContext.words, initialContext, hp, ne_eq, not_true_eq_false,
      not_false_eq_true, if_true, if_false, List.mem_cons, List.not_mem_nil, or_false] at hv <;>
    omega

lemma initialContext_valid {proc loc sp : ℕ} (hloc : loc < 2 ^ 32) (hsp : sp < 2 ^ 32)
    (ha : a + 64 < 2 ^ 32) : ((initialContext proc loc sp).regs a).Valid := by
  by_cases hp : proc = idleProcess
  · have hctx : initialContext proc loc sp = ⟨0x10, 0x10, 0x10, 0x10, 0, 0, 0, 0, 0, 0, 0, 0, 0,
        loc, 0x08, 0x202, 0, 0x10⟩ := by simp [initialContext, hp]
    rw [hctx]
    refine ⟨fun x => ?_, Or.inr ⟨by simp [InterruptContext.regs], rfl⟩⟩
    cases x with
    | eip => exact hloc
    | esp =>
      simp only [InterruptContext.regs, Reg.bits]
      split_ifs <;> omega
    | _ => simp [InterruptContext.regs, Reg.bits]
  · have hctx : initialContext proc loc sp = ⟨0x23, 0x23, 0x23, 0x23, 0, 0, 0, 0, 0, 0, 0, 0, 0,
        loc, 0x1B, 0x202, sp, 0x23⟩ := by simp [initialContext, hp]
    rw [hctx]
    refine ⟨fun x => ?_, Or.inl (by norm_num : 0x1B % 4 = 3)⟩
    cases x with
    | eip => exact hloc
    | esp =>
      simp only [InterruptContext.regs, Reg.bits]
      split_ifs <;> omega
    | _ => simp [InterruptContext.regs, Reg.bits]

/-- The frame of a new thread. -/
lemma frame_layFrame {ctx : InterruptContext} {stack0 : ℕ} (hv : (ctx.regs a).Valid)
    (hw : ∀ v ∈ ctx.words, v < 2 ^ 32) (ha : a = stack0 + kernelStackSize - 72)
    (hlt : a + 72 < 2 ^ 32) : Frame (layFrame stack0 ctx m) a (ctx.regs a) := by
  have hwords : (layFrame stack0 ctx m).Words a ctx.words := by
    rw [layFrame, ← ha]
    exact words_writeWords hw
  rw [ctx.words_eq a] at hwords
  refine ⟨hv, ⟨ctx.intNum, ctx.errorCode, hw _ ?_, hw _ ?_, (words_append.1 hwords).1⟩, hlt,
    fun hu => if_neg hu⟩
  · simp [InterruptContext.words]
  · simp [InterruptContext.words]

end Nested

/-! ### The machine does what the virtual processors do -/

/-- The virtual processors of a machine. -/
structure Refines (p : Processor) (v : Virtual) : Prop where
  current : v.current = p.current
  regs : v.regs = p.core.regs
  valid : p.core.regs.Valid
  nested : ∀ t, Nested p.core.mem (p.lo t) (p.hi t) (p.frames t) (v.saved t)
  hi : ∀ t, p.Live t → p.hi t + 8 < 2 ^ 32
  apart : ∀ t u, p.Live t → p.Live u → t ≠ u → p.hi t ≤ p.lo u ∨ p.hi u ≤ p.lo t
  sp0 : ∀ t, t ≠ p.current → ∀ a l, p.frames t = a :: l → p.sp0 t = a
  user : p.core.regs.User → p.frames p.current = [] ∧ p.current ≠ idleThread
  kernel : ¬ p.core.regs.User → p.lo p.current ≤ p.core.regs .esp ∧ p.core.regs .esp ≤ p.free
  esp0 : p.current ≠ idleThread → p.esp0 = p.hi p.current
  idle : ∀ r ∈ v.saved idleThread, ¬ r.User
  room : ∀ t, p.Live t → t ≠ idleThread → p.lo t + 76 ≤ p.hi t

lemma Processor.setFrames_self (p : Processor) (t : ThreadRef) (l : List ℕ) :
    (p.setFrames t l).frames t = l := Function.update_self ..

lemma Processor.setFrames_of_ne (p : Processor) {t u : ThreadRef} (l : List ℕ) (h : u ≠ t) :
    (p.setFrames t l).frames u = p.frames u := Function.update_of_ne h ..

lemma Virtual.saved_save_self (v : Virtual) (t : ThreadRef) (l : List Regs) :
    (v.save t l).saved t = l := Function.update_self ..

lemma Virtual.saved_save_of_ne (v : Virtual) {t u : ThreadRef} (l : List Regs) (h : u ≠ t) :
    (v.save t l).saved u = v.saved u := Function.update_of_ne h ..

lemma Virtual.idle_save {v : Virtual} {t : ThreadRef} {l : List Regs}
    (h : ∀ r ∈ v.saved idleThread, ¬ r.User) (hl : t = idleThread → ∀ r ∈ l, ¬ r.User) :
    ∀ r ∈ (v.save t l).saved idleThread, ¬ r.User := by
  intro r hr
  rcases eq_or_ne idleThread t with rfl | ht
  · rw [v.saved_save_self] at hr
    exact hl rfl r hr
  · rw [v.saved_save_of_ne l ht] at hr
    exact h r hr

namespace Refines

variable {p : Processor} {v : Virtual}

lemma free_le (h : Refines p v) : p.free ≤ p.hi p.current := (h.nested p.current).headD_le

lemma lo_le_free (h : Refines p v) : p.lo p.current ≤ p.free := by
  by_cases hu : p.core.regs.User
  · obtain ⟨hnil, hne⟩ := h.user hu
    have hroom := h.room _ (.inl rfl) hne
    rw [Processor.free, hnil]
    exact (Nat.le_add_right _ _).trans hroom
  · obtain ⟨hlo, hfree⟩ := h.kernel hu
    exact hlo.trans hfree

/-- What is written to the free part of the stack of the current thread changes no frame. -/
lemma nested_write (h : Refines p v) {m : ByteMem} {b : ℕ} (hlo : p.lo p.current ≤ b)
    (hm : ∀ x, x < b ∨ p.free ≤ x → m x = p.core.mem x) (t : ThreadRef) :
    Nested m (p.lo t) (p.hi t) (p.frames t) (v.saved t) := by
  refine (h.nested t).congr fun x hx hx' => hm x ?_
  by_cases ht : t = p.current
  · rw [ht] at hx
    exact .inr hx
  · cases hl : p.frames t with
    | nil =>
      -- a thread without frames
      rw [hl] at hx
      exact absurd hx hx'.not_ge
    | cons a l =>
      have hnested := h.nested t
      rw [hl] at hx hnested
      have hlive : p.Live t := .inr (by rw [hl]; simp)
      have hend := h.free_le
      rcases h.apart t p.current hlive (.inl rfl) ht with happ | happ
      · exact .inl (hx'.trans_le (happ.trans hlo))
      · exact .inr ((hend.trans happ).trans (hnested.lo_le.trans hx))

/-- The frame that is left comes off the stack of its thread. -/
lemma pop (h : Refines p v) {t : ThreadRef} {a : ℕ} {l : List ℕ} (hl : p.frames t = a :: l) :
    ∃ r rs, v.saved t = r :: rs ∧ Frame p.core.mem a r ∧ p.lo t ≤ a ∧
      a + r.frameSize ≤ l.headD (p.hi t) ∧ (r.User → l = [] ∧ a + 72 = p.hi t) ∧
      Nested p.core.mem (p.lo t) (p.hi t) l rs := by
  have hnested := h.nested t
  rw [hl] at hnested
  obtain ⟨r, rs, hrs⟩ := hnested.cons_left
  rw [hrs] at hnested
  obtain ⟨⟨hframe, hlo, hle, huser⟩, hrest⟩ := hnested
  exact ⟨r, rs, hrs, hframe, hlo, hle, huser, hrest⟩

theorem compute (h : Refines p v) {c : Core} (hc : p.Keeps c) :
    Refines { p with core := c } (v.step (.compute c.regs)) := by
  refine ⟨h.current, rfl, hc.valid, fun t => ?_, h.hi, h.apart, h.sp0,
    fun hu => h.user (hc.ring.1 hu), hc.esp, h.esp0, h.idle, h.room⟩
  refine (h.nested t).congr fun x hx hx' => ?_
  by_cases ht : t = p.current
  · subst ht
    exact hc.own x hx hx'
  · cases hl : p.frames t with
    | nil =>
      rw [hl] at hx
      exact absurd hx hx'.not_ge
    | cons a l =>
      have hnested := h.nested t
      rw [hl] at hx hnested
      exact hc.others t ht (by rw [hl]; simp) x (hnested.lo_le.trans hx) hx'

theorem setEax (h : Refines p v) {x ctx : ℕ} {l : List ℕ} (hctx : p.frames p.current = ctx :: l)
    (hx : x < 2 ^ 32) :
    Refines { p with core := { p.core with mem := p.core.mem.write32 (ctx + 40) x } }
      (v.step (.setEax x)) := by
  obtain ⟨r, rs, hsaved, hframe, hlo, hle, huser, hrest⟩ := h.pop hctx
  have hstep : v.step (.setEax x) = v.save p.current (Function.update r .eax x :: rs) := by
    simp only [Virtual.step, h.current, hsaved]
  have hsize : r.frameSize = 64 + if r.User then 8 else 0 := Regs.frameSize_eq
  have hu : Regs.User (Function.update r .eax x) ↔ r.User := by
    show Function.update r .eax x .cs % 4 = 3 ↔ _
    rw [Function.update_of_ne (by simp)]
  have hsize' : Regs.frameSize (Function.update r .eax x) = r.frameSize := by
    simp only [Regs.frameSize, hu]
  have hend := hrest.headD_le
  rw [hstep]
  refine ⟨h.current, h.regs, h.valid, fun t => ?_, h.hi, h.apart, h.sp0, h.user, h.kernel, h.esp0,
    fun r' hr' => ?_, h.room⟩
  · show Nested _ _ _ _ (Function.update v.saved p.current _ t)
    by_cases ht : t = p.current
    · rw [ht, Function.update_self, hctx]
      refine ⟨⟨hframe.setEax hx, hlo, ?_, fun hu' => huser (hu.1 hu')⟩, ?_⟩
      · rw [hsize']
        exact hle
      · exact hrest.congr fun y hy _ => write32_of_disjoint _ _ (by omega)
    · rw [Function.update_of_ne ht]
      cases hl : p.frames t with
      | nil =>
        have hnested := h.nested t
        rw [hl] at hnested
        rw [hnested.nil_left]
        trivial
      | cons a l' =>
        have hnested := h.nested t
        rw [hl] at hnested
        have hlo' := hnested.lo_le
        have hlive : p.Live t := .inr (by rw [hl]; simp)
        refine hnested.congr fun y hy hy' => write32_of_disjoint _ _ ?_
        rw [List.headD_cons] at hy
        rcases h.apart t p.current hlive (.inl rfl) ht with happ | happ <;> omega
  · refine Virtual.idle_save h.idle (fun hidle r' hr' => ?_) r' hr'
    have hold := h.idle
    rw [← hidle, hsaved] at hold
    rcases List.mem_cons.1 hr' with rfl | hr'
    · rw [hu]
      exact hold r List.mem_cons_self
    · exact hold r' (List.mem_cons_of_mem _ hr')

/-- The frames of a thread change that is live already, or none are left. -/
lemma live_update {t u : ThreadRef} {l : List ℕ} (hl : l ≠ [] → p.Live t)
    (hu : (p.setFrames t l).Live u) : p.Live u := by
  rcases hu with hu | hu
  · exact .inl hu
  · by_cases hut : u = t
    · rw [hut, p.setFrames_self] at hu
      rw [hut]
      exact hl hu
    · rw [p.setFrames_of_ne l hut] at hu
      exact .inr hu

/-- The frames of one thread change. -/
lemma nested_save {q : Processor} {t : ThreadRef} {l : List ℕ} {rs : List Regs}
    (ht : Nested q.core.mem (q.lo t) (q.hi t) l rs)
    (hu : ∀ u, u ≠ t → Nested q.core.mem (q.lo u) (q.hi u) (q.frames u) (v.saved u)) (u : ThreadRef) :
    Nested q.core.mem (q.lo u) (q.hi u) ((q.setFrames t l).frames u) ((v.save t rs).saved u) := by
  by_cases hut : u = t
  · rw [hut, q.setFrames_self, v.saved_save_self]
    exact ht
  · rw [q.setFrames_of_ne l hut, v.saved_save_of_ne rs hut]
    exact hu u hut

theorem enter (h : Refines p v) {i entry : ℕ} {error : Option ℕ} (hi : i < 256)
    (hisSome : error.isSome ↔ i ∈ errorVectors) (herror : ∀ e ∈ error, e < 2 ^ 32)
    (hentry : entry < 2 ^ 32)
    (hroom : ¬ p.core.regs.User → p.lo p.current + 76 ≤ p.core.regs .esp) :
    Refines ({ p with core := enterHandler i error p.esp0 entry p.core }.setFrames p.current
        (p.core.regs.frameAt p.esp0 :: p.frames p.current))
      (v.step (.enter (enterHandler i error p.esp0 entry p.core).regs)) := by
  have hlive : p.Live p.current := .inl rfl
  have hend := h.hi _ hlive
  have hfree := h.free_le
  -- the frame lies below everything else on the stack
  obtain ⟨htop, hlo⟩ : p.core.regs.trapTop p.esp0 ≤ p.free ∧
      p.lo p.current + 76 ≤ p.core.regs.trapTop p.esp0 := by
    by_cases hu : p.core.regs.User
    · obtain ⟨hnil, hne⟩ := h.user hu
      rw [Regs.trapTop, if_pos hu, h.esp0 hne, Processor.free, hnil]
      exact ⟨le_rfl, h.room _ hlive hne⟩
    · rw [Regs.trapTop, if_neg hu]
      exact ⟨(h.kernel hu).2, hroom hu⟩
  have hsize : p.core.regs.frameSize = 64 + if p.core.regs.User then 8 else 0 := Regs.frameSize_eq
  have hsize' : p.core.regs.frameSize ≤ 72 := by
    rw [hsize]
    split_ifs <;> norm_num
  have hat : p.core.regs.frameAt p.esp0 + p.core.regs.frameSize = p.core.regs.trapTop p.esp0 := by
    rw [Regs.frameAt]
    omega
  have hsmall : p.core.regs.trapTop p.esp0 < 2 ^ 32 := by omega
  have hentered := @enterHandler_spec p.core i p.esp0 entry error h.valid hi hisSome herror hsmall (by omega)
  obtain ⟨hvalid, hkernel⟩ := hentered.valid h.valid hentry hsmall
  obtain ⟨hesp, -, hframe, hrest, -⟩ := hentered
  generalize enterHandler i error p.esp0 entry p.core = c at hesp hframe hrest hvalid hkernel ⊢
  generalize p.core.regs.frameAt p.esp0 = a at hat hesp hframe hrest ⊢
  have hnested := h.nested_write (m := c.mem) (b := a - 4) (by omega) fun x hx =>
    hrest x (by omega)
  have hloa : p.lo p.current ≤ a := by omega
  have hstep : v.step (.enter c.regs) =
      { v.save p.current (p.core.regs :: v.saved p.current) with regs := c.regs } := by
    rw [Virtual.step, h.current, h.regs]
  have hsaved : Frame c.mem a p.core.regs := by
    refine ⟨h.valid, ⟨i, error.getD 0, hi.trans (by norm_num), ?_, hframe⟩, by omega,
      fun hu => ?_⟩
    · cases error with
      | none => norm_num
      | some e => exact herror e rfl
    · rw [hsize, Regs.trapTop, if_neg hu, if_neg hu] at hat
      exact hat.symm
  rw [hstep]
  refine ⟨h.current, rfl, hvalid, ?_, fun t ht => h.hi t (live_update (fun _ => hlive) ht),
    fun t u ht hu => h.apart t u (live_update (fun _ => hlive) ht) (live_update (fun _ => hlive) hu),
    fun t (ht : t ≠ p.current) => ?_, fun hu => absurd hu hkernel, fun _ => ?_, h.esp0, ?_,
    fun t ht => h.room t (live_update (fun _ => hlive) ht)⟩
  · refine nested_save (q := { p with core := c }) ⟨⟨hsaved, hloa, hat.le.trans htop,
      fun hu => ?_⟩, hnested p.current⟩ fun u _ => hnested u
    obtain ⟨hnil, hne⟩ := h.user hu
    rw [hsize, Regs.trapTop, if_pos hu, if_pos hu, h.esp0 hne] at hat
    exact ⟨hnil, hat⟩
  · rw [Processor.setFrames_of_ne _ _ ht]
    exact h.sp0 t ht
  · have hself : (p.setFrames p.current (a :: p.frames p.current)).free = a := by
      rw [Processor.free]
      exact congrArg (List.headD · _) (p.setFrames_self ..)
    show p.lo p.current ≤ c.regs .esp ∧
      c.regs .esp ≤ (p.setFrames p.current (a :: p.frames p.current)).free
    rw [hself]
    omega
  · refine Virtual.idle_save h.idle fun hidle r hr => ?_
    rcases List.mem_cons.1 hr with rfl | hr
    · exact fun hu => (h.user hu).2 hidle
    · rw [hidle] at hr
      exact h.idle r hr

theorem leave (h : Refines p v) {l : List ℕ} (hl : p.frames p.current = (p.core.regs .esp + 4) :: l)
    (hkernel : ¬ p.core.regs.User) :
    Refines ({ p with core := exec isrReturn p.core }.setFrames p.current l)
      (v.step .leave) := by
  have hlive : p.Live p.current := .inl rfl
  obtain ⟨r, rs, hsaved, hframe, hlo, hle, huser, hrest⟩ := h.pop hl
  obtain ⟨hcs, hss⟩ := h.valid.ring.resolve_left hkernel
  have hstep : v.step .leave = { v.save p.current rs with regs := r } := by
    simp only [Virtual.step, h.current, hsaved]
  have hsize : r.frameSize = 64 + if r.User then 8 else 0 := Regs.frameSize_eq
  rw [hstep, hframe.return hcs hss]
  refine ⟨h.current, rfl, hframe.valid, ?_, fun t ht => h.hi t (live_update (fun _ => hlive) ht),
    fun t u ht hu => h.apart t u (live_update (fun _ => hlive) ht) (live_update (fun _ => hlive) hu),
    fun t (ht : t ≠ p.current) => ?_,
    fun (hu : r.User) => ⟨?_, fun (hidle : p.current = idleThread) => ?_⟩,
    fun (hu : ¬ r.User) => ?_, h.esp0, ?_,
    fun t ht => h.room t (live_update (fun _ => hlive) ht)⟩
  · exact nested_save (q := p) hrest fun u _ => h.nested u
  · rw [Processor.setFrames_of_ne _ _ ht]
    exact h.sp0 t ht
  · exact (p.setFrames_self ..).trans (huser hu).1
  · have hold := h.idle
    rw [← hidle, hsaved] at hold
    exact hold r List.mem_cons_self hu
  · have hesp := hframe.kernel hu
    have hself : (p.setFrames p.current l).free = l.headD (p.hi p.current) :=
      congrArg (List.headD · _) (p.setFrames_self ..)
    show p.lo p.current ≤ r .esp ∧ r .esp ≤ (p.setFrames p.current l).free
    rw [hself]
    rw [hsize, if_neg hu] at hle
    omega
  · refine Virtual.idle_save h.idle fun hidle r' hr' => ?_
    have hold := h.idle
    rw [← hidle, hsaved] at hold
    exact hold r' (List.mem_cons_of_mem _ hr')

theorem switch (h : Refines p v) {t : ThreadRef} {ctx a : ℕ} {l l' : List ℕ} (hne : t ≠ p.current)
    (hctx : p.frames p.current = ctx :: l) (ht : p.frames t = a :: l')
    (hkernel : ¬ p.core.regs.User) :
    Refines ({ p with
        core := restoreAt (p.sp0 t) p.core
        current := t
        sp0 := Function.update p.sp0 p.current ctx
        esp0 := if t = idleThread then p.esp0 else p.hi t }.setFrames t l')
      (v.step (.switch t)) := by
  have hlive : p.Live t := .inr (by rw [ht]; simp)
  obtain ⟨r, rs, hsaved, hframe, hlo, hle, huser, hrest⟩ := h.pop ht
  obtain ⟨hcs, hss⟩ := h.valid.ring.resolve_left hkernel
  have hstep : v.step (.switch t) = { v.save t rs with current := t, regs := r } := by
    simp only [Virtual.step, hsaved]
  have hsize : r.frameSize = 64 + if r.User then 8 else 0 := Regs.frameSize_eq
  rw [hstep, h.sp0 t hne a l' ht, hframe.restore hcs hss]
  -- the old thread still has the frame that `ctx` points to
  have hold : ∀ u, ({ p with
      core := ⟨r, p.core.mem⟩
      current := t
      sp0 := Function.update p.sp0 p.current ctx
      esp0 := if t = idleThread then p.esp0 else p.hi t }.setFrames t l').Live u → p.Live u := by
    intro u hu
    rcases hu with hu | hu
    · rw [hu]
      exact hlive
    · exact live_update (t := t) (l := l') (fun _ => hlive) (.inr hu)
  refine ⟨rfl, rfl, hframe.valid, ?_, fun u hu => h.hi u (hold u hu),
    fun u w hu hw => h.apart u w (hold u hu) (hold w hw), fun u (hu : u ≠ t) b k hb => ?_,
    fun (hu : r.User) => ⟨?_, fun (hidle : t = idleThread) => ?_⟩, fun (hu : ¬ r.User) => ?_,
    fun hidle => if_neg hidle, ?_, fun u hu => h.room u (hold u hu)⟩
  · exact nested_save (q := p) hrest fun u _ => h.nested u
  · rw [Processor.setFrames_of_ne _ _ hu] at hb
    show Function.update p.sp0 p.current ctx u = b
    by_cases hcur : u = p.current
    · rw [hcur, Function.update_self]
      have hb' : p.frames u = b :: k := hb
      rw [hcur, hctx] at hb'
      exact (List.cons.inj hb').1
    · rw [Function.update_of_ne hcur]
      exact h.sp0 u hcur b k hb
  · exact (Processor.setFrames_self ..).trans (huser hu).1
  · have hidle' := h.idle
    rw [← hidle, hsaved] at hidle'
    exact hidle' r List.mem_cons_self hu
  · have hesp := hframe.kernel hu
    rw [hsize, if_neg hu] at hle
    have hself : ({ p with
        core := ⟨r, p.core.mem⟩
        current := t
        sp0 := Function.update p.sp0 p.current ctx
        esp0 := if t = idleThread then p.esp0 else p.hi t }.setFrames t l').free =
        l'.headD (p.hi t) := congrArg (List.headD · _) (Processor.setFrames_self ..)
    rw [hself]
    show p.lo t ≤ r .esp ∧ r .esp ≤ _
    omega
  · refine Virtual.idle_save h.idle fun hidle r' hr' => ?_
    have hidle' := h.idle
    rw [← hidle, hsaved] at hidle'
    exact hidle' r' (List.mem_cons_of_mem _ hr')

theorem create (h : Refines p v) {t : ThreadRef} {stack0 loc sp : ℕ} (ht : ¬ p.Live t)
    (hidle : t ≠ idleThread) (hend : stack0 + kernelStackSize + 8 < 2 ^ 32)
    (hapart : ∀ u, p.Live u → p.hi u ≤ stack0 ∨ stack0 + kernelStackSize ≤ p.lo u)
    (hloc : loc < 2 ^ 32) (hsp : sp < 2 ^ 32) :
    Refines ({ p with
        core := { p.core with mem := layFrame stack0 (initialContext t.process loc sp) p.core.mem }
        sp0 := Function.update p.sp0 t (stack0 + kernelStackSize - 72)
        lo := Function.update p.lo t stack0
        hi := Function.update p.hi t (stack0 + kernelStackSize)
        }.setFrames t [stack0 + kernelStackSize - 72])
      (v.step (.create t
        ((initialContext t.process loc sp).regs (stack0 + kernelStackSize - 72)))) := by
  have hsize : kernelStackSize = 4096 := rfl
  obtain ⟨a, ha⟩ : ∃ a, a = stack0 + kernelStackSize - 72 := ⟨_, rfl⟩
  rw [← ha]
  have hcur : p.current ≠ t := fun heq => ht (.inl heq.symm)
  have hframe : Frame (layFrame stack0 (initialContext t.process loc sp) p.core.mem) a
      ((initialContext t.process loc sp).regs a) :=
    frame_layFrame (initialContext_valid hloc hsp (by omega)) (initialContext_words hloc hsp) ha
      (by omega)
  have hother : ∀ x, x < stack0 ∨ stack0 + kernelStackSize ≤ x →
      layFrame stack0 (initialContext t.process loc sp) p.core.mem x = p.core.mem x := fun x hx => by
    have hlen : (initialContext t.process loc sp).words.length = 18 := rfl
    rw [layFrame, writeWords_of_disjoint (by rw [hlen]; omega),
      store_of_disjoint _ (by rw [List.length_replicate]; exact hx)]
  generalize layFrame stack0 (initialContext t.process loc sp) p.core.mem = m at hframe hother ⊢
  generalize hr : (initialContext t.process loc sp).regs a = r at hframe ⊢
  have hrsize : r.frameSize = 64 + if r.User then 8 else 0 := Regs.frameSize_eq
  have hrsize' : r.frameSize ≤ 72 := by
    rw [hrsize]
    split_ifs <;> norm_num
  have hlive : ∀ u, ({ p with
      core := { p.core with mem := m }
      sp0 := Function.update p.sp0 t a
      lo := Function.update p.lo t stack0
      hi := Function.update p.hi t (stack0 + kernelStackSize) }.setFrames t [a]).Live u →
      u = t ∨ u ≠ t ∧ p.Live u := by
    intro u hu
    by_cases hut : u = t
    · exact .inl hut
    · refine .inr ⟨hut, hu.imp_right fun hu => ?_⟩
      rwa [Processor.setFrames_of_ne _ _ hut] at hu
  have hlo : Function.update p.lo t stack0 t = stack0 := Function.update_self ..
  have hhi : Function.update p.hi t (stack0 + kernelStackSize) t = stack0 + kernelStackSize :=
    Function.update_self ..
  have hlo' : ∀ {u}, u ≠ t → Function.update p.lo t stack0 u = p.lo u := fun hu =>
    Function.update_of_ne hu ..
  have hhi' : ∀ {u}, u ≠ t → Function.update p.hi t (stack0 + kernelStackSize) u = p.hi u :=
    fun hu => Function.update_of_ne hu ..
  refine ⟨h.current, h.regs, h.valid, ?_, fun u hu => ?_, fun u w hu hw huw => ?_,
    fun u hu b k hb => ?_, fun hu => ⟨?_, (h.user hu).2⟩, fun hu => ?_, fun hu => ?_, ?_,
    fun u hu hu' => ?_⟩
  · refine nested_save (q := { p with
      core := { p.core with mem := m }
      sp0 := Function.update p.sp0 t a
      lo := Function.update p.lo t stack0
      hi := Function.update p.hi t (stack0 + kernelStackSize) }) ?_ fun u hu => ?_
    · show Nested m (Function.update p.lo t stack0 t) (Function.update p.hi t _ t) [a] [r]
      rw [hlo, hhi]
      refine ⟨⟨hframe, by omega, ?_, fun _ => ⟨rfl, by omega⟩⟩, trivial⟩
      rw [List.headD_nil]
      omega
    · show Nested m (Function.update p.lo t stack0 u) (Function.update p.hi t _ u) (p.frames u) _
      rw [hlo' hu, hhi' hu]
      have hnested := h.nested u
      cases hl : p.frames u with
      | nil =>
        rw [hl] at hnested
        rw [hnested.nil_left]
        trivial
      | cons b k =>
        rw [hl] at hnested
        have hb := hnested.lo_le
        refine hnested.congr fun x hx hx' => hother x ?_
        rw [List.headD_cons] at hx
        rcases hapart u (.inr (by rw [hl]; simp)) with happ | happ <;> omega
  · show Function.update p.hi t _ u + 8 < 2 ^ 32
    rcases hlive u hu with rfl | ⟨hut, hu⟩
    · rw [hhi]
      exact hend
    · rw [hhi' hut]
      exact h.hi u hu
  · show Function.update p.hi t _ u ≤ Function.update p.lo t _ w ∨
      Function.update p.hi t _ w ≤ Function.update p.lo t _ u
    rcases hlive u hu with rfl | ⟨hut, hul⟩
    · rcases hlive w hw with rfl | ⟨hwt, hwl⟩
      · exact (huw rfl).elim
      · rw [hlo, hhi, hlo' hwt, hhi' hwt]
        exact (hapart w hwl).symm
    · rcases hlive w hw with rfl | ⟨hwt, hwl⟩
      · rw [hlo, hhi, hlo' hut, hhi' hut]
        exact hapart u hul
      · rw [hlo' hut, hhi' hut, hlo' hwt, hhi' hwt]
        exact h.apart u w hul hwl huw
  · show Function.update p.sp0 t a u = b
    by_cases hut : u = t
    · rw [hut, Processor.setFrames_self] at hb
      rw [hut, Function.update_self]
      exact (List.cons.inj hb).1
    · rw [Processor.setFrames_of_ne _ _ hut] at hb
      rw [Function.update_of_ne hut]
      exact h.sp0 u hu b k hb
  · exact (Processor.setFrames_of_ne _ _ hcur).trans (h.user hu).1
  · have hold := h.kernel hu
    show Function.update p.lo t stack0 p.current ≤ p.core.regs .esp ∧ p.core.regs .esp ≤
      (Function.update p.frames t [a] p.current).headD (Function.update p.hi t _ p.current)
    rw [hlo' hcur, hhi' hcur, Function.update_of_ne hcur]
    exact hold
  · exact (h.esp0 hu).trans (hhi' hcur).symm
  · exact Virtual.idle_save h.idle fun heq => (hidle heq).elim
  · show Function.update p.lo t _ u + 76 ≤ Function.update p.hi t _ u
    rcases hlive u hu with rfl | ⟨hut, hu⟩
    · rw [hlo, hhi]
      omega
    · rw [hlo' hut, hhi' hut]
      exact h.room u hu hu'

theorem destroy (h : Refines p v) {t : ThreadRef} (ht : t ≠ p.current) :
    Refines (p.setFrames t []) (v.step (.destroy t)) := by
  have hlive : ∀ u, (p.setFrames t []).Live u → p.Live u := fun u hu =>
    live_update (fun hnil => (hnil rfl).elim) hu
  refine ⟨h.current, h.regs, h.valid, ?_, fun u hu => h.hi u (hlive u hu),
    fun u w hu hw => h.apart u w (hlive u hu) (hlive w hw), fun u hu b k hb => ?_,
    fun hu => ⟨?_, (h.user hu).2⟩, fun hu => ?_, h.esp0, ?_, fun u hu => h.room u (hlive u hu)⟩
  · exact nested_save (q := p) trivial fun u _ => h.nested u
  · by_cases hut : u = t
    · rw [hut, Processor.setFrames_self] at hb
      exact (List.cons_ne_nil _ _ hb.symm).elim
    · rw [Processor.setFrames_of_ne _ _ hut] at hb
      exact h.sp0 u hu b k hb
  · exact (Processor.setFrames_of_ne _ _ ht.symm).trans (h.user hu).1
  · have hold := h.kernel hu
    rw [Processor.free] at hold ⊢
    rw [Processor.setFrames_of_ne _ _ (show (p.setFrames t []).current ≠ t from ht.symm)]
    exact hold
  · exact Virtual.idle_save h.idle fun _ _ hr => (List.not_mem_nil hr).elim

/-- One step of the machine is the same step of the virtual processors. -/
theorem step (h : Refines p v) {d : Doing} {p' : Processor} (hs : p.Step d p') :
    Refines p' (v.step d) := by
  cases hs with
  | compute hc => exact h.compute hc
  | enter hi hisSome herror hentry hroom => exact h.enter hi hisSome herror hentry hroom
  | leave hl hkernel => exact h.leave hl hkernel
  | switch hne hctx ht hkernel => exact h.switch hne hctx ht hkernel
  | setEax hctx hv => exact h.setEax hctx hv
  | create ht hi hend hapart hloc hsp => exact h.create ht hi hend hapart hloc hsp
  | destroy ht _ => exact h.destroy ht

end Refines

/-! ### Runs -/

/-- Behind `sched_init`: the idle thread runs, on the stack of the loader. -/
structure Processor.Init (p : Processor) : Prop where
  current : p.current = idleThread
  frames : ∀ t, p.frames t = []
  valid : p.core.regs.Valid
  kernel : ¬ p.core.regs.User
  lo_le : p.lo idleThread ≤ p.core.regs .esp
  le_hi : p.core.regs .esp ≤ p.hi idleThread
  hi : p.hi idleThread + 8 < 2 ^ 32

end Gummy
