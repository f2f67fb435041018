import Gummy.Kernel.Thread
import Gummy.Lib.WordStack

/-!
Interrupts, register by register: `idt.asm`.

The processor and the stub of the vector push what the program was doing onto the kernel stack,
`isr_common` the rest of the registers, and `_restore_context` takes everything off again.  What
lies there in between is the `interrupt_context_t` that the handlers get.
-/

namespace Gummy

open CWord ByteMem

/-! ### The processor -/

inductive Reg
  | gs | fs | es | ds | esi | edi | ebp | edx | ecx | ebx | eax | eip | cs | eflags | esp | ss
  deriving DecidableEq

/-- How many bits the register has. -/
def Reg.bits : Reg → ℕ
  | .gs | .fs | .es | .ds | .cs | .ss => 16
  | _ => 32

abbrev Regs := Reg → ℕ

/-- User code runs. -/
abbrev Regs.User (r : Regs) : Prop := r .cs % 4 = 3

/-- The registers hold what fits, and the privilege level is one of the two that are used; the
kernel has one stack segment. -/
structure Regs.Valid (r : Regs) : Prop where
  lt : ∀ x, r x < 2 ^ x.bits
  ring : r.User ∨ r .cs % 4 = 0 ∧ r .ss = 0x10

structure Core where
  regs : Regs
  mem : ByteMem

namespace Core

def set (x : Reg) (v : ℕ) (c : Core) : Core := { c with regs := Function.update c.regs x v }

def push (v : ℕ) (c : Core) : Core :=
  let esp := sub32 (c.regs .esp) 4
  { (c.set .esp esp) with mem := c.mem.write32 esp v }

/-- The word at the top of the stack goes to a register, or its low half. -/
def pop (x : Reg) (c : Core) : Core :=
  let esp := c.regs .esp
  (c.set .esp (u32 (esp + 4))).set x (c.mem.read32 esp % 2 ^ x.bits)

end Core

/-- The instructions of `idt.asm`. -/
inductive Instr
  | push (x : Reg)
  | pushDword (v : ℕ)
  | pop (x : Reg)
  | addEsp (n : ℕ)
  /-- `mov ax, n` -/
  | movAx (n : ℕ)
  /-- `mov x, ax` -/
  | movSeg (x : Reg)
  | iret

/-- What an instruction does.  `iret` leaves the stack of the kernel when it goes to user code. -/
def Instr.exec : Instr → Core → Core
  | .push x, c => c.push (c.regs x)
  | .pushDword v, c => c.push v
  | .pop x, c => c.pop x
  | .addEsp n, c => c.set .esp (u32 (c.regs .esp + n))
  | .movAx n, c => c.set .eax (c.regs .eax / 2 ^ 16 * 2 ^ 16 + n % 2 ^ 16)
  | .movSeg x, c => c.set x (c.regs .eax % 2 ^ 16)
  | .iret, c =>
    let c' := ((c.pop .eip).pop .cs).pop .eflags
    if c.regs .cs % 4 < c'.regs .cs % 4 then
      let esp := c'.mem.read32 (c'.regs .esp)
      let ss := c'.mem.read32 (u32 (c'.regs .esp + 4))
      (c'.set .esp esp).set .ss (ss % 2 ^ 16)
    else c'

def exec (is : List Instr) (c : Core) : Core := is.foldl (fun c i => i.exec c) c

/-! ### `idt.asm` -/

/-- The vectors for which the processor pushes an error code. -/
def errorVectors : List ℕ := [8, 10, 11, 12, 13, 14, 17]

/-- `isr_stub_error` and `isr_stub_no_error` -/
def isrStub (i : ℕ) : List Instr :=
  if i ∈ errorVectors then [.pushDword i] else [.pushDword 0, .pushDword i]

/-- `isr_common`, up to `call interrupt_handler` -/
def isrCommon : List Instr :=
  [.push .eax, .push .ebx, .push .ecx, .push .edx, .push .ebp, .push .edi, .push .esi,
    .push .ds, .push .es, .push .fs, .push .gs,
    .movAx 0x10, .movSeg .ds, .movSeg .es, .movSeg .fs, .movSeg .gs, .push .esp]

/-- `_restore_context` -/
def restoreContext : List Instr :=
  [.pop .gs, .pop .fs, .pop .es, .pop .ds, .pop .esi, .pop .edi, .pop .ebp, .pop .edx, .pop .ecx,
    .pop .ebx, .pop .eax, .addEsp 8, .iret]

/-- `isr_common`, behind `call interrupt_handler` -/
def isrReturn : List Instr := .addEsp 4 :: restoreContext

/-- What the processor does with the flags: the gates of the vectors 3 and 4 are trap gates, the
others interrupt gates. -/
def gateFlags (i flags : ℕ) : ℕ :=
  flags &&& (2 ^ 32 - 1 - if i = 3 ∨ i = 4 then 0x34100 else 0x34300)

/-- Some exceptions come with an error code. -/
def Core.pushError : Option ℕ → Core → Core
  | none, c => c
  | some e, c => c.push e

/-- The processor takes the interrupt `i`, with `esp0` in the TSS and the stub at `entry`. -/
def deliver (i : ℕ) (error : Option ℕ) (esp0 entry : ℕ) (c : Core) : Core :=
  let r := c.regs
  let c := if r.User then (((c.set .esp esp0).set .ss 0x10).push (r .ss)).push (r .esp) else c
  let c := ((c.push (r .eflags)).push (r .cs)).push (r .eip)
  let c := c.pushError error
  ((c.set .eflags (gateFlags i (r .eflags))).set .cs 0x08).set .eip entry

/-- From the interrupted program to the call of `interrupt_handler`. -/
def enterHandler (i : ℕ) (error : Option ℕ) (esp0 entry : ℕ) (c : Core) : Core :=
  exec (isrStub i ++ isrCommon) (deliver i error esp0 entry c)

/-- The words of an `interrupt_context_t`; the last two are there for user code only. -/
def frameWords (r : Regs) (i error : ℕ) : List ℕ :=
  [r .gs, r .fs, r .es, r .ds, r .esi, r .edi, r .ebp, r .edx, r .ecx, r .ebx, r .eax, i, error,
    r .eip, r .cs, r .eflags] ++ if r.User then [r .esp, r .ss] else []

/-! ### What lies on the stack -/

namespace Core

variable {c : Core} {m : ByteMem} {top v : ℕ} {l : List ℕ} {x y : Reg}

@[simp] lemma set_self : (c.set x v).regs x = v := Function.update_self ..

lemma set_of_ne (h : y ≠ x) : (c.set x v).regs y = c.regs y := Function.update_of_ne h ..

@[simp] lemma set_mem : (c.set x v).mem = c.mem := rfl

lemma eq_mk {r : Regs} (hregs : ∀ x, c.regs x = r x) (hmem : c.mem = m) : c = ⟨r, m⟩ := by
  obtain ⟨regs, mem⟩ := c
  obtain rfl : regs = r := funext hregs
  obtain rfl := hmem
  rfl

lemma push_regs (h : y ≠ .esp) : (c.push v).regs y = c.regs y := set_of_ne h

lemma push_esp : (c.push v).regs .esp = sub32 (c.regs .esp) 4 := by simp [push, set]

/-- The words `l` lie on the stack from `top` down, and nothing else of `m` has been changed. -/
structure Stacked (m : ByteMem) (top : ℕ) (l : List ℕ) (c : Core) : Prop where
  esp : c.regs .esp + 4 * l.length = top
  lt : top < 2 ^ 32
  words : c.mem.Words (c.regs .esp) l
  frame : ∀ a, a < c.regs .esp ∨ top ≤ a → c.mem a = m a

lemma Stacked.nil (h : c.regs .esp < 2 ^ 32) : Stacked c.mem (c.regs .esp) [] c :=
  ⟨rfl, h, trivial, fun _ _ => rfl⟩

lemma Stacked.set (h : Stacked m top l c) (hx : x ≠ .esp) : Stacked m top l (c.set x v) := by
  have hesp : (c.set x v).regs .esp = c.regs .esp := set_of_ne (Ne.symm hx)
  refine ⟨?_, h.lt, ?_, ?_⟩
  · rw [hesp]
    exact h.esp
  · rw [hesp]
    exact h.words
  · rw [hesp]
    exact h.frame

lemma Stacked.push (h : Stacked m top l c) (hroom : 4 * (l.length + 1) ≤ top) (hv : v < 2 ^ 32) :
    Stacked m top (v :: l) (c.push v) := by
  have hesp := h.esp
  have hlt := h.lt
  have hself : (c.push v).regs .esp = c.regs .esp - 4 := by
    rw [push_esp, sub32_of_le (by omega) (by omega)]
  have hmem : (c.push v).mem = c.mem.write32 (c.regs .esp - 4) v := by
    show c.mem.write32 (sub32 (c.regs .esp) 4) v = _
    rw [sub32_of_le (by omega) (by omega)]
  refine ⟨?_, hlt, ?_, fun a ha => ?_⟩
  · rw [hself, List.length_cons]
    omega
  · rw [hself, hmem]
    exact h.words.push (by omega) hv
  · rw [hself] at ha
    rw [hmem, write32_of_disjoint _ _ (by omega), h.frame a (by omega)]

/-- A row of registers is pushed. -/
lemma Stacked.pushes (h : Stacked m top l c) {rs : List Reg} (hrs : .esp ∉ rs)
    (hroom : 4 * (l.length + rs.length) ≤ top) (hv : ∀ x ∈ rs, c.regs x < 2 ^ 32) :
    Stacked m top ((rs.map c.regs).reverse ++ l) (exec (rs.map .push) c) ∧
      ∀ x, x ≠ .esp → (exec (rs.map .push) c).regs x = c.regs x := by
  induction rs generalizing c l with
  | nil => exact ⟨h, fun _ _ => rfl⟩
  | cons y rs ih =>
    rw [List.length_cons] at hroom
    have hy : y ≠ .esp := fun heq => hrs (heq ▸ List.mem_cons_self)
    have hpush := h.push (by omega) (hv y List.mem_cons_self)
    have hregs : ∀ x, x ≠ .esp → (c.push (c.regs y)).regs x = c.regs x := fun x hx => push_regs hx
    have hmap : rs.map (c.push (c.regs y)).regs = rs.map c.regs :=
      List.map_congr_left fun x hx => hregs x fun heq => hrs (heq ▸ List.mem_cons_of_mem _ hx)
    obtain ⟨hstack, hrest⟩ := ih hpush (fun hmem => hrs (List.mem_cons_of_mem _ hmem))
      (by rw [List.length_cons]; omega) fun x hx => by
        rw [hregs x fun heq => hrs (heq ▸ List.mem_cons_of_mem _ hx)]
        exact hv x (List.mem_cons_of_mem _ hx)
    refine ⟨?_, fun x hx => (hrest x hx).trans (hregs x hx)⟩
    rw [hmap] at hstack
    rw [List.map_cons, List.reverse_cons, List.append_assoc]
    exact hstack

/-- A row of registers is popped. -/
lemma pops {r : Regs} {rs : List Reg} (hw : c.mem.Words (c.regs .esp) (rs.map r ++ l))
    (hrs : .esp ∉ rs) (hr : ∀ x ∈ rs, r x < 2 ^ x.bits)
    (hlt : c.regs .esp + 4 * rs.length < 2 ^ 32) :
    (exec (rs.map .pop) c).mem = c.mem ∧
      (exec (rs.map .pop) c).regs .esp = c.regs .esp + 4 * rs.length ∧
      (∀ x ∈ rs, (exec (rs.map .pop) c).regs x = r x) ∧
      ∀ x, x ∉ rs → x ≠ .esp → (exec (rs.map .pop) c).regs x = c.regs x := by
  induction rs generalizing c with
  | nil => exact ⟨rfl, rfl, fun _ hx => (List.not_mem_nil hx).elim, fun _ _ _ => rfl⟩
  | cons y rs ih =>
    rw [List.length_cons] at hlt ⊢
    obtain ⟨hread, hw⟩ := hw
    have hy : y ≠ .esp := fun heq => hrs (heq ▸ List.mem_cons_self)
    have hesp : (c.pop y).regs .esp = c.regs .esp + 4 := by
      have hset : (c.pop y).regs .esp = u32 (c.regs .esp + 4) :=
        (set_of_ne (Ne.symm hy)).trans set_self
      rw [hset, u32_of_lt (by omega)]
    have hself : (c.pop y).regs y = r y := by
      have hset : (c.pop y).regs y = c.mem.read32 (c.regs .esp) % 2 ^ y.bits := set_self
      rw [hset, hread, Nat.mod_eq_of_lt (hr y List.mem_cons_self)]
    have hother : ∀ x, x ≠ y → x ≠ .esp → (c.pop y).regs x = c.regs x := fun x hx hx' =>
      (set_of_ne hx).trans (set_of_ne hx')
    obtain ⟨hmem, hesp', hin, hout⟩ := ih (c := c.pop y) (by rw [hesp]; exact hw)
      (fun hmem => hrs (List.mem_cons_of_mem _ hmem))
      (fun x hx => hr x (List.mem_cons_of_mem _ hx)) (by rw [hesp]; omega)
    refine ⟨hmem, hesp'.trans (by rw [hesp]; omega), fun x hx => ?_, fun x hx hx' => ?_⟩
    · by_cases hxrs : x ∈ rs
      · exact hin x hxrs
      · obtain rfl : x = y := (List.mem_cons.1 hx).resolve_right hxrs
        exact (hout x hxrs hy).trans hself
    · have hxrs : x ∉ rs := fun h => hx (List.mem_cons_of_mem _ h)
      exact (hout x hxrs hx').trans (hother x (fun h => hx (h ▸ List.mem_cons_self)) hx')

end Core

lemma exec_append (is js : List Instr) (c : Core) : exec (is ++ js) c = exec js (exec is c) :=
  List.foldl_append ..

lemma Reg.bits_le (x : Reg) : 2 ^ x.bits ≤ 2 ^ 32 := by
  cases x <;> simp [Reg.bits]

lemma Regs.Valid.lt_word {r : Regs} (h : r.Valid) (x : Reg) : r x < 2 ^ 32 :=
  (h.lt x).trans_le x.bits_le

/-! ### Into the kernel -/

section Enter

variable {c : Core} {i esp0 entry : ℕ} {error : Option ℕ}

/-- The end of the kernel stack that the interrupt finds. -/
def Regs.trapTop (r : Regs) (esp0 : ℕ) : ℕ := if r.User then esp0 else r .esp

/-- The processor changes to the stack of the kernel. -/
lemma stacked_change (hr : c.regs.Valid) (hlt : c.regs.trapTop esp0 < 2 ^ 32)
    (hroom : 76 ≤ c.regs.trapTop esp0) :
    ∃ c₁, c₁ = (if c.regs.User then
        (((c.set .esp esp0).set .ss 0x10).push (c.regs .ss)).push (c.regs .esp) else c) ∧
      Core.Stacked c.mem (c.regs.trapTop esp0)
        (if c.regs.User then [c.regs .esp, c.regs .ss] else []) c₁ ∧
      c₁.regs .ss = 0x10 ∧ ∀ x, x ≠ .esp → x ≠ .ss → c₁.regs x = c.regs x := by
  refine ⟨_, rfl, ?_⟩
  unfold Regs.trapTop at hlt hroom ⊢
  by_cases hu : c.regs.User
  · simp only [if_pos hu] at hlt hroom ⊢
    have hesp : ((c.set .esp esp0).set .ss 0x10).regs .esp = esp0 :=
      (Core.set_of_ne (by decide)).trans Core.set_self
    have hnil := Core.Stacked.nil (c := (c.set .esp esp0).set .ss 0x10) (by rwa [hesp])
    rw [hesp] at hnil
    have hss := hnil.push (v := c.regs .ss) (by simp; omega) (hr.lt_word _)
    have hsp := hss.push (v := c.regs .esp) (by simp; omega) (hr.lt_word _)
    refine ⟨hsp, ?_, fun x hx hx' => ?_⟩
    · rw [Core.push_regs (by decide), Core.push_regs (by decide)]
      exact Core.set_self
    · rw [Core.push_regs hx, Core.push_regs hx, Core.set_of_ne hx', Core.set_of_ne hx]
  · simp only [if_neg hu] at hlt hroom ⊢
    exact ⟨.nil hlt, (hr.ring.resolve_left hu).2, fun _ _ _ => trivial⟩

/-- The registers at the entry of the stub, but for the stack pointer. -/
def Regs.delivered (i entry : ℕ) (r : Regs) : Regs
  | .ss => 0x10
  | .eflags => gateFlags i (r .eflags)
  | .cs => 0x08
  | .eip => entry
  | x => r x

/-- What the processor pushes. -/
lemma stacked_deliver (hr : c.regs.Valid) (hlt : c.regs.trapTop esp0 < 2 ^ 32)
    (hroom : 76 ≤ c.regs.trapTop esp0) (herror : ∀ e ∈ error, e < 2 ^ 32) :
    Core.Stacked c.mem (c.regs.trapTop esp0)
      (error.toList ++ ([c.regs .eip, c.regs .cs, c.regs .eflags] ++
        if c.regs.User then [c.regs .esp, c.regs .ss] else [])) (deliver i error esp0 entry c) ∧
    ∀ x, x ≠ .esp → (deliver i error esp0 entry c).regs x = c.regs.delivered i entry x := by
  obtain ⟨c₁, hc₁, hstack, hss, hregs⟩ := stacked_change hr hlt hroom
  have hlen : (if c.regs.User then [c.regs .esp, c.regs .ss] else []).length ≤ 2 := by
    split_ifs <;> simp
  generalize (if c.regs.User then [c.regs .esp, c.regs .ss] else []) = user at hstack hlen ⊢
  have hflags := hstack.push (v := c.regs .eflags) (by omega) (hr.lt_word _)
  have hcs := hflags.push (v := c.regs .cs) (by rw [List.length_cons]; omega) (hr.lt_word _)
  have heip := hcs.push (v := c.regs .eip) (by simp only [List.length_cons]; omega) (hr.lt_word _)
  obtain ⟨c₂, hc₂⟩ : ∃ c₂, c₂ = ((c₁.push (c.regs .eflags)).push (c.regs .cs)).push (c.regs .eip) :=
    ⟨_, rfl⟩
  rw [← hc₂] at heip
  have hregs₂ : ∀ x, x ≠ .esp → c₂.regs x = c₁.regs x := fun x hx => by
    rw [hc₂, Core.push_regs hx, Core.push_regs hx, Core.push_regs hx]
  obtain ⟨hstack₃, hregs₃⟩ : Core.Stacked c.mem (c.regs.trapTop esp0) (error.toList ++
      (c.regs .eip :: c.regs .cs :: c.regs .eflags :: user)) (c₂.pushError error) ∧
      ∀ x, x ≠ .esp → (c₂.pushError error).regs x = c₂.regs x := by
    cases error with
    | none => exact ⟨heip, fun _ _ => rfl⟩
    | some e =>
      exact ⟨heip.push (by simp only [List.length_cons]; omega) (herror e rfl),
        fun x hx => Core.push_regs hx⟩
  have hdeliver : deliver i error esp0 entry c = (((c₂.pushError error).set .eflags
      (gateFlags i (c.regs .eflags))).set .cs 0x08).set .eip entry := by
    rw [hc₂, hc₁]
    rfl
  rw [hdeliver]
  refine ⟨((hstack₃.set (by decide)).set (by decide)).set (by decide), fun x hx => ?_⟩
  have hchanged : ∀ y, y ≠ .esp → y ≠ .ss → (c₂.pushError error).regs y = c.regs y :=
    fun y hy hy' => (hregs₃ y hy).trans ((hregs₂ y hy).trans (hregs y hy hy'))
  cases x with
  | esp => exact absurd rfl hx
  | eip => exact Core.set_self
  | cs => exact (Core.set_of_ne (by decide)).trans Core.set_self
  | eflags =>
    exact (Core.set_of_ne (by decide)).trans ((Core.set_of_ne (by decide)).trans Core.set_self)
  | ss =>
    rw [Core.set_of_ne (by decide), Core.set_of_ne (by decide), Core.set_of_ne (by decide),
      hregs₃ _ (by decide), hregs₂ _ (by decide), hss]
    rfl
  | _ =>
    rw [Core.set_of_ne (by decide), Core.set_of_ne (by decide), Core.set_of_ne (by decide),
      hchanged _ (by decide) (by decide)]
    rfl

/-- The stub pushes a zero where the processor has pushed nothing. -/
lemma stacked_stub {m : ByteMem} {top : ℕ} {l : List ℕ} (hi : i < 256)
    (herror : error.isSome ↔ i ∈ errorVectors) (hroom : 4 * (l.length + 2) ≤ top)
    (h : Core.Stacked m top (error.toList ++ l) c) :
    Core.Stacked m top (i :: error.getD 0 :: l) (exec (isrStub i) c) ∧
      ∀ x, x ≠ .esp → (exec (isrStub i) c).regs x = c.regs x := by
  have hi' : i < 2 ^ 32 := hi.trans (by norm_num)
  cases error with
  | none =>
    have hmem : i ∉ errorVectors := fun hmem => absurd (herror.2 hmem) (by simp)
    rw [isrStub, if_neg hmem]
    have hzero : Core.Stacked m top (0 :: l) (c.push 0) :=
      Core.Stacked.push h (by omega) (by norm_num)
    refine ⟨hzero.push (by rw [List.length_cons]; omega) hi', fun x hx => ?_⟩
    exact (Core.push_regs hx).trans (Core.push_regs hx)
  | some e =>
    have hmem : i ∈ errorVectors := herror.1 rfl
    rw [isrStub, if_pos hmem]
    refine ⟨?_, fun x hx => Core.push_regs hx⟩
    exact Core.Stacked.push (l := e :: l) h (by rw [List.length_cons]; omega) hi'

/-- How long the frame is. -/
def Regs.frameSize (r : Regs) : ℕ := if r.User then 72 else 64

lemma length_frameWords (r : Regs) (i e : ℕ) : 4 * (frameWords r i e).length = r.frameSize := by
  unfold frameWords Regs.frameSize
  split_ifs <;> rfl

/-- The address of the frame of an interrupt. -/
def Regs.frameAt (r : Regs) (esp0 : ℕ) : ℕ := r.trapTop esp0 - r.frameSize

/-- The registers when `interrupt_handler` is called, but for the stack pointer. -/
def Regs.entered (i entry : ℕ) (r : Regs) : Regs
  | .ss => 0x10
  | .eflags => gateFlags i (r .eflags)
  | .cs => 0x08
  | .eip => entry
  | .eax => r .eax / 2 ^ 16 * 2 ^ 16 + 0x10
  | .ds | .es | .fs | .gs => 0x10
  | x => r x

/-- What `interrupt_handler` finds: its argument points to the frame. -/
structure Entered (c c' : Core) (i e esp0 entry : ℕ) : Prop where
  esp : c'.regs .esp + 4 = c.regs.frameAt esp0
  ctx : c'.mem.read32 (c'.regs .esp) = c.regs.frameAt esp0
  frame : c'.mem.Words (c.regs.frameAt esp0) (frameWords c.regs i e)
  rest : ∀ a, a + 4 < c.regs.frameAt esp0 ∨ c.regs.trapTop esp0 ≤ a → c'.mem a = c.mem a
  regs : ∀ x, x ≠ .esp → c'.regs x = c.regs.entered i entry x

/-- `isr_common` saves the rest of the registers. -/
theorem enterHandler_spec (hr : c.regs.Valid) (hi : i < 256)
    (hisSome : error.isSome ↔ i ∈ errorVectors) (herror : ∀ e ∈ error, e < 2 ^ 32)
    (hlt : c.regs.trapTop esp0 < 2 ^ 32) (hroom : 76 ≤ c.regs.trapTop esp0) :
    Entered c (enterHandler i error esp0 entry c) i (error.getD 0) esp0 entry := by
  obtain ⟨hstack, hregs⟩ := @stacked_deliver c i esp0 entry error hr hlt hroom herror
  have hlen : (if c.regs.User then [c.regs .esp, c.regs .ss] else []).length ≤ 2 := by
    split_ifs <;> simp
  obtain ⟨hstub, hregs'⟩ := stacked_stub hi hisSome
    (by simp only [List.length_append, List.length_cons, List.length_nil]; omega) hstack
  have hstubbed : ∀ x, x ≠ .esp → (exec (isrStub i) (deliver i error esp0 entry c)).regs x =
      c.regs.delivered i entry x := fun x hx => (hregs' x hx).trans (hregs x hx)
  -- the registers of the program
  obtain ⟨rs, hrs⟩ : ∃ rs : List Reg, rs =
      [.eax, .ebx, .ecx, .edx, .ebp, .edi, .esi, .ds, .es, .fs, .gs] := ⟨_, rfl⟩
  have hsaved : ∀ x ∈ rs, (exec (isrStub i) (deliver i error esp0 entry c)).regs x = c.regs x := by
    intro x hx
    rw [hrs] at hx
    have hx' : x ≠ .esp := by
      rintro rfl
      simp at hx
    rw [hstubbed x hx']
    cases x <;> first | rfl | simp at hx
  have hframe : (rs.map c.regs).reverse ++ (i :: error.getD 0 :: ([c.regs .eip, c.regs .cs,
      c.regs .eflags] ++ if c.regs.User then [c.regs .esp, c.regs .ss] else [])) =
      frameWords c.regs i (error.getD 0) := by
    rw [hrs]
    rfl
  have hsize := length_frameWords c.regs i (error.getD 0)
  have hsize' : c.regs.frameSize ≤ 72 := by
    unfold Regs.frameSize
    split_ifs <;> norm_num
  have hesp : .esp ∉ rs := by
    rw [hrs]
    decide
  obtain ⟨hpushes, hrest⟩ := hstub.pushes hesp
    (by rw [hrs]; simp only [List.length_append, List.length_cons, List.length_nil]; omega)
    fun x hx => (hsaved x hx).trans_lt (hr.lt_word x)
  rw [List.map_congr_left hsaved, hframe] at hpushes
  obtain ⟨c₁, hc₁⟩ : ∃ c₁, c₁ = exec (rs.map .push) (exec (isrStub i)
    (deliver i error esp0 entry c)) := ⟨_, rfl⟩
  rw [← hc₁] at hpushes hrest
  have hregs₁ : ∀ x, x ≠ .esp → c₁.regs x = c.regs.delivered i entry x := fun x hx =>
    (hrest x hx).trans (hstubbed x hx)
  -- the segments of the kernel
  obtain ⟨c₂, hc₂⟩ : ∃ c₂, c₂ =
      exec [.movAx 0x10, .movSeg .ds, .movSeg .es, .movSeg .fs, .movSeg .gs] c₁ := ⟨_, rfl⟩
  have hstack₂ : Core.Stacked c.mem (c.regs.trapTop esp0) (frameWords c.regs i (error.getD 0)) c₂ := by
    rw [hc₂]
    exact ((((hpushes.set (by decide)).set (by decide)).set (by decide)).set (by decide)).set
      (by decide)
  have hesp₂ : c₂.regs .esp = c.regs.frameAt esp0 := by
    have hesp := hstack₂.esp
    rw [hsize] at hesp
    exact Nat.eq_sub_of_add_eq hesp
  have hregs₂ : ∀ x, x ≠ .esp → c₂.regs x = c.regs.entered i entry x := by
    intro x hx
    have hsame := hregs₁ x hx
    rw [hc₂]
    cases x with
    | esp => exact absurd rfl hx
    | eax => simp [exec, Instr.exec, Core.set, hsame, Regs.entered, Regs.delivered]
    | ds | es | fs | gs => simp [exec, Instr.exec, Core.set, Regs.entered]
    | _ =>
      refine Eq.trans ?_ hsame
      simp [exec, Instr.exec, Core.set]
  have henter : enterHandler i error esp0 entry c = c₂.push (c₂.regs .esp) := by
    rw [hc₂, hc₁, enterHandler, exec_append, hrs]
    rfl
  have hpush := hstack₂.push (v := c₂.regs .esp) (by omega)
    (by rw [hesp₂, Regs.frameAt]; omega)
  rw [henter]
  have hesp₃ : (c₂.push (c₂.regs .esp)).regs .esp + 4 = c.regs.frameAt esp0 := by
    have hesp := hpush.esp
    rw [List.length_cons] at hesp
    rw [Regs.frameAt]
    omega
  obtain ⟨hctx, hwords⟩ := hpush.words
  exact ⟨hesp₃, hctx.trans hesp₂, hesp₃ ▸ hwords, fun a ha => hpush.frame a (by omega),
    fun x hx => (Core.push_regs hx).trans (hregs₂ x hx)⟩

lemma gateFlags_lt {f : ℕ} (h : f < 2 ^ 32) (i : ℕ) : gateFlags i f < 2 ^ 32 :=
  (Nat.and_le_left ..).trans_lt h

/-- The handler runs in the kernel. -/
lemma Entered.valid {c' : Core} {e : ℕ} (h : Entered c c' i e esp0 entry) (hr : c.regs.Valid)
    (hentry : entry < 2 ^ 32) (hlt : c.regs.trapTop esp0 < 2 ^ 32) :
    c'.regs.Valid ∧ ¬ c'.regs.User := by
  have hcs : c'.regs .cs = 0x08 := h.regs .cs (by simp)
  refine ⟨⟨fun x => ?_, Or.inr ⟨by rw [hcs], h.regs .ss (by simp)⟩⟩, by rw [Regs.User, hcs]; simp⟩
  by_cases hx : x = .esp
  · have hesp := h.esp
    rw [Regs.frameAt] at hesp
    rw [hx]
    show _ < 2 ^ 32
    omega
  rw [h.regs x hx]
  cases x with
  | eflags => exact gateFlags_lt (hr.lt .eflags) i
  | eip => exact hentry
  | eax =>
    have heax := hr.lt .eax
    show c.regs .eax / 2 ^ 16 * 2 ^ 16 + 0x10 < 2 ^ 32
    have hpow : Reg.eax.bits = 32 := rfl
    rw [hpow] at heax
    omega
  | ds | es | fs | gs | ss => exact (by decide : 0x10 < 2 ^ 16)
  | cs => exact (by decide : 0x08 < 2 ^ 16)
  | _ => exact hr.lt _

end Enter

/-! ### Back to the program -/

/-- `_restore_context` takes the frame off the stack. -/
theorem restoreContext_spec {c : Core} {r : Regs} {i e : ℕ} (hr : r.Valid)
    (hw : c.mem.Words (c.regs .esp) (frameWords r i e)) (hcs : c.regs .cs % 4 = 0)
    (hlt : c.regs .esp + 72 < 2 ^ 32)
    (hkernel : ¬ r.User → r .esp = c.regs .esp + 64 ∧ r .ss = c.regs .ss) :
    exec restoreContext c = ⟨r, c.mem⟩ := by
  obtain ⟨rs, hrs⟩ : ∃ rs : List Reg, rs =
      [.gs, .fs, .es, .ds, .esi, .edi, .ebp, .edx, .ecx, .ebx, .eax] := ⟨_, rfl⟩
  have hframe : frameWords r i e = rs.map r ++ ([i, e] ++ ([Reg.eip, .cs, .eflags].map r ++
      if r.User then [r .esp, r .ss] else [])) := by
    rw [hrs]
    rfl
  have hlen : rs.length = 11 := by
    rw [hrs]
    rfl
  rw [hframe] at hw
  have htail := (words_append.1 hw).2
  rw [List.length_map, hlen] at htail
  have htail' := (words_append.1 htail).2
  obtain ⟨hmem₁, hesp₁, hin₁, hout₁⟩ := Core.pops hw (by rw [hrs]; decide) (fun x _ => hr.lt x)
    (by omega)
  obtain ⟨c₁, hc₁⟩ : ∃ c₁, c₁ = exec (rs.map .pop) c := ⟨_, rfl⟩
  rw [← hc₁] at hmem₁ hesp₁ hin₁ hout₁
  rw [hlen] at hesp₁
  -- the vector and the error code are skipped
  obtain ⟨c₂, hc₂⟩ : ∃ c₂, c₂ = c₁.set .esp (u32 (c₁.regs .esp + 8)) := ⟨_, rfl⟩
  have hesp₂ : c₂.regs .esp = c.regs .esp + 52 := by
    rw [hc₂, Core.set_self, hesp₁, u32_of_lt (by omega)]
  have hregs₂ : ∀ x, x ≠ .esp → c₂.regs x = c₁.regs x := fun x hx => by
    rw [hc₂, Core.set_of_ne hx]
  have hmem₂ : c₂.mem = c.mem := by rw [hc₂, Core.set_mem, hmem₁]
  have hexec : exec restoreContext c = Instr.exec .iret c₂ := by
    rw [hc₂, hc₁, hrs]
    rfl
  -- `iret`
  have hwords₂ : c₂.mem.Words (c₂.regs .esp) ([Reg.eip, .cs, .eflags].map r ++
      if r.User then [r .esp, r .ss] else []) := by
    rw [hmem₂, hesp₂]
    exact htail'
  obtain ⟨hmem₃, hesp₃, hin₃, hout₃⟩ := Core.pops hwords₂ (by decide) (fun x _ => hr.lt x)
    (by rw [hesp₂]; simp only [List.length_cons, List.length_nil]; omega)
  have hstack := (words_append.1 hwords₂).2
  obtain ⟨c₃, hc₃⟩ : ∃ c₃, c₃ = exec ([Reg.eip, .cs, .eflags].map .pop) c₂ := ⟨_, rfl⟩
  rw [← hc₃] at hmem₃ hesp₃ hin₃ hout₃
  have hesp₃' : c₃.regs .esp = c.regs .esp + 64 := by
    rw [hesp₃, hesp₂]
    rfl
  have hsaved : ∀ x, x ≠ .esp → x ≠ .ss → c₃.regs x = r x := by
    intro x hx hx'
    by_cases hxf : x ∈ [Reg.eip, .cs, .eflags]
    · exact hin₃ x hxf
    · rw [hout₃ x hxf hx, hregs₂ x hx]
      refine hin₁ x ?_
      rw [hrs]
      cases x <;> simp at hx hx' hxf ⊢
  have hss : c₃.regs .ss = c.regs .ss := by
    rw [hout₃ _ (by simp) (by simp), hregs₂ _ (by simp)]
    exact hout₁ _ (by rw [hrs]; simp) (by simp)
  have hcs₂ : c₂.regs .cs % 4 = 0 := by
    rw [hregs₂ _ (by simp), hout₁ _ (by rw [hrs]; simp) (by simp)]
    exact hcs
  have hmem : c₃.mem = c.mem := hmem₃.trans hmem₂
  have hiret : Instr.exec .iret c₂ = if c₂.regs .cs % 4 < c₃.regs .cs % 4 then
      (c₃.set .esp (c₃.mem.read32 (c₃.regs .esp))).set .ss
        (c₃.mem.read32 (u32 (c₃.regs .esp + 4)) % 2 ^ 16) else c₃ := by
    rw [hc₃]
    rfl
  rw [hexec, hiret, hcs₂, hsaved .cs (by simp) (by simp)]
  by_cases hu : r.User
  · -- the stack of the program comes back as well
    rw [if_pos hu] at hstack
    obtain ⟨hsp, hsp', -⟩ := hstack
    have hread : c₃.mem.read32 (c₃.regs .esp) = r .esp := by
      rw [hmem₃, hesp₃]
      exact hsp
    have hread' : c₃.mem.read32 (u32 (c₃.regs .esp + 4)) = r .ss := by
      rw [u32_of_lt (by omega), hmem₃, hesp₃]
      exact hsp'
    have hlow : r .ss % 2 ^ 16 = r .ss := Nat.mod_eq_of_lt (hr.lt .ss)
    rw [if_pos (by rw [hu]; norm_num), hread, hread', hlow]
    refine Core.eq_mk (fun x => ?_) hmem
    by_cases hx : x = .ss
    · rw [hx]
      exact Core.set_self
    by_cases hx' : x = .esp
    · rw [hx']
      exact (Core.set_of_ne (by simp)).trans Core.set_self
    · exact ((Core.set_of_ne hx).trans (Core.set_of_ne hx')).trans (hsaved x hx' hx)
  · have hzero := (hr.ring.resolve_left hu).1
    obtain ⟨hsp, hsp'⟩ := hkernel hu
    rw [if_neg (by rw [hzero]; norm_num)]
    refine Core.eq_mk (fun x => ?_) hmem
    by_cases hx : x = .ss
    · rw [hx, hss, hsp']
    by_cases hx' : x = .esp
    · rw [hx', hesp₃', hsp]
    · exact hsaved x hx' hx

/-- `restore_context(sp0)` -/
def restoreAt (sp0 : ℕ) (c : Core) : Core := exec restoreContext ((c.set .eax sp0).set .esp sp0)

/-- A frame at `a` that can be left: in the kernel it lies on the stack that it leads back to. -/
structure Frame (m : ByteMem) (a : ℕ) (r : Regs) : Prop where
  valid : r.Valid
  words : ∃ i e, i < 2 ^ 32 ∧ e < 2 ^ 32 ∧ m.Words a (frameWords r i e)
  lt : a + 72 < 2 ^ 32
  kernel : ¬ r.User → r .esp = a + 64

lemma Frame.exec {c : Core} {r : Regs} (h : Frame c.mem (c.regs .esp) r)
    (hcs : c.regs .cs % 4 = 0) (hss : c.regs .ss = 0x10) :
    Gummy.exec restoreContext c = ⟨r, c.mem⟩ := by
  obtain ⟨i, e, -, -, hw⟩ := h.words
  refine restoreContext_spec h.valid hw hcs h.lt fun hu => ⟨h.kernel hu, ?_⟩
  rw [hss]
  exact (h.valid.ring.resolve_left hu).2

lemma Frame.restore {c : Core} {a : ℕ} {r : Regs} (h : Frame c.mem a r) (hcs : c.regs .cs % 4 = 0)
    (hss : c.regs .ss = 0x10) : restoreAt a c = ⟨r, c.mem⟩ := by
  obtain ⟨c', hc'⟩ : ∃ c', c' = (c.set .eax a).set .esp a := ⟨_, rfl⟩
  have hesp : c'.regs .esp = a := by
    rw [hc']
    exact Core.set_self
  have hother : ∀ x, x ≠ .esp → x ≠ .eax → c'.regs x = c.regs x := fun x hx hx' => by
    rw [hc', Core.set_of_ne hx, Core.set_of_ne hx']
  have hmem : c'.mem = c.mem := by
    rw [hc']
    rfl
  have hframe : Frame c'.mem (c'.regs .esp) r := by
    rw [hmem, hesp]
    exact h
  rw [restoreAt, ← hc', hframe.exec ((hother .cs (by simp) (by simp)).symm ▸ hcs)
    ((hother .ss (by simp) (by simp)).trans hss), hmem]

/-- When `interrupt_handler` has returned, with the stack pointer it was called with. -/
lemma Frame.return {c : Core} {r : Regs} (h : Frame c.mem (c.regs .esp + 4) r)
    (hcs : c.regs .cs % 4 = 0) (hss : c.regs .ss = 0x10) :
    Gummy.exec isrReturn c = ⟨r, c.mem⟩ := by
  have hlt := h.lt
  obtain ⟨c', hc'⟩ : ∃ c', c' = c.set .esp (c.regs .esp + 4) := ⟨_, rfl⟩
  have hskip : Instr.exec (.addEsp 4) c = c' := by
    rw [Instr.exec, u32_of_lt (by omega), hc']
  have hesp : c'.regs .esp = c.regs .esp + 4 := by
    rw [hc']
    exact Core.set_self
  have hother : ∀ x, x ≠ .esp → c'.regs x = c.regs x := fun x hx => by
    rw [hc', Core.set_of_ne hx]
  have hmem : c'.mem = c.mem := by
    rw [hc']
    rfl
  have hframe : Frame c'.mem (c'.regs .esp) r := by
    rw [hmem, hesp]
    exact h
  have hexec : Gummy.exec isrReturn c = Gummy.exec restoreContext (Instr.exec (.addEsp 4) c) :=
    List.foldl_cons ..
  rw [hexec, hskip, hframe.exec ((hother .cs (by simp)).symm ▸ hcs)
    ((hother .ss (by simp)).trans hss), hmem]

end Gummy
