import Gummy.Kernel.UserMemory
import Gummy.Trap.Gates
import Gummy.Trap.Threads

/-!
What a program can ask the kernel for: the wrappers of `syscall.h`, and what `syscall_handler`,
`schedule` and `exception_handler` make of the registers.

`Syscall` has the arguments of the calls as they come in.  Here they go through registers, a gate
and the frame on the kernel stack.
-/

namespace Gummy

open CWord ByteMem

/-! ### `syscall.h` -/

/-- The system calls, with the arguments of their wrappers. -/
inductive Request
  | exit (status : ℕ)
  | getpid
  | getppid
  | nprocess (entry n : ℕ)
  | nthread (entry : ℕ)
  | sleep (ms : ℕ)
  | send (pid type data size : ℕ)
  | receive (senderPid buffer size : ℕ)

namespace Request

/-- `SYS_EXIT` and so on -/
def number : Request → ℕ
  | exit .. => 0
  | getpid => 1
  | getppid => 2
  | nprocess .. => 3
  | nthread .. => 4
  | sleep .. => 5
  | send .. => 6
  | receive .. => 7

/-- The operands of the inline assembly, but for the number. -/
def operands : Request → List (Reg × ℕ)
  | exit status => [(.ebx, status)]
  | getpid => []
  | getppid => []
  | nprocess entry n => [(.ebx, entry), (.ecx, n)]
  | nthread entry => [(.ebx, entry)]
  | sleep ms => [(.ebx, ms)]
  | send pid type data size => [(.ebx, pid), (.ecx, type), (.esi, data), (.edx, size)]
  | receive senderPid buffer size => [(.ebx, size), (.esi, senderPid), (.edi, buffer)]

/-- The registers before `int $0x80`. -/
def load (q : Request) (r : Regs) : Regs :=
  ((.eax, q.number) :: q.operands).foldl (fun r (x, v) => Function.update r x v) r

/-- The arguments are words. -/
def Fits (q : Request) : Prop := ∀ x ∈ q.operands, x.2 < 2 ^ 32

end Request

/-! ### The handlers -/

/-- What the registers do not say: the heap's choices and what memory held before. -/
structure World where
  cData : HeapChoice
  cProc : HeapChoice
  cStack : HeapChoice
  g : Garbage
  stack : ByteMem

/-- What the kernel does for a request. -/
def Request.outcome (w : World) (s : Kernel) : Request → Outcome
  | exit status => handle (.exit status) s
  | getpid => handle .getpid s
  | getppid => handle .getppid s
  | nprocess entry n => returning (sysNprocessImpl entry n w.cData w.cProc w.cStack w.g s)
  | nthread entry => handle (.nthread entry w.cStack) s
  | sleep ms => handle (.sleep ms) s
  | send pid type data size => handle (.send pid type (s.mach.userData data) size w.stack) s
  | receive senderPid buffer size => handle (.receive senderPid buffer size) s

/-- `syscall_handler` and the `sys_*_impl`, with the context at `ctx` -/
def syscallHandler (m : ByteMem) (ctx : ℕ) (w : World) (s : Kernel) : Outcome :=
  let esi := m.read32 (ctx + 16)
  let edi := m.read32 (ctx + 20)
  let edx := m.read32 (ctx + 28)
  let ecx := m.read32 (ctx + 32)
  let ebx := m.read32 (ctx + 36)
  match m.read32 (ctx + 40) with
  | 0 => schedExitCurrentThread ebx s
  | 1 => returning (schedGetCurrentPid s, s)
  | 2 => returning (schedGetCurrentPpid s, s)
  | 3 => returning (sysNprocessImpl ebx ecx w.cData w.cProc w.cStack w.g s)
  | 4 => returning (sysNthread ebx w.cStack s)
  | 5 => sysSleep ebx s
  | 6 => returning (ipcSend ebx ecx (s.mach.userData esi) edx w.stack s)
  | 7 => ipcReceive esi edi ebx s
  | _ => returning (2 ^ 32 - 1, s)

/-- `debug_dump_code`: whether all bytes can be read. -/
def debugDumpCode (eip count : ℕ) (m : Machine) : Bool :=
  (List.range count).all fun i => (m.translate (u32 (eip + i))).isSome

/-- `exception_handler`.  A page fault in `debug_dump_code` is one of the kernel, for which the
handler stops the machine as it does for any other. -/
def exceptionHandler (m : ByteMem) (ctx : ℕ) (s : Kernel) : Outcome :=
  let fromUser := m.read32 (ctx + 56) &&& 3 = 3
  if ¬ debugDumpCode (m.read32 (ctx + 52)) 16 s.mach then .done { s with halted := true }
  else if fromUser then handle .fault s
  else .done { s with halted := true }

/-- What a handler does. -/
def Handler.run (m : ByteMem) (ctx : ℕ) (w : World) (s : Kernel) : Handler → Outcome
  | .exceptionHandler => Gummy.exceptionHandler m ctx s
  | .timerHandler => handle .tick s
  | .syscallHandler => Gummy.syscallHandler m ctx w s
  | .schedule => handle .yield s

/-! ### The registers of a request -/

namespace Request

variable {q : Request} {r : Regs} {x : Reg} {v : ℕ}

lemma load_eax : q.load r .eax = q.number := by
  cases q <;> rfl

lemma load_operand (h : (x, v) ∈ q.operands) : x.bits = 32 ∧ q.load r x = v := by
  cases q <;> simp only [operands, List.mem_cons, List.not_mem_nil, or_false, Prod.mk.injEq] at h
  case exit | nthread | sleep =>
    obtain ⟨rfl, rfl⟩ := h
    exact ⟨rfl, rfl⟩
  case nprocess => rcases h with ⟨rfl, rfl⟩ | ⟨rfl, rfl⟩ <;> exact ⟨rfl, rfl⟩
  case send =>
    rcases h with ⟨rfl, rfl⟩ | ⟨rfl, rfl⟩ | ⟨rfl, rfl⟩ | ⟨rfl, rfl⟩ <;> exact ⟨rfl, rfl⟩
  case receive => rcases h with ⟨rfl, rfl⟩ | ⟨rfl, rfl⟩ | ⟨rfl, rfl⟩ <;> exact ⟨rfl, rfl⟩

lemma load_of_ne (hx : x ≠ .eax) (hx' : ∀ v, (x, v) ∉ q.operands) : q.load r x = r x := by
  cases q <;> cases x <;> first | rfl | simp [operands] at hx hx'

/-- The calls use the general registers. -/
lemma load_segment (hx : x.bits = 16 ∨ x = .esp) : q.load r x = r x := by
  have hx' : x ≠ .eax := by
    rintro rfl
    simp [Reg.bits] at hx
  cases q <;> cases x <;> first | rfl | simp [Reg.bits] at hx hx'

lemma load_valid (hr : r.Valid) (hq : q.Fits) : (q.load r).Valid := by
  refine ⟨fun x => ?_, ?_⟩
  · by_cases hx : x = .eax
    · rw [hx, load_eax]
      cases q <;> simp [number, Reg.bits]
    by_cases hop : ∃ v, (x, v) ∈ q.operands
    · obtain ⟨v, hv⟩ := hop
      obtain ⟨hbits, hload⟩ := load_operand (r := r) hv
      rw [hbits, hload]
      exact hq _ hv
    · rw [load_of_ne hx (not_exists.1 hop)]
      exact hr.lt x
  · have hring := hr.ring
    rwa [Regs.User, load_segment (.inl rfl), load_segment (.inl rfl)]

end Request

/-! ### The frame -/

section Frame

variable {m : ByteMem} {ctx i e : ℕ} {r : Regs}

/-- What the handlers read of the context. -/
lemma read_frame (h : m.Words ctx (frameWords r i e)) :
    m.read32 (ctx + 16) = r .esi ∧ m.read32 (ctx + 20) = r .edi ∧ m.read32 (ctx + 28) = r .edx ∧
      m.read32 (ctx + 32) = r .ecx ∧ m.read32 (ctx + 36) = r .ebx ∧ m.read32 (ctx + 40) = r .eax ∧
      m.read32 (ctx + 52) = r .eip ∧ m.read32 (ctx + 56) = r .cs := by
  have hlen : 15 < (frameWords r i e).length := by
    have hsize := length_frameWords r i e
    unfold Regs.frameSize at hsize
    split_ifs at hsize <;> omega
  refine ⟨?_, ?_, ?_, ?_, ?_, ?_, ?_, ?_⟩
  · exact h.read32 (i := 4) (by omega)
  · exact h.read32 (i := 5) (by omega)
  · exact h.read32 (i := 7) (by omega)
  · exact h.read32 (i := 8) (by omega)
  · exact h.read32 (i := 9) (by omega)
  · exact h.read32 (i := 10) (by omega)
  · exact h.read32 (i := 13) (by omega)
  · exact h.read32 (i := 14) (by omega)

/-- **`syscall_handler` gets the arguments that the wrapper got.** -/
theorem syscallHandler_spec {q : Request} (hq : q.Fits)
    (h : m.Words ctx (frameWords (q.load r) i e)) (w : World) (s : Kernel) :
    syscallHandler m ctx w s = q.outcome w s := by
  obtain ⟨hesi, hedi, hedx, hecx, hebx, heax, -, -⟩ := read_frame h
  rw [Request.load_eax] at heax
  have hword : ∀ x ∈ q.operands, u32 x.2 = x.2 := fun x hx => u32_of_lt (hq x hx)
  unfold syscallHandler
  simp only [hesi, hedi, hedx, hecx, hebx, heax]
  cases q with
  | exit status =>
    show schedExitCurrentThread status s = schedExitCurrentThread (u32 status) s
    rw [hword (.ebx, status) List.mem_cons_self]
  | getpid => rfl
  | getppid => rfl
  | nprocess entry n => rfl
  | nthread entry =>
    show returning (sysNthread entry w.cStack s) = returning (sysNthread (u32 entry) w.cStack s)
    rw [hword (.ebx, entry) List.mem_cons_self]
  | sleep ms =>
    show sysSleep ms s = sysSleep (u32 ms) s
    rw [hword (.ebx, ms) List.mem_cons_self]
  | send pid type data size =>
    show returning (ipcSend pid type (s.mach.userData data) size w.stack s) = returning
      (ipcSend (u32 pid) (u32 type) (s.mach.userData data) (u32 size) w.stack s)
    rw [hword (.ebx, pid) (by simp [Request.operands]),
      hword (.ecx, type) (by simp [Request.operands]),
      hword (.edx, size) (by simp [Request.operands])]
  | receive senderPid buffer size =>
    show ipcReceive senderPid buffer size s =
      ipcReceive (u32 senderPid) (u32 buffer) (u32 size) s
    rw [hword (.esi, senderPid) (by simp [Request.operands]),
      hword (.edi, buffer) (by simp [Request.operands]),
      hword (.ebx, size) (by simp [Request.operands])]

/-- An exception of a program ends it, unless `exception_handler` cannot read the code. -/
lemma exceptionHandler_spec (hr : r.User) (h : m.Words ctx (frameWords r i e)) (s : Kernel) :
    exceptionHandler m ctx s = if debugDumpCode (r .eip) 16 s.mach then handle .fault s
      else .done { s with halted := true } := by
  obtain ⟨-, -, -, -, -, -, heip, hcs⟩ := read_frame h
  have huser : r .cs &&& 3 = 3 := (and_mask (r .cs)).2.2.2.trans hr
  unfold exceptionHandler
  rw [heip, hcs]
  dsimp only
  by_cases hdump : debugDumpCode (r .eip) 16 s.mach = true
  · rw [if_neg (not_not.2 hdump), if_pos huser, if_pos hdump]
  · rw [if_pos hdump, if_neg hdump]

end Frame

/-! ### The tables while the kernel runs -/

/-- After `kmain` has set the tables up, `switch_context` has set the stacks `sp0s`. -/
def kernelCalls (sp0s : List ℕ) : List TableCall := kmainCalls ++ sp0s.map (.setSp0 · 0x10)

def kernelTables (isrTable : ℕ → ℕ) (t : Tables) (sp0s : List ℕ) : Tables :=
  (tablesInit isrTable t).runAll (kernelCalls sp0s)

/-- The gates of `kmain`. -/
def kernelGates (esp0 : ℕ) : Gates where
  dpl n := if n = 0x80 ∨ n = 0x81 then 3 else 0
  handler n :=
    if n < 32 then some .exceptionHandler
    else if n = 32 then some .timerHandler
    else if n = 0x80 then some .syscallHandler
    else if n = 0x81 then some .schedule
    else none
  esp0

lemma Gates.applyAll_append (l l' : List TableCall) (g : Gates) :
    g.applyAll (l ++ l') = (g.applyAll l).applyAll l' := List.foldl_append ..

/-- `exception_init` -/
lemma Gates.applyAll_exceptions (n : ℕ) (g : Gates) :
    g.applyAll ((List.range n).map (.setHandler · .exceptionHandler)) =
      { g with handler := fun i => if i < n then some .exceptionHandler else g.handler i } := by
  induction n with
  | zero => simp [applyAll]
  | succ n ih =>
    rw [List.range_succ, List.map_append, applyAll_append, ih]
    simp only [List.map_cons, List.map_nil, applyAll, List.foldl_cons, List.foldl_nil,
      TableCall.apply, Gates.mk.injEq, and_true, true_and]
    funext i
    by_cases hi : i = n
    · rw [hi, Function.update_self, if_pos (Nat.lt_succ_self n)]
    · rw [Function.update_of_ne hi]
      exact if_congr (by omega) rfl rfl

lemma Gates.applyAll_stacks (sp0s : List ℕ) (g : Gates) :
    g.applyAll (sp0s.map (.setSp0 · 0x10)) = { g with esp0 := sp0s.getLastD g.esp0 } := by
  induction sp0s generalizing g with
  | nil => rfl
  | cons sp0 sp0s ih =>
    rw [List.map_cons, applyAll, List.foldl_cons]
    exact (ih _).trans (by rw [List.getLastD_cons]; rfl)

lemma kernelGates_eq (sp0s : List ℕ) :
    Gates.init.applyAll (kernelCalls sp0s) = kernelGates (sp0s.getLastD 0) := by
  rw [kernelCalls, kmainCalls, Gates.applyAll_append, Gates.applyAll_append,
    Gates.applyAll_exceptions, Gates.applyAll_stacks]
  simp only [Gates.applyAll, List.foldl_cons, List.foldl_nil, TableCall.apply, kernelGates,
    Gates.init, Gates.mk.injEq, and_true]
  refine ⟨?_, ?_⟩ <;> funext n
  · by_cases h₈₀ : n = 0x80
    · rw [h₈₀]
      rfl
    rw [Function.update_of_ne h₈₀]
    by_cases h₈₁ : n = 0x81
    · rw [h₈₁]
      rfl
    rw [Function.update_of_ne h₈₁, if_neg (by omega)]
  · by_cases h₈₀ : n = 0x80
    · rw [h₈₀]
      rfl
    rw [Function.update_of_ne h₈₀]
    by_cases h₈₁ : n = 0x81
    · rw [h₈₁]
      rfl
    rw [Function.update_of_ne h₈₁]
    by_cases h₃₂ : n = 32
    · rw [h₃₂]
      rfl
    rw [Function.update_of_ne h₃₂, if_neg h₃₂, if_neg h₈₀, if_neg h₈₁]

/-- The tables before `kmain`, with the stubs in memory. -/
structure Loaded (isrTable : ℕ → ℕ) (t : Tables) : Prop where
  stub : ∀ i < idtEntries, isrTable i < 2 ^ 32
  tssBase : t.tssBase < 2 ^ 32
  handlers : ∀ i < idtEntries, t.handlers i = none

lemma Loaded.gated {isrTable : ℕ → ℕ} {t : Tables} (h : Loaded isrTable t) (sp0s : List ℕ) :
    Gated isrTable (kernelGates (sp0s.getLastD 0)) (kernelTables isrTable t sp0s) := by
  have hcalls : ∀ call ∈ kernelCalls sp0s, call.Kernel := by
    refine List.forall_mem_append.2 ⟨kmainCalls_kernel, fun call hcall => ?_⟩
    obtain ⟨sp0, -, rfl⟩ := List.mem_map.1 hcall
    rfl
  rw [← kernelGates_eq]
  exact (Gated.init h.stub h.tssBase h.handlers).runAll hcalls

/-! ### There and back -/

/-- An interrupt, up to the call of `interrupt_handler`. -/
def Tables.take (t : Tables) (i : ℕ) (error : Option ℕ) (c : Core) : Option Core :=
  (t.interrupt i error c).map (exec (isrStub i ++ isrCommon))

/-- `int n`, up to the call of `interrupt_handler`. -/
def Tables.takeInt (t : Tables) (n : ℕ) (c : Core) : Option Core :=
  (t.int n c).map (exec (isrStub (if (t.idt n).dpl < c.regs .cs % 4 then 13 else n) ++ isrCommon))

/-- `interrupt_handler` -/
def Tables.handle (t : Tables) (c : Core) (w : World) (s : Kernel) : Option Outcome :=
  let ctx := c.mem.read32 (c.regs .esp)
  (interruptHandler t c.mem ctx).map (Handler.run c.mem ctx w s)

section Calls

variable {isrTable : ℕ → ℕ} {t : Tables} {sp0s : List ℕ} {r : Regs} {m : ByteMem}

/-- An interrupt while the kernel runs: the frame has the registers, and the handler is the one that
`kmain` has registered. -/
lemma Loaded.take (h : Loaded isrTable t) (hr : r.Valid) {i : ℕ} (hi : i < idtEntries)
    {error : Option ℕ} (hisSome : error.isSome ↔ i ∈ errorVectors)
    (herror : ∀ e ∈ error, e < 2 ^ 32) (hlt : r.trapTop (sp0s.getLastD 0) < 2 ^ 32)
    (hroom : 76 ≤ r.trapTop (sp0s.getLastD 0)) :
    ∃ c, (kernelTables isrTable t sp0s).take i error ⟨r, m⟩ = some c ∧
      Entered ⟨r, m⟩ c i (error.getD 0) (sp0s.getLastD 0) (isrTable i) ∧
      ∀ w s, (kernelTables isrTable t sp0s).handle c w s =
        ((kernelGates (sp0s.getLastD 0)).handler i).map
          (Handler.run c.mem (r.frameAt (sp0s.getLastD 0)) w s) := by
  have hgated := h.gated sp0s
  have hentered := @enterHandler_spec ⟨r, m⟩ i (sp0s.getLastD 0) (isrTable i) error hr hi hisSome
    herror hlt hroom
  refine ⟨_, ?_, hentered, fun w s => ?_⟩
  · rw [Tables.take, hgated.interrupt hi hr]
    rfl
  · rw [Tables.handle, hgated.handler hi hentered, hentered.ctx]

lemma Loaded.takeInt (h : Loaded isrTable t) {n : ℕ} (hn : n < idtEntries) :
    (kernelTables isrTable t sp0s).takeInt n ⟨r, m⟩ =
      if (kernelGates 0).dpl n < r .cs % 4 then
        (kernelTables isrTable t sp0s).take 13 (some (n * 2 ^ 3 + 2)) ⟨r, m⟩
      else (kernelTables isrTable t sp0s).take n none ⟨r, m⟩ := by
  have hgated := h.gated sp0s
  have hdpl : ((kernelTables isrTable t sp0s).idt n).dpl = (kernelGates 0).dpl n :=
    (hgated.gate hn).2.1
  rw [Tables.takeInt, Tables.int, hdpl]
  split_ifs <;> rfl

/-- When the handler leaves the frame alone but for the value that it returns, the program goes on
with that value in `eax`. -/
lemma Entered.return {c c' : Core} {i e esp0 entry ret : ℕ} (h : Entered ⟨r, m⟩ c i e esp0 entry)
    (hr : r.Valid) (hi : i < 2 ^ 32) (he : e < 2 ^ 32) (hroom : 76 ≤ r.trapTop esp0)
    (hlt : r.trapTop esp0 + 8 < 2 ^ 32) (hret : ret < 2 ^ 32)
    (hregs : ∀ x ∈ [Reg.esp, .cs, .ss], c'.regs x = c.regs x)
    (hmem : ∀ a, r.frameAt esp0 ≤ a → a < r.trapTop esp0 → c'.mem a = c.mem a) :
    exec isrReturn { c' with mem := c'.mem.write32 (r.frameAt esp0 + 40) ret } =
      ⟨Function.update r .eax ret, c'.mem.write32 (r.frameAt esp0 + 40) ret⟩ := by
  have hesp : c'.regs .esp + 4 = r.frameAt esp0 := (hregs .esp (by simp)).symm ▸ h.esp
  have hcs : c'.regs .cs = 0x08 := (hregs .cs (by simp)).trans (h.regs .cs (by simp))
  have hss : c'.regs .ss = 0x10 := (hregs .ss (by simp)).trans (h.regs .ss (by simp))
  have hsize := r.frameSize_eq
  have hwords : c.mem.Words (r.frameAt esp0) (frameWords r i e) := h.frame
  have hframe : Frame c'.mem (r.frameAt esp0) r := by
    refine ⟨hr, ⟨i, e, hi, he, hwords.congr fun x hx hx' => hmem x hx ?_⟩, ?_, fun hu => ?_⟩
    · rw [length_frameWords, Regs.frameAt] at hx'
      split_ifs at hsize <;> omega
    · rw [Regs.frameAt]
      split_ifs at hsize <;> omega
    · rw [if_neg hu] at hsize
      have htop : r.trapTop esp0 = r .esp := if_neg hu
      rw [Regs.frameAt]
      omega
  have hset := hframe.setEax hret
  refine Frame.return (c := { c' with mem := c'.mem.write32 (r.frameAt esp0 + 40) ret }) ?_ ?_ hss
  · rw [hesp]
    exact hset
  · show c'.regs .cs % 4 = 0
    rw [hcs]

/-- A system call comes back: what the wrapper puts into registers is what the kernel acts upon, and
when it is done all registers are as they were but for the result. -/
theorem system_call_round_trip (h : Loaded isrTable t) {q : Request} (hq : q.Fits) (hr : r.Valid)
    (hlt : r.trapTop (sp0s.getLastD 0) + 8 < 2 ^ 32) (hroom : 76 ≤ r.trapTop (sp0s.getLastD 0)) :
    ∃ c ctx, (kernelTables isrTable t sp0s).takeInt 0x80 ⟨q.load r, m⟩ = some c ∧
      (∀ w s, (kernelTables isrTable t sp0s).handle c w s = some (q.outcome w s)) ∧
      (∀ a, a + 4 < ctx ∨ r.trapTop (sp0s.getLastD 0) ≤ a → c.mem a = m a) ∧
      ∀ (c' : Core) (ret : ℕ), ret < 2 ^ 32 → (∀ x ∈ [Reg.esp, .cs, .ss], c'.regs x = c.regs x) →
        (∀ a, ctx ≤ a → a < r.trapTop (sp0s.getLastD 0) → c'.mem a = c.mem a) →
        exec isrReturn { c' with mem := c'.mem.write32 (ctx + 40) ret } =
          ⟨Function.update (q.load r) .eax ret, c'.mem.write32 (ctx + 40) ret⟩ := by
  have hload := q.load_valid hr hq
  have htop : (q.load r).trapTop (sp0s.getLastD 0) = r.trapTop (sp0s.getLastD 0) := by
    have hcs : q.load r .cs = r .cs := q.load_segment (.inl rfl)
    have hesp : q.load r .esp = r .esp := q.load_segment (.inr rfl)
    simp only [Regs.trapTop, Regs.User, hcs, hesp]
  rw [← htop] at hlt hroom ⊢
  have hnone : (none : Option ℕ).isSome ↔ 0x80 ∈ errorVectors := by decide
  obtain ⟨c, htake, hentered, hhandle⟩ := h.take (m := m) hload (by norm_num) hnone
    (fun _ he => by cases he) (lt_of_le_of_lt (Nat.le_add_right _ 8) hlt) hroom
  have hgate : ¬ (kernelGates 0).dpl 0x80 < q.load r .cs % 4 := by
    have hdpl : (kernelGates 0).dpl 0x80 = 3 := rfl
    omega
  refine ⟨c, (q.load r).frameAt (sp0s.getLastD 0), ?_, fun w s => ?_, hentered.rest,
    fun c' ret hret hregs hmem => ?_⟩
  · rw [h.takeInt (by norm_num), if_neg hgate]
    exact htake
  · rw [hhandle]
    exact congrArg some (syscallHandler_spec hq hentered.frame w s)
  · exact hentered.return hload (by norm_num) (by norm_num) hroom hlt hret hregs hmem

/-- What a program can do by interrupts: make a system call, yield, or be killed.  But the exception
stops the machine if the code cannot be read, and `int n` is an exception for all other `n`. -/
theorem user_interrupts (h : Loaded isrTable t) (hr : r.Valid) (hu : r.User)
    (hlt : sp0s.getLastD 0 < 2 ^ 32) (hroom : 76 ≤ sp0s.getLastD 0) :
    (∀ n < idtEntries, ∃ c, (kernelTables isrTable t sp0s).takeInt n ⟨r, m⟩ = some c ∧
      ∀ w s, (kernelTables isrTable t sp0s).handle c w s = some (
        if n = 0x80 then syscallHandler c.mem (r.frameAt (sp0s.getLastD 0)) w s
        else if n = 0x81 then Gummy.handle .yield s
        else if debugDumpCode (r .eip) 16 s.mach then Gummy.handle .fault s
        else .done { s with halted := true })) ∧
    ∀ i < 32, ∀ error : Option ℕ, (error.isSome ↔ i ∈ errorVectors) → (∀ e ∈ error, e < 2 ^ 32) →
      ∃ c, (kernelTables isrTable t sp0s).take i error ⟨r, m⟩ = some c ∧
      ∀ w s, (kernelTables isrTable t sp0s).handle c w s = some (
        if debugDumpCode (r .eip) 16 s.mach then Gummy.handle .fault s
        else .done { s with halted := true }) := by
  have htop : r.trapTop (sp0s.getLastD 0) = sp0s.getLastD 0 := if_pos hu
  rw [← htop] at hlt hroom
  have hfault : ∀ i < 32, ∀ error : Option ℕ, (error.isSome ↔ i ∈ errorVectors) →
      (∀ e ∈ error, e < 2 ^ 32) →
      ∃ c, (kernelTables isrTable t sp0s).take i error ⟨r, m⟩ = some c ∧
      ∀ w s, (kernelTables isrTable t sp0s).handle c w s = some (
        if debugDumpCode (r .eip) 16 s.mach then Gummy.handle .fault s
        else .done { s with halted := true }) := by
    intro i hi error hisSome herror
    obtain ⟨c, htake, hentered, hhandle⟩ := h.take (m := m) hr (hi.trans (by norm_num)) hisSome
      herror hlt hroom
    refine ⟨c, htake, fun w s => ?_⟩
    have hhandler : (kernelGates (sp0s.getLastD 0)).handler i = some .exceptionHandler := if_pos hi
    rw [hhandle, hhandler]
    exact congrArg some (exceptionHandler_spec hu hentered.frame s)
  refine ⟨fun n hn => ?_, hfault⟩
  rw [h.takeInt hn, hu]
  by_cases hgate : n = 0x80 ∨ n = 0x81
  · have hdpl : (kernelGates 0).dpl n = 3 := if_pos hgate
    have hnone : (none : Option ℕ).isSome ↔ n ∈ errorVectors := by
      rcases hgate with rfl | rfl <;> decide
    rw [hdpl, if_neg (lt_irrefl 3)]
    obtain ⟨c, htake, -, hhandle⟩ := h.take (m := m) hr hn hnone (fun _ he => by cases he) hlt hroom
    refine ⟨c, htake, fun w s => ?_⟩
    rw [hhandle]
    rcases hgate with rfl | rfl <;> rfl
  · have hdpl : (kernelGates 0).dpl n = 0 := if_neg hgate
    rw [hdpl, if_pos (by norm_num)]
    simp only [if_neg fun h₈₀ => hgate (.inl h₈₀), if_neg fun h₈₁ => hgate (.inr h₈₁)]
    refine hfault 13 (by norm_num) _ ⟨fun _ => by decide, fun _ => rfl⟩ fun e he => ?_
    obtain rfl := Option.some.inj he
    have hn' : n < 256 := hn
    omega

end Calls

/-- The stubs lie one after the other. -/
def someStubs (i : ℕ) : ℕ := 0xC0100000 + 16 * i

lemma zeroTables_loaded : Loaded someStubs zeroTables :=
  ⟨fun i (hi : i < 256) => by rw [someStubs]; omega, by decide, fun _ _ => rfl⟩

/-- A program sends five bytes, which fails. -/
theorem system_call_round_trip_send : ∃ c ctx,
    (kernelTables someStubs zeroTables [0xC0030000]).takeInt 0x80
      ⟨(Request.send 2 7 0x500000 5).load userCore.regs, userCore.mem⟩ = some c ∧
    exec isrReturn { c with mem := c.mem.write32 (ctx + 40) 1 } =
      ⟨Function.update ((Request.send 2 7 0x500000 5).load userCore.regs) .eax 1,
        c.mem.write32 (ctx + 40) 1⟩ := by
  have htop : userCore.regs.trapTop ([0xC0030000].getLastD 0) = 0xC0030000 := if_pos rfl
  have hfits : (Request.send 2 7 0x500000 5).Fits := by
    intro x hx
    simp only [Request.operands, List.mem_cons, List.not_mem_nil, or_false] at hx
    rcases hx with rfl | rfl | rfl | rfl <;> norm_num
  obtain ⟨c, ctx, htake, -, -, hreturn⟩ := system_call_round_trip (m := userCore.mem)
    zeroTables_loaded hfits userCore_valid (by rw [htop]; norm_num) (by rw [htop]; norm_num)
  exact ⟨c, ctx, htake, hreturn c 1 (by norm_num) (fun _ _ => rfl) fun _ _ _ => rfl⟩

/-- A program divides by zero, and it tries `int 32`. -/
theorem user_interrupts_faults :
    (∃ c, (kernelTables someStubs zeroTables [0xC0030000]).take 0 none userCore = some c) ∧
    ∃ c, (kernelTables someStubs zeroTables [0xC0030000]).takeInt 32 userCore = some c := by
  obtain ⟨hint, hfault⟩ := @user_interrupts someStubs zeroTables [0xC0030000] userCore.regs
    userCore.mem zeroTables_loaded userCore_valid rfl (by decide) (by decide)
  obtain ⟨c, htake, -⟩ := hfault 0 (by norm_num) none (by decide) fun _ he => by cases he
  obtain ⟨c', htake', -⟩ := hint 32 (by norm_num)
  exact ⟨⟨c, htake⟩, c', htake'⟩

end Gummy
