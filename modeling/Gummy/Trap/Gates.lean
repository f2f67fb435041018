import Gummy.Trap

/-!
The tables that an interrupt goes through: `gdt.c`, `tss.c` and `idt.c`.

The C code packs segments and gates into descriptors, and the processor takes them apart again.
`Tables.interrupt` is what the processor does with them; in the tables that `kmain` sets up it is
the `deliver` of `Trap`.
-/

namespace Gummy

open CWord ByteMem

/-! ### Segments -/

/-- `gdt_entry_t` -/
structure GdtEntry where
  limitLow : ℕ
  baseLow : ℕ
  baseMid : ℕ
  access : ℕ
  flagsAndLimitHigh : ℕ
  baseHigh : ℕ

abbrev gdtEntries : ℕ := 8

/-- `gdt_set_entry` -/
def gdtSetEntry (index base limit access flags : ℕ) (gdt : ℕ → GdtEntry) : ℕ → GdtEntry :=
  if gdtEntries ≤ index then gdt
  else Function.update gdt index
    { baseLow := base &&& 0xFFFF
      limitLow := limit &&& 0xFFFF
      baseMid := base >>> 16 &&& 0xFF
      access
      flagsAndLimitHigh := (flags <<< 4 &&& 0xF0) ||| (limit >>> 16 &&& 0x0F)
      baseHigh := base >>> 24 &&& 0xFF }

/-- `gdt_init` -/
def gdtInit (gdt : ℕ → GdtEntry) : ℕ → GdtEntry :=
  let gdt := (List.range gdtEntries).foldl (fun gdt i => gdtSetEntry i 0 0 0 0 gdt) gdt
  let gdt := gdtSetEntry 1 0 0xFFFFF 0x9A 0xC gdt
  let gdt := gdtSetEntry 2 0 0xFFFFF 0x92 0xC gdt
  let gdt := gdtSetEntry 3 0 0xFFFFF 0xFA 0xC gdt
  gdtSetEntry 4 0 0xFFFFF 0xF2 0xC gdt

namespace GdtEntry

/-- What the processor reads from the descriptor. -/
def base (e : GdtEntry) : ℕ := e.baseLow + e.baseMid * 2 ^ 16 + e.baseHigh * 2 ^ 24

def limit (e : GdtEntry) : ℕ := e.limitLow + e.flagsAndLimitHigh % 2 ^ 4 * 2 ^ 16

def flags (e : GdtEntry) : ℕ := e.flagsAndLimitHigh / 2 ^ 4

def present (e : GdtEntry) : Bool := e.access / 2 ^ 7 % 2 = 1

def dpl (e : GdtEntry) : ℕ := e.access / 2 ^ 5 % 2 ^ 2

/-- The last byte of the segment; the limit may count pages. -/
def last (e : GdtEntry) : ℕ :=
  if e.flags / 2 ^ 3 % 2 = 1 then e.limit * 2 ^ 12 + (2 ^ 12 - 1) else e.limit

/-- A code segment, and not a conforming one. -/
def isCode (e : GdtEntry) : Bool := e.access / 2 ^ 2 % 2 ^ 3 = 6

/-- A task state segment that can be loaded or has been. -/
def isTss (e : GdtEntry) : Bool := e.access % 2 ^ 5 / 2 ^ 2 = 2

end GdtEntry

/-! ### Gates -/

/-- `idt_entry_t` -/
structure IdtEntry where
  offsetLow : ℕ
  selector : ℕ
  reserved : ℕ
  attributes : ℕ
  offsetHigh : ℕ

abbrev idtEntries : ℕ := 256

/-- `IDT_INTERRUPT_GATE` -/
abbrev idtInterruptGate : ℕ := 0x8E

/-- `IDT_TRAP_GATE` -/
abbrev idtTrapGate : ℕ := 0x8F

/-- The functions that `idt_set_handler` is called with. -/
inductive Handler
  | exceptionHandler
  | timerHandler
  | syscallHandler
  | schedule
  deriving DecidableEq

/-- The fields of `struct tss_entry` that the processor reads. -/
structure TssEntry where
  esp0 : ℕ
  ss0 : ℕ

/-- The tables in memory; the task state segment lies at `tssBase`. -/
structure Tables where
  gdt : ℕ → GdtEntry
  idt : ℕ → IdtEntry
  handlers : ℕ → Option Handler
  tssBase : ℕ
  tss : TssEntry

/-- `idt_set_entry` -/
def idtSetEntry (index offset selector attr : ℕ) (t : Tables) : Tables :=
  if idtEntries ≤ index then t
  else
    let entry : IdtEntry :=
      { offsetLow := offset &&& 0xFFFF
        selector
        reserved := 0
        attributes := attr
        offsetHigh := offset >>> 16 &&& 0xFFFF }
    { t with idt := Function.update t.idt index entry }

/-- `idt_set_handler` -/
def idtSetHandler (index : ℕ) (handler : Handler) (t : Tables) : Tables :=
  if idtEntries ≤ index then t
  else { t with handlers := Function.update t.handlers index (some handler) }

/-- `idt_set_dpl` -/
def idtSetDpl (index dpl : ℕ) (t : Tables) : Tables :=
  if idtEntries ≤ index then t
  else
    let dpl := dpl &&& 3
    let attributes := (t.idt index).attributes &&& 0x9F
    let entry : IdtEntry := { t.idt index with attributes := attributes ||| dpl <<< 5 }
    { t with idt := Function.update t.idt index entry }

/-- `idt_init`, with the addresses of `isr_table` -/
def idtInit (isrTable : ℕ → ℕ) (t : Tables) : Tables :=
  let t := (List.range idtEntries).foldl
    (fun t i => idtSetEntry i (isrTable i) 0x08 idtInterruptGate t) t
  let t := idtSetEntry 3 (isrTable 3) 0x08 idtTrapGate t
  idtSetEntry 4 (isrTable 4) 0x08 idtTrapGate t

/-- `tss_set_sp0` -/
def tssSetSp0 (sp0 ss0 : ℕ) (t : Tables) : Tables := { t with tss := ⟨sp0, ss0⟩ }

/-- `tss_init` -/
def tssInit (t : Tables) : Tables :=
  { t with
    tss := ⟨0, 0x10⟩
    gdt := gdtSetEntry 5 t.tssBase (104 - 1) 0x89 0 t.gdt }

/-- `interrupt_handler`: the handler that is called. -/
def interruptHandler (t : Tables) (m : ByteMem) (ctx : ℕ) : Option Handler :=
  let intNum := m.read32 (ctx + 44)
  if idtEntries ≤ intNum then none else t.handlers intNum

namespace IdtEntry

/-- What the processor reads from the gate. -/
def offset (e : IdtEntry) : ℕ := e.offsetLow + e.offsetHigh * 2 ^ 16

def present (e : IdtEntry) : Bool := e.attributes / 2 ^ 7 % 2 = 1

def dpl (e : IdtEntry) : ℕ := e.attributes / 2 ^ 5 % 2 ^ 2

/-- An interrupt gate turns interrupts off, a trap gate does not. -/
def isTrap (e : IdtEntry) : Bool := e.attributes % 2 = 1

end IdtEntry

/-! ### The processor -/

namespace Tables

/-- The processor takes the interrupt `i`; `none` where one of the tables is not as it must be, and
where the processor would fault again. -/
def interrupt (t : Tables) (i : ℕ) (error : Option ℕ) (c : Core) : Option Core :=
  let r := c.regs
  let gate := t.idt i
  let code := t.gdt (gate.selector / 2 ^ 3)
  let task := t.gdt 5
  if ¬ gate.present ∨ ¬ code.present ∨ ¬ code.isCode ∨ r .cs % 4 < code.dpl then none
  else
    let flags := r .eflags &&& (2 ^ 32 - 1 - if gate.isTrap then 0x34100 else 0x34300)
    let enter := fun c : Core =>
      let c := ((c.push (r .eflags)).push (r .cs)).push (r .eip)
      let c := c.pushError error
      ((c.set .eflags flags).set .cs (gate.selector / 2 ^ 3 * 2 ^ 3 + code.dpl)).set .eip
        gate.offset
    if code.dpl = r .cs % 4 then some (enter c)
    else if ¬ task.isTss ∨ task.base ≠ t.tssBase ∨ task.limit < 11 ∨ code.dpl ≠ 0 then none
    else some (enter ((((c.set .esp t.tss.esp0).set .ss (t.tss.ss0 % 2 ^ 16)).push (r .ss)).push
      (r .esp)))

/-- `int n`: the gate says who may use it; otherwise there is a general protection fault, with the
gate in its error code. -/
def int (t : Tables) (n : ℕ) (c : Core) : Option Core :=
  if (t.idt n).dpl < c.regs .cs % 4 then t.interrupt 13 (some (n * 2 ^ 3 + 2)) c
  else t.interrupt n none c

end Tables

/-! ### `kmain` -/

/-- Calls that change the tables once they are set up. -/
inductive TableCall
  | setHandler (index : ℕ) (handler : Handler)
  | setDpl (index dpl : ℕ)
  | setSp0 (sp0 ss0 : ℕ)

def TableCall.run : TableCall → Tables → Tables
  | .setHandler index handler => idtSetHandler index handler
  | .setDpl index dpl => idtSetDpl index dpl
  | .setSp0 sp0 ss0 => tssSetSp0 sp0 ss0

def Tables.runAll (calls : List TableCall) (t : Tables) : Tables :=
  calls.foldl (fun t call => call.run t) t

/-- `gdt_init`, `tss_init`, `idt_init` -/
def tablesInit (isrTable : ℕ → ℕ) (t : Tables) : Tables :=
  idtInit isrTable (tssInit { t with gdt := gdtInit t.gdt })

/-- `exception_init`, `sched_init` and `syscall_init` -/
def kmainCalls : List TableCall :=
  (List.range 32).map (.setHandler · .exceptionHandler) ++
    [.setHandler 32 .timerHandler, .setHandler 0x81 .schedule, .setDpl 0x81 3,
      .setHandler 0x80 .syscallHandler, .setDpl 0x80 3]

/-! ### Packing -/

/-- A half of a word, as the C code cuts it out. -/
lemma and_mask (a : ℕ) : a &&& 0xFFFF = a % 2 ^ 16 ∧ a &&& 0xFF = a % 2 ^ 8 ∧
    a &&& 0x0F = a % 2 ^ 4 ∧ a &&& 3 = a % 2 ^ 2 :=
  ⟨Nat.and_two_pow_sub_one_eq_mod a 16, Nat.and_two_pow_sub_one_eq_mod a 8,
    Nat.and_two_pow_sub_one_eq_mod a 4, Nat.and_two_pow_sub_one_eq_mod a 2⟩

lemma pack_flags : ∀ f < 16, ∀ l < 16, ((f <<< 4 &&& 0xF0) ||| l) % 2 ^ 4 = l ∧
    ((f <<< 4 &&& 0xF0) ||| l) / 2 ^ 4 = f := by decide

/-- **The processor reads what `gdt_set_entry` was given.** -/
theorem gdtSetEntry_reads {index base limit access flags : ℕ} (hindex : index < gdtEntries)
    (hbase : base < 2 ^ 32) (hlimit : limit < 2 ^ 20) (hflags : flags < 2 ^ 4)
    (gdt : ℕ → GdtEntry) : ((gdtSetEntry index base limit access flags gdt) index).base = base ∧
      ((gdtSetEntry index base limit access flags gdt) index).limit = limit ∧
      ((gdtSetEntry index base limit access flags gdt) index).flags = flags ∧
      ((gdtSetEntry index base limit access flags gdt) index).access = access := by
  rw [gdtSetEntry, if_neg (Nat.not_le.2 hindex), Function.update_self]
  obtain ⟨hhigh, hlow⟩ := pack_flags flags hflags (limit / 2 ^ 16) (by omega)
  simp only [GdtEntry.base, GdtEntry.limit, GdtEntry.flags, (and_mask _).1, (and_mask _).2.1,
    (and_mask _).2.2.1, Nat.shiftRight_eq_div_pow]
  rw [Nat.mod_eq_of_lt (show limit / 2 ^ 16 < 2 ^ 4 by omega), hhigh, hlow]
  exact ⟨by omega, by omega, rfl, trivial⟩

lemma gdtSetEntry_of_ne {index i : ℕ} (h : i ≠ index) (base limit access flags : ℕ)
    (gdt : ℕ → GdtEntry) : gdtSetEntry index base limit access flags gdt i = gdt i := by
  unfold gdtSetEntry
  split_ifs
  · rfl
  · exact Function.update_of_ne h ..

/-- A gate leads where `idt_set_entry` was told to. -/
lemma idtSetEntry_self {index offset selector attr : ℕ} (hindex : index < idtEntries)
    (hoffset : offset < 2 ^ 32) (t : Tables) :
    ((idtSetEntry index offset selector attr t).idt index).offset = offset ∧
      ((idtSetEntry index offset selector attr t).idt index).selector = selector ∧
      ((idtSetEntry index offset selector attr t).idt index).attributes = attr := by
  rw [idtSetEntry, if_neg (Nat.not_le.2 hindex)]
  dsimp only
  rw [Function.update_self]
  simp only [IdtEntry.offset, (and_mask _).1, Nat.shiftRight_eq_div_pow]
  exact ⟨by omega, trivial, trivial⟩

lemma idtSetEntry_of_ne {index i : ℕ} (h : i ≠ index) (offset selector attr : ℕ) (t : Tables) :
    (idtSetEntry index offset selector attr t).idt i = t.idt i := by
  unfold idtSetEntry
  split_ifs
  · rfl
  · exact Function.update_of_ne h ..

/-- `idt_set_dpl` changes two bits. -/
lemma setDpl_bits : ∀ d < 4, ∀ e < 4, (0x8E + 2 ^ 5 * d &&& 0x9F) ||| e <<< 5 = 0x8E + 2 ^ 5 * e ∧
    (0x8F + 2 ^ 5 * d &&& 0x9F) ||| e <<< 5 = 0x8F + 2 ^ 5 * e := by decide

/-! ### What the tables stand for -/

/-- The attributes of gate `i`, without its privilege level. -/
def gateKind (i : ℕ) : ℕ := if i = 3 ∨ i = 4 then idtTrapGate else idtInterruptGate

/-- Who may use the gates, what is called behind them, and the stack of the kernel. -/
structure Gates where
  dpl : ℕ → ℕ
  handler : ℕ → Option Handler
  esp0 : ℕ

def Gates.init : Gates := ⟨fun _ => 0, fun _ => none, 0⟩

/-- What a call is meant to do. -/
def TableCall.apply : TableCall → Gates → Gates
  | .setHandler index handler, g =>
    { g with handler := Function.update g.handler index (some handler) }
  | .setDpl index dpl, g => { g with dpl := Function.update g.dpl index (dpl % 2 ^ 2) }
  | .setSp0 sp0 _, g => { g with esp0 := sp0 }

def Gates.applyAll (calls : List TableCall) (g : Gates) : Gates :=
  calls.foldl (fun g call => call.apply g) g

/-- The stack segment is that of the kernel. -/
def TableCall.Kernel : TableCall → Prop
  | .setSp0 _ ss0 => ss0 = 0x10
  | _ => True

/-- The descriptors that the gates rest on. -/
structure Segments (t : Tables) : Prop where
  code : (t.gdt 1).access = 0x9A
  task : (t.gdt 5).access = 0x89
  taskBase : (t.gdt 5).base = t.tssBase
  taskLimit : (t.gdt 5).limit = 103
  ss0 : t.tss.ss0 = 0x10

/-- The tables stand for `g`. -/
structure Gated (isrTable : ℕ → ℕ) (g : Gates) (t : Tables) : Prop extends Segments t where
  offset : ∀ i < idtEntries, (t.idt i).offset = isrTable i
  selector : ∀ i < idtEntries, (t.idt i).selector = 0x08
  attributes : ∀ i < idtEntries, (t.idt i).attributes = gateKind i + 2 ^ 5 * g.dpl i
  dpl_lt : ∀ i, g.dpl i < 4
  handlers : ∀ i < idtEntries, t.handlers i = g.handler i
  esp0 : t.tss.esp0 = g.esp0

namespace Gated

variable {isrTable : ℕ → ℕ} {g : Gates} {t : Tables}

lemma setHandler (h : Gated isrTable g t) (index : ℕ) (handler : Handler) :
    Gated isrTable ((TableCall.setHandler index handler).apply g)
      (idtSetHandler index handler t) := by
  unfold idtSetHandler
  split_ifs with hindex
  · refine { h with handlers := fun i hi => ?_ }
    have hne : i ≠ index := by omega
    exact (h.handlers i hi).trans (Function.update_of_ne hne ..).symm
  · refine { h with handlers := fun i hi => ?_ }
    by_cases hne : i = index
    · rw [hne]
      show Function.update t.handlers index (some handler) index =
        Function.update g.handler index (some handler) index
      rw [Function.update_self, Function.update_self]
    · show Function.update t.handlers index (some handler) i =
        Function.update g.handler index (some handler) i
      rw [Function.update_of_ne hne, Function.update_of_ne hne]
      exact h.handlers i hi

lemma setSp0 (h : Gated isrTable g t) (sp0 : ℕ) :
    Gated isrTable ((TableCall.setSp0 sp0 0x10).apply g) (tssSetSp0 sp0 0x10 t) :=
  { h with ss0 := rfl, esp0 := rfl }

lemma setDpl (h : Gated isrTable g t) (index d : ℕ) :
    Gated isrTable ((TableCall.setDpl index d).apply g) (idtSetDpl index d t) := by
  have hd : d % 2 ^ 2 < 4 := Nat.mod_lt _ (by norm_num)
  have hlt : ∀ i, Function.update g.dpl index (d % 2 ^ 2) i < 4 := fun i => by
    by_cases hne : i = index
    · rw [hne, Function.update_self]
      exact hd
    · rw [Function.update_of_ne hne]
      exact h.dpl_lt i
  unfold idtSetDpl
  split_ifs with hindex
  · refine { h with attributes := fun i hi => ?_, dpl_lt := hlt }
    have hne : i ≠ index := by omega
    rw [h.attributes i hi]
    exact congrArg (gateKind i + 2 ^ 5 * ·) (Function.update_of_ne hne ..).symm
  have hbits : (t.idt index).attributes &&& 0x9F ||| (d &&& 3) <<< 5 =
      gateKind index + 2 ^ 5 * (d % 2 ^ 2) := by
    have hbits := setDpl_bits _ (h.dpl_lt index) _ hd
    rw [h.attributes index (Nat.not_le.1 hindex), (and_mask d).2.2.2, gateKind]
    split_ifs
    · exact hbits.2
    · exact hbits.1
  dsimp only
  rw [hbits]
  refine ⟨⟨h.code, h.task, h.taskBase, h.taskLimit, h.ss0⟩, fun i hi => ?_, fun i hi => ?_, fun i hi => ?_, hlt, h.handlers, h.esp0⟩
  all_goals
    dsimp only [TableCall.apply]
    by_cases hne : i = index
    · subst hne
      simp only [Function.update_self]
      try first
        | exact h.offset i hi
        | exact h.selector i hi
    · simp only [Function.update_of_ne hne]
      first
        | exact h.offset i hi
        | exact h.selector i hi
        | exact h.attributes i hi

/-- A call does to the tables what it is meant to do. -/
lemma run (h : Gated isrTable g t) {call : TableCall} (hcall : call.Kernel) :
    Gated isrTable (call.apply g) (call.run t) := by
  cases call with
  | setHandler index handler => exact h.setHandler index handler
  | setDpl index d => exact h.setDpl index d
  | setSp0 sp0 ss0 =>
    obtain rfl : ss0 = 0x10 := hcall
    exact h.setSp0 sp0

lemma runAll (h : Gated isrTable g t) {calls : List TableCall} (hcalls : ∀ c ∈ calls, c.Kernel) :
    Gated isrTable (g.applyAll calls) (t.runAll calls) := by
  induction calls generalizing g t with
  | nil => exact h
  | cons call calls ih =>
    exact ih (h.run (hcalls call List.mem_cons_self)) fun c hc =>
      hcalls c (List.mem_cons_of_mem _ hc)

end Gated

/-! ### Setting the tables up -/

lemma idtSetEntry_rest (index offset selector attr : ℕ) (t : Tables) :
    (idtSetEntry index offset selector attr t).gdt = t.gdt ∧
      (idtSetEntry index offset selector attr t).tss = t.tss ∧
      (idtSetEntry index offset selector attr t).tssBase = t.tssBase ∧
      (idtSetEntry index offset selector attr t).handlers = t.handlers := by
  unfold idtSetEntry
  split_ifs <;> exact ⟨rfl, rfl, rfl, rfl⟩

/-- A gate as `idt_init` makes it. -/
def IdtEntry.Stub (e : IdtEntry) (offset attr : ℕ) : Prop :=
  e.offset = offset ∧ e.selector = 0x08 ∧ e.attributes = attr

/-- The loop of `idt_init`, up to gate `n`. -/
lemma idtInit_loop {isrTable : ℕ → ℕ} (hstub : ∀ i < idtEntries, isrTable i < 2 ^ 32) (t : Tables)
    {n : ℕ} (hn : n ≤ idtEntries) :
    ∃ t', t' = (List.range n).foldl
        (fun t i => idtSetEntry i (isrTable i) 0x08 idtInterruptGate t) t ∧
      (∀ i < n, (t'.idt i).Stub (isrTable i) idtInterruptGate) ∧ t'.gdt = t.gdt ∧
      t'.tss = t.tss ∧ t'.tssBase = t.tssBase ∧ t'.handlers = t.handlers := by
  induction n with
  | zero => exact ⟨t, rfl, fun i hi => (Nat.not_lt_zero i hi).elim, rfl, rfl, rfl, rfl⟩
  | succ n ih =>
    obtain ⟨t', ht', hgates, hgdt, htss, hbase, hhandlers⟩ := ih (by omega)
    obtain ⟨hgdt', htss', hbase', hhandlers'⟩ :=
      idtSetEntry_rest n (isrTable n) 0x08 idtInterruptGate t'
    refine ⟨idtSetEntry n (isrTable n) 0x08 idtInterruptGate t', ?_, fun i hi => ?_,
      hgdt'.trans hgdt, htss'.trans htss, hbase'.trans hbase, hhandlers'.trans hhandlers⟩
    · rw [List.range_succ, List.foldl_append, ← ht']
      rfl
    · by_cases hin : i = n
      · rw [hin]
        exact idtSetEntry_self (by omega) (hstub n (by omega)) t'
      · rw [idtSetEntry_of_ne hin]
        exact hgates i (by omega)

/-- `gdt_init` and `tss_init` -/
lemma segments_init {t : Tables} (hbase : t.tssBase < 2 ^ 32) :
    Segments (tssInit { t with gdt := gdtInit t.gdt }) := by
  obtain ⟨hb, hl, -, ha⟩ := @gdtSetEntry_reads 5 t.tssBase (104 - 1) 0x89 0 (by norm_num) hbase
    (by norm_num) (by norm_num) (gdtInit t.gdt)
  refine ⟨?_, ha, hb, hl, rfl⟩
  show (gdtSetEntry 5 t.tssBase (104 - 1) 0x89 0 (gdtInit t.gdt) 1).access = 0x9A
  rw [gdtSetEntry_of_ne (by norm_num), gdtInit, gdtSetEntry_of_ne (by norm_num),
    gdtSetEntry_of_ne (by norm_num), gdtSetEntry_of_ne (by norm_num)]
  exact (gdtSetEntry_reads (by norm_num) (by norm_num) (by norm_num) (by norm_num) _).2.2.2

/-- The tables that `kmain` starts with. -/
theorem Gated.init {isrTable : ℕ → ℕ} (hstub : ∀ i < idtEntries, isrTable i < 2 ^ 32) {t : Tables}
    (hbase : t.tssBase < 2 ^ 32) (hhandlers : ∀ i < idtEntries, t.handlers i = none) :
    Gated isrTable .init (tablesInit isrTable t) := by
  obtain ⟨t₀, ht₀⟩ : ∃ t₀, t₀ = tssInit { t with gdt := gdtInit t.gdt } := ⟨_, rfl⟩
  have hseg := segments_init hbase
  rw [← ht₀] at hseg
  obtain ⟨t₁, ht₁, hgates, hgdt, htss, htssBase, hhandlers₁⟩ := idtInit_loop hstub t₀ le_rfl
  have hself₃ := @idtSetEntry_self 3 (isrTable 3) 0x08 idtTrapGate (by norm_num)
    (hstub 3 (by norm_num)) t₁
  obtain ⟨t₂, ht₂⟩ : ∃ t₂, t₂ = idtSetEntry 3 (isrTable 3) 0x08 idtTrapGate t₁ := ⟨_, rfl⟩
  obtain ⟨hgdt₂, htss₂, htssBase₂, hhandlers₂⟩ :=
    idtSetEntry_rest 3 (isrTable 3) 0x08 idtTrapGate t₁
  have hself₄ := @idtSetEntry_self 4 (isrTable 4) 0x08 idtTrapGate (by norm_num)
    (hstub 4 (by norm_num)) t₂
  obtain ⟨hgdt₄, htss₄, htssBase₄, hhandlers₄⟩ :=
    idtSetEntry_rest 4 (isrTable 4) 0x08 idtTrapGate t₂
  have hother : ∀ i, i ≠ 3 → i ≠ 4 → t₁.idt i =
      (idtSetEntry 4 (isrTable 4) 0x08 idtTrapGate t₂).idt i := fun i h₃ h₄ => by
    rw [idtSetEntry_of_ne h₄, ht₂, idtSetEntry_of_ne h₃]
  have hinit : tablesInit isrTable t = idtSetEntry 4 (isrTable 4) 0x08 idtTrapGate t₂ := by
    rw [ht₂, ht₁, ht₀]
    rfl
  rw [← ht₂] at hself₃ hgdt₂ htss₂ htssBase₂ hhandlers₂
  rw [hinit]
  have hall : ∀ i < idtEntries, ((idtSetEntry 4 (isrTable 4) 0x08 idtTrapGate t₂).idt i).Stub
      (isrTable i) (gateKind i) := by
    intro i hi
    by_cases h₄ : i = 4
    · rw [h₄]
      exact hself₄
    by_cases h₃ : i = 3
    · rw [h₃, idtSetEntry_of_ne (by norm_num)]
      exact hself₃
    · rw [← hother i h₃ h₄, gateKind, if_neg (by omega)]
      exact hgates i hi
  rw [hgdt₂, hgdt] at hgdt₄
  rw [htss₂, htss] at htss₄
  rw [htssBase₂, htssBase] at htssBase₄
  refine ⟨⟨?_, ?_, ?_, ?_, ?_⟩, fun i hi => (hall i hi).1, fun i hi => (hall i hi).2.1,
    fun i hi => (hall i hi).2.2, fun _ => by norm_num [Gates.init], fun i hi => ?_, ?_⟩
  · rw [hgdt₄]
    exact hseg.code
  · rw [hgdt₄]
    exact hseg.task
  · rw [hgdt₄, htssBase₄]
    exact hseg.taskBase
  · rw [hgdt₄]
    exact hseg.taskLimit
  · rw [htss₄]
    exact hseg.ss0
  · rw [hhandlers₄, hhandlers₂, hhandlers₁, ht₀]
    exact hhandlers i hi
  · rw [htss₄, ht₀]
    rfl

/-! ### Through a gate -/

namespace Gated

variable {isrTable : ℕ → ℕ} {g : Gates} {t : Tables} {c : Core}

/-- The attributes of a gate say what the processor does. -/
lemma gate {i : ℕ} (h : Gated isrTable g t) (hi : i < idtEntries) :
    (t.idt i).present = true ∧ (t.idt i).dpl = g.dpl i ∧
      ((t.idt i).isTrap = true ↔ i = 3 ∨ i = 4) := by
  have hdpl := h.dpl_lt i
  have hattr := h.attributes i hi
  rw [gateKind, idtTrapGate, idtInterruptGate] at hattr
  simp only [IdtEntry.present, IdtEntry.dpl, IdtEntry.isTrap, decide_eq_true_eq]
  split_ifs at hattr with htrap
  · exact ⟨by omega, by omega, ⟨fun _ => htrap, fun _ => by omega⟩⟩
  · exact ⟨by omega, by omega, ⟨fun hodd => by omega, fun h' => absurd h' htrap⟩⟩

/-- **An interrupt is delivered to the stub of its vector.** -/
theorem interrupt (h : Gated isrTable g t) {i : ℕ} (hi : i < idtEntries) (hr : c.regs.Valid)
    (error : Option ℕ) :
    t.interrupt i error c = some (deliver i error g.esp0 (isrTable i) c) := by
  obtain ⟨hpresent, -, htrap⟩ := h.gate hi
  have hselector := h.selector i hi
  have hcode : (t.gdt 1).present = true ∧ (t.gdt 1).isCode = true ∧ (t.gdt 1).dpl = 0 := by
    simp [GdtEntry.present, GdtEntry.isCode, GdtEntry.dpl, h.code]
  have htss : (t.gdt 5).isTss = true := by simp [GdtEntry.isTss, h.task]
  have hflags : c.regs .eflags &&& (2 ^ 32 - 1 - if (t.idt i).isTrap then 0x34100 else 0x34300) =
      gateFlags i (c.regs .eflags) := by
    unfold gateFlags
    by_cases hi' : i = 3 ∨ i = 4
    · rw [if_pos hi', if_pos (htrap.2 hi')]
    · rw [if_neg hi', if_neg (mt htrap.1 hi')]
  have hindex : (t.idt i).selector / 2 ^ 3 = 1 := by omega
  unfold Tables.interrupt
  simp only [hindex, hpresent, hcode.1, hcode.2.1, hcode.2.2, htss, h.taskBase, h.taskLimit, h.ss0,
    h.esp0, h.offset i hi, hflags, not_true_eq_false, false_or, Nat.not_lt_zero, if_false, ne_eq]
  by_cases hu : c.regs.User
  · have hring : ¬ 0 = c.regs .cs % 4 := by
      rw [hu]
      norm_num
    rw [if_neg hring, if_neg (by norm_num)]
    simp only [deliver, if_pos hu]
    rfl
  · rw [if_pos (hr.ring.resolve_left hu).1.symm]
    simp only [deliver, if_neg hu]
    rfl

/-- **`int n` goes through the gate, or is a general protection fault.** -/
theorem int (h : Gated isrTable g t) {n : ℕ} (hn : n < idtEntries) (hr : c.regs.Valid) :
    t.int n c = some (if g.dpl n < c.regs .cs % 4 then
      deliver 13 (some (n * 2 ^ 3 + 2)) g.esp0 (isrTable 13) c
    else deliver n none g.esp0 (isrTable n) c) := by
  rw [Tables.int, (h.gate hn).2.1]
  split_ifs
  · exact h.interrupt (by norm_num) hr _
  · exact h.interrupt hn hr _

/-- `interrupt_handler` finds the vector in the frame. -/
theorem handler (h : Gated isrTable g t) {c' : Core} {i e esp0 entry : ℕ} (hi : i < idtEntries)
    (he : Entered c c' i e esp0 entry) :
    interruptHandler t c'.mem (c'.mem.read32 (c'.regs .esp)) = g.handler i := by
  have hlen : 11 < (frameWords c.regs i e).length := by
    have hsize := length_frameWords c.regs i e
    unfold Regs.frameSize at hsize
    split_ifs at hsize <;> omega
  have hnum : c'.mem.read32 (c.regs.frameAt esp0 + 44) = i := he.frame.read32 hlen
  rw [interruptHandler, he.ctx, hnum, if_neg (Nat.not_le.2 hi)]
  exact h.handlers i hi

end Gated

/-- The tables do what the calls say, in whatever order they come: an interrupt goes to the stub of
its vector on the kernel stack that was set last, `int n` is for those that the last privilege level
lets through, and the handler that was registered last is called. -/
theorem tables_follow_calls {isrTable : ℕ → ℕ} (hstub : ∀ i < idtEntries, isrTable i < 2 ^ 32)
    {t : Tables} (hbase : t.tssBase < 2 ^ 32) (hhandlers : ∀ i < idtEntries, t.handlers i = none)
    {calls : List TableCall} (hcalls : ∀ call ∈ calls, call.Kernel) {c : Core}
    (hr : c.regs.Valid) {n : ℕ} (hn : n < idtEntries) :
    ∃ g t', g = Gates.init.applyAll calls ∧ t' = (tablesInit isrTable t).runAll calls ∧
      (∀ error, t'.interrupt n error c = some (deliver n error g.esp0 (isrTable n) c)) ∧
      t'.int n c = some (if g.dpl n < c.regs .cs % 4 then
          deliver 13 (some (n * 2 ^ 3 + 2)) g.esp0 (isrTable 13) c
        else deliver n none g.esp0 (isrTable n) c) ∧
      ∀ error : Option ℕ, (error.isSome ↔ n ∈ errorVectors) → (∀ e ∈ error, e < 2 ^ 32) →
        c.regs.trapTop g.esp0 < 2 ^ 32 → 76 ≤ c.regs.trapTop g.esp0 →
        ∃ c', c' = enterHandler n error g.esp0 (isrTable n) c ∧
          interruptHandler t' c'.mem (c'.mem.read32 (c'.regs .esp)) = g.handler n := by
  have hgated := (Gated.init hstub hbase hhandlers).runAll hcalls
  refine ⟨_, _, rfl, rfl, hgated.interrupt hn hr, hgated.int hn hr, ?_⟩
  intro error hisSome herror hlt hroom
  exact ⟨_, rfl, hgated.handler hn (enterHandler_spec hr hn hisSome herror hlt hroom)⟩

lemma kmainCalls_kernel : ∀ call ∈ kmainCalls, call.Kernel := by
  refine List.forall_mem_append.2 ⟨fun call hcall => ?_, fun call hcall => ?_⟩
  · obtain ⟨i, -, rfl⟩ := List.mem_map.1 hcall
    exact trivial
  · simp only [List.mem_cons, List.not_mem_nil, or_false] at hcall
    rcases hcall with rfl | rfl | rfl | rfl | rfl <;> exact trivial

/-- Tables before `gdt_init`. -/
def zeroTables : Tables :=
  ⟨fun _ => ⟨0, 0, 0, 0, 0, 0⟩, fun _ => ⟨0, 0, 0, 0, 0⟩, fun _ => none, 0xC0120000, ⟨0, 0⟩⟩

/-- A program of ring 3. -/
def userCore : Core :=
  ⟨fun
    | .cs => 0x1B
    | .ss | .ds | .es | .fs | .gs => 0x23
    | .eflags => 0x202
    | .esp => 0xBFFF0000
    | .eip => 0x400000
    | _ => 0, fun _ => 0⟩

lemma userCore_valid : userCore.regs.Valid :=
  ⟨fun x => by cases x <;> decide, .inl rfl⟩

/-- The program asks for system call `0x80`, and it tries vector 14. -/
theorem tables_follow_calls_user :
    ((tablesInit (0xC0100000 + 16 * ·) zeroTables).runAll
        (kmainCalls ++ [.setSp0 0xC0030000 0x10])).int 0x80 userCore =
      some (deliver 0x80 none 0xC0030000 0xC0100800 userCore) ∧
    ((tablesInit (0xC0100000 + 16 * ·) zeroTables).runAll
        (kmainCalls ++ [.setSp0 0xC0030000 0x10])).int 14 userCore =
      some (deliver 13 (some 114) 0xC0030000 0xC01000D0 userCore) := by
  have hcalls : ∀ call ∈ kmainCalls ++ [.setSp0 0xC0030000 0x10], call.Kernel :=
    List.forall_mem_append.2 ⟨kmainCalls_kernel, List.forall_mem_singleton.2 rfl⟩
  have hstub : ∀ i < idtEntries, 0xC0100000 + 16 * i < 2 ^ 32 :=
    fun i (hi : i < 256) => by omega
  obtain ⟨_, _, rfl, rfl, -, hint, -⟩ := tables_follow_calls (n := 0x80) hstub
    (t := zeroTables) (by decide) (fun _ _ => rfl) hcalls userCore_valid (by norm_num)
  obtain ⟨_, _, rfl, rfl, -, hfault, -⟩ := tables_follow_calls (n := 14) hstub
    (t := zeroTables) (by decide) (fun _ _ => rfl) hcalls userCore_valid (by norm_num)
  exact ⟨hint, hfault⟩

end Gummy
