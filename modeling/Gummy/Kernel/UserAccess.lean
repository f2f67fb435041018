import Gummy.Kernel.Spawning
import Gummy.Kernel.UserMemory

/-!
What the system calls do through pointers of their caller.

`sys_send`, `sys_receive` and `sys_nprocess` use the pointers as they are.  They reach
memory that the caller has no access to exactly if the caller asks for it and the checks
that the calls do make let it pass.
-/

namespace Gummy

open CWord

open Transition (Reachable)

/-- The stretches of system-call code that use pointers of the caller, each with the contents
of its registers.  Between the two stretches of `ipc_receive` lies its wait for a message, in
which other threads run. -/
inductive UserCode
  /-- `sys_send_impl` -/
  | send (pid type data size : ℕ) (stack : ByteMem)
  /-- `sys_receive_impl`, up to its return or its wait -/
  | receive (senderPid buffer size : ℕ)
  /-- `sys_receive_impl`, behind its wait -/
  | resumed (senderPid buffer size : ℕ)
  /-- `sys_nprocess_impl` -/
  | nprocess (entry n : ℕ) (cData cProc cStack : HeapChoice) (g : Garbage)

namespace UserCode

/-- Run the stretch: the value returned, `none` if it ends in a wait. -/
def run (s : Kernel) : UserCode → Option ℕ × Kernel
  | send pid type data size stack =>
    let (ret, s) := ipcSend pid type (s.mach.userData data) size stack s
    (some ret, s)
  | receive senderPid buffer size =>
    if senderPid = 0 ∨ buffer = 0 ∨ size = 0 ∨ size > ipcMsgMax then (some 1, s)
    else
      match schedGetCurrentProcess s with
      | none => (some 1, s)
      | some p =>
        if ringBufferEmpty (s.proc p).ringBuffer then (none, s)
        else
          let (ret, s) := ipcTake senderPid buffer size s
          (some ret, s)
  | resumed senderPid buffer size =>
    let (ret, s) := ipcTake senderPid buffer size s
    (some ret, s)
  | nprocess entry n cData cProc cStack g =>
    let (ret, s) := sysNprocessImpl entry n cData cProc cStack g s
    (some ret, s)

/-- The value returned on errors. -/
def error : UserCode → ℕ
  | nprocess .. => 0
  | _ => 1

/-- The bytes that the stretch reads through its pointers: in `ipc_send` and in
`sys_nprocess_impl` those of one `memcpy`, behind the checks. -/
def reads (s : Kernel) : UserCode → List ℕ
  | send pid _ data size _ =>
    if data = 0 ∨ size = 0 ∨ size > ipcMsgMax then []
    else
      match schedGetProcess pid s with
      | none => []
      | some p => if (s.proc p).state = .dying then [] else byteRange data size
  | nprocess entry n cData .. =>
    if entry = 0 ∨ n = 0 then []
    else
      match heapGet n cData s with
      | (none, _) => []
      | (some _, _) => byteRange entry n
  | _ => []

/-- The bytes that `ipc_receive` writes from its `ring_buffer_pop` on: `*sender_pid` and the
`memcpy` to `buffer`. -/
def takeWrites (senderPid buffer size : ℕ) (s : Kernel) : List ℕ :=
  match schedGetCurrentProcess s with
  | none => []
  | some p =>
    match ringBufferPop (s.proc p).ringBuffer with
    | (none, _) => []
    | (some out, _) =>
      byteRange senderPid 4 ++ byteRange buffer (min size ((ofBytes out).read32 8))

/-- The bytes that the stretch writes through its pointers. -/
def writes (s : Kernel) : UserCode → List ℕ
  | receive senderPid buffer size =>
    if senderPid = 0 ∨ buffer = 0 ∨ size = 0 ∨ size > ipcMsgMax then []
    else
      match schedGetCurrentProcess s with
      | none => []
      | some p =>
        if ringBufferEmpty (s.proc p).ringBuffer then [] else takeWrites senderPid buffer size s
  | resumed senderPid buffer size => takeWrites senderPid buffer size s
  | _ => []

/-! ### What is asked for -/

/-- The size of the message that `ring_buffer_pop` would hand out. -/
def nextSize (s : Kernel) : Option ℕ :=
  match schedGetCurrentProcess s with
  | none => none
  | some p => (ringBufferPop (s.proc p).ringBuffer).1.map fun out => (ofBytes out).read32 8

/-- The bytes that the caller asks to be read. -/
def requestedReads : UserCode → List ℕ
  | send _ _ data size _ => byteRange data size
  | nprocess entry n .. => byteRange entry n
  | _ => []

/-- The bytes that the caller asks to be written: of its buffer, as many as the message has. -/
def requestedWrites (s : Kernel) : UserCode → List ℕ
  | receive senderPid buffer size | resumed senderPid buffer size =>
    byteRange senderPid 4 ++ byteRange buffer (min size ((nextSize s).getD size))
  | _ => []

/-- The caller has access to all that it asks for. -/
def Permitted (s : Kernel) (u : UserCode) : Prop :=
  (∀ a ∈ u.requestedReads, s.mach.UserReadable a) ∧
    ∀ a ∈ u.requestedWrites s, s.mach.UserWritable a

/-- The checks of the call end it before it uses its pointers. -/
def Stops (s : Kernel) : UserCode → Prop
  | send pid _ data size _ =>
    data = 0 ∨ size = 0 ∨ size > ipcMsgMax ∨
      ∀ p ∈ schedGetProcess pid s, (s.proc p).state = .dying
  | receive senderPid buffer size =>
    senderPid = 0 ∨ buffer = 0 ∨ size = 0 ∨ size > ipcMsgMax ∨ nextSize s = none
  | resumed .. => nextSize s = none
  | nprocess entry n cData .. =>
    entry = 0 ∨ n = 0 ∨ ((heapGet n cData s).1 = none ∧ (heapGet n cData s).2.mach = s.mach)

/-- The stretch gives its caller no access that it does not have: it uses only bytes that the
caller could use itself, and if the caller asks for others, it returns an error and changes no
memory. -/
structure Confined (s : Kernel) (u : UserCode) : Prop where
  reads : ∀ a ∈ u.reads s, s.mach.UserReadable a
  writes : ∀ a ∈ u.writes s, s.mach.UserWritable a
  refuses : ¬ u.Permitted s → ∀ ret, (u.run s).1 = some ret →
    ret = u.error ∧ (u.run s).2.mach = s.mach ∧ u.writes s = []

/-! ### The trace and the code -/

variable {s : Kernel} {u : UserCode} {senderPid buffer size p : ℕ}

lemma map_copyStores (p : ℕ) (l : List UInt8) :
    ((copyStores p l).map fun x => u32 x.1) = byteRange p l.length := by
  refine List.ext_getElem (by simp [copyStores, byteRange]) fun i hi hi' => ?_
  simp [copyStores, byteRange]

/-- The stores that `ipc_receive` leaves in the memory of its caller are the writes. -/
lemma ipcTake_writes (hp : schedGetCurrentProcess s = some p) :
    ∃ ds, (ipcTake senderPid buffer size s).2.delivered p = s.delivered p ++ ds ∧
      (ds.flatMap fun d => d.stores.map fun x => u32 x.1) =
        takeWrites senderPid buffer size s := by
  unfold ipcTake takeWrites
  rw [hp]
  dsimp only
  rcases ringBufferPop (s.proc p).ringBuffer with ⟨_ | out, ringBuffer⟩
  · exact ⟨[], (List.append_nil _).symm, rfl⟩
  · have hlen : ((ofBytes out).bytes 12 (min size ((ofBytes out).read32 8))).length =
        min size ((ofBytes out).read32 8) := by simp [ByteMem.bytes]
    have hword : ((wordStores senderPid ((ofBytes out).read32 0)).map fun x => u32 x.1) =
        byteRange senderPid 4 := by
      rw [wordStores, List.map_map]
      rfl
    refine ⟨[_], Function.update_self .., ?_⟩
    rw [List.flatMap_singleton, List.map_append, hword, map_copyStores, hlen]

/-- The stretch up to the wait is `ipc_receive`. -/
lemma receive_run : match (receive senderPid buffer size).run s with
    | (some ret, s') => ipcReceive senderPid buffer size s = .done (s'.setEax s'.currentThread ret)
    | (none, _) => ∃ s', ipcReceive senderPid buffer size s =
        .call (.receive senderPid buffer size) (receiveRest senderPid buffer size) s' := by
  unfold ipcReceive run
  dsimp only
  split_ifs with hargs
  · rfl
  · cases schedGetCurrentProcess s with
    | none => rfl
    | some p =>
      dsimp only
      split_ifs with hempty
      · exact ⟨_, rfl⟩
      · rfl

/-- The stretch behind the wait is the rest of the system call. -/
lemma resumed_run : receiveRest senderPid buffer size s =
    ((resumed senderPid buffer size).run s).2.setEax
      ((resumed senderPid buffer size).run s).2.currentThread
      (ipcTake senderPid buffer size s).1 :=
  rfl

lemma ringBufferPop_fst (r : RingBuffer) :
    (ringBufferPop r).1 = if ringBufferEmpty r then none else some (r.slot r.head) := by
  unfold ringBufferPop ringBufferPeek
  split_ifs <;> rfl

/-- Behind the wait, the writes are those asked for, unless there is no message. -/
lemma takeWrites_eq : takeWrites senderPid buffer size s =
    match nextSize s with
    | none => []
    | some n => byteRange senderPid 4 ++ byteRange buffer (min size n) := by
  unfold takeWrites nextSize
  cases schedGetCurrentProcess s with
  | none => rfl
  | some p =>
    dsimp only
    rcases ringBufferPop (s.proc p).ringBuffer with ⟨_ | out, ringBuffer⟩ <;> rfl

/-- Without a message, `ipc_receive` returns its error. -/
lemma ipcTake_of_none (h : nextSize s = none) : ipcTake senderPid buffer size s = (1, s) := by
  unfold nextSize at h
  unfold ipcTake
  cases hp : schedGetCurrentProcess s with
  | none => rfl
  | some p =>
    rw [hp] at h
    dsimp only at h ⊢
    rcases hpop : ringBufferPop (s.proc p).ringBuffer with ⟨_ | out, ringBuffer⟩
    · rfl
    · rw [hpop] at h
      cases h

/-- Without a message to hand out, `ipc_receive` returns its error or waits. -/
lemma receive_of_stops (h : (receive senderPid buffer size).Stops s) :
    (receive senderPid buffer size).writes s = [] ∧
      ∀ ret, ((receive senderPid buffer size).run s).1 = some ret →
        (receive senderPid buffer size).run s = (some 1, s) := by
  rw [writes, run]
  by_cases hargs : senderPid = 0 ∨ buffer = 0 ∨ size = 0 ∨ size > ipcMsgMax
  · rw [if_pos hargs, if_pos hargs]
    exact ⟨rfl, fun _ _ => rfl⟩
  · have hnone : nextSize s = none := by
      rcases h with h | h | h | h | h
      · exact absurd (Or.inl h) hargs
      · exact absurd (Or.inr (Or.inl h)) hargs
      · exact absurd (Or.inr (Or.inr (Or.inl h))) hargs
      · exact absurd (Or.inr (Or.inr (Or.inr h))) hargs
      · exact h
    rw [if_neg hargs, if_neg hargs, takeWrites_eq, hnone, ipcTake_of_none hnone]
    cases schedGetCurrentProcess s with
    | none => exact ⟨rfl, fun _ _ => rfl⟩
    | some p =>
      dsimp only
      split_ifs
      · exact ⟨rfl, fun _ hret => absurd hret (by simp)⟩
      · exact ⟨rfl, fun _ _ => rfl⟩

/-- With a message to hand out, `ipc_receive` does not wait. -/
lemma receive_of_pass (h : ¬ (receive senderPid buffer size).Stops s) :
    (receive senderPid buffer size).writes s = takeWrites senderPid buffer size s := by
  have hargs : ¬ (senderPid = 0 ∨ buffer = 0 ∨ size = 0 ∨ size > ipcMsgMax) := by
    rintro (h' | h' | h' | h')
    · exact h (Or.inl h')
    · exact h (Or.inr (Or.inl h'))
    · exact h (Or.inr (Or.inr (Or.inl h')))
    · exact h (Or.inr (Or.inr (Or.inr (Or.inl h'))))
  have hsome : nextSize s ≠ none := fun hnone => h (Or.inr (Or.inr (Or.inr (Or.inr hnone))))
  unfold nextSize at hsome
  rw [writes, if_neg hargs]
  cases hp : schedGetCurrentProcess s with
  | none =>
    rw [hp] at hsome
    exact absurd rfl hsome
  | some p =>
    rw [hp] at hsome
    dsimp only at hsome ⊢
    rw [ringBufferPop_fst] at hsome
    split_ifs with hempty
    · rw [if_pos hempty] at hsome
      exact absurd rfl hsome
    · rfl

lemma send_of_stops {pid type data : ℕ} {stack : ByteMem}
    (h : (send pid type data size stack).Stops s) :
    (send pid type data size stack).reads s = [] ∧
      (send pid type data size stack).run s = (some 1, s) := by
  rw [reads, run, Machine.userData]
  unfold ipcSend
  by_cases hdata : data = 0
  · rw [if_pos (Or.inl hdata), if_pos hdata]
    exact ⟨rfl, rfl⟩
  by_cases hsize : size = 0 ∨ size > ipcMsgMax
  · rw [if_pos (Or.inr hsize), if_neg hdata]
    dsimp only
    rw [if_pos hsize]
    exact ⟨rfl, rfl⟩
  rw [if_neg (by tauto), if_neg hdata]
  dsimp only
  rw [if_neg hsize]
  cases hp : schedGetProcess pid s with
  | none => exact ⟨rfl, rfl⟩
  | some p =>
    have hdying : (s.proc p).state = .dying := by
      rcases h with h | h | h | h
      · exact absurd h hdata
      · exact absurd (Or.inl h) hsize
      · exact absurd (Or.inr h) hsize
      · exact h p hp
    dsimp only
    rw [if_pos hdying, if_pos hdying]
    exact ⟨rfl, rfl⟩

lemma send_of_pass {pid type data : ℕ} {stack : ByteMem}
    (h : ¬ (send pid type data size stack).Stops s) :
    (send pid type data size stack).reads s = byteRange data size := by
  have hargs : ¬ (data = 0 ∨ size = 0 ∨ size > ipcMsgMax) := by
    rintro (h' | h' | h')
    · exact h (Or.inl h')
    · exact h (Or.inr (Or.inl h'))
    · exact h (Or.inr (Or.inr (Or.inl h')))
  have hlive : ¬ ∀ p ∈ schedGetProcess pid s, (s.proc p).state = .dying :=
    fun hp => h (Or.inr (Or.inr (Or.inr hp)))
  rw [reads, if_neg hargs]
  cases hp : schedGetProcess pid s with
  | none =>
    rw [hp] at hlive
    exact absurd (fun p hp => by cases hp) hlive
  | some p =>
    refine if_neg fun hdying => hlive fun q hq => ?_
    obtain rfl := Option.some.inj (hp.symm.trans hq)
    exact hdying

lemma nprocess_of_stops {entry n : ℕ} {cData cProc cStack : HeapChoice} {g : Garbage}
    (h : (nprocess entry n cData cProc cStack g).Stops s) :
    (nprocess entry n cData cProc cStack g).reads s = [] ∧
      ((nprocess entry n cData cProc cStack g).run s).1 = some 0 ∧
      ((nprocess entry n cData cProc cStack g).run s).2.mach = s.mach := by
  rw [reads, run, sysNprocessImpl]
  by_cases hargs : entry = 0 ∨ n = 0
  · rw [if_pos hargs, if_pos hargs]
    exact ⟨rfl, rfl, rfl⟩
  · rw [if_neg hargs, if_neg hargs]
    obtain ⟨hnone, hmach⟩ : (heapGet n cData s).1 = none ∧ (heapGet n cData s).2.mach = s.mach := by
      rcases h with h | h | h
      · exact absurd (Or.inl h) hargs
      · exact absurd (Or.inr h) hargs
      · exact h
    rcases hget : heapGet n cData s with ⟨_ | data, s'⟩
    · rw [hget] at hmach
      exact ⟨rfl, rfl, hmach⟩
    · rw [hget] at hnone
      cases hnone

/-- Behind the checks, either the image is read or `heap_alloc` fails with memory changed. -/
lemma nprocess_of_pass {entry n : ℕ} {cData cProc cStack : HeapChoice} {g : Garbage}
    (h : ¬ (nprocess entry n cData cProc cStack g).Stops s) :
    (nprocess entry n cData cProc cStack g).reads s = byteRange entry n ∨
      (((nprocess entry n cData cProc cStack g).run s).1 = some 0 ∧
        ((nprocess entry n cData cProc cStack g).run s).2.mach ≠ s.mach) := by
  have hargs : ¬ (entry = 0 ∨ n = 0) := by
    rintro (h' | h')
    · exact h (Or.inl h')
    · exact h (Or.inr (Or.inl h'))
  rw [reads, run, sysNprocessImpl, if_neg hargs, if_neg hargs]
  rcases hget : heapGet n cData s with ⟨_ | data, s'⟩
  · refine Or.inr ⟨rfl, fun hmach => h (Or.inr (Or.inr ⟨?_, ?_⟩))⟩
    · rw [hget]
    · rw [hget]
      exact hmach
  · exact Or.inl rfl

/-! ### When the caller is confined -/

/-- A call that its checks end does nothing through its pointers. -/
lemma confined_of_stops (h : u.Stops s) : u.Confined s := by
  cases u with
  | send pid type data size stack =>
    obtain ⟨hr, hrun⟩ := send_of_stops h
    refine ⟨fun a ha => ?_, fun a ha => (by cases ha), fun _ ret hret => ?_⟩
    · rw [hr] at ha
      cases ha
    · rw [hrun] at hret ⊢
      exact ⟨(Option.some.inj hret).symm, rfl, rfl⟩
  | receive senderPid buffer size =>
    obtain ⟨hw, hrun⟩ := receive_of_stops h
    refine ⟨fun a ha => (by cases ha), fun a ha => ?_, fun _ ret hret => ?_⟩
    · rw [hw] at ha
      cases ha
    · have heq := hrun ret hret
      rw [heq] at hret ⊢
      exact ⟨(Option.some.inj hret).symm, rfl, hw⟩
  | resumed senderPid buffer size =>
    have hw : (resumed senderPid buffer size).writes s = [] := by
      rw [writes, takeWrites_eq, show nextSize s = none from h]
    have hrun : (resumed senderPid buffer size).run s = (some 1, s) := by
      rw [run, ipcTake_of_none h]
    refine ⟨fun a ha => (by cases ha), fun a ha => ?_, fun _ ret hret => ?_⟩
    · rw [hw] at ha
      cases ha
    · rw [hrun] at hret ⊢
      exact ⟨(Option.some.inj hret).symm, rfl, hw⟩
  | nprocess entry n cData cProc cStack g =>
    obtain ⟨hr, hret', hmach⟩ := nprocess_of_stops h
    refine ⟨fun a ha => ?_, fun a ha => (by cases ha), fun _ ret hret => ?_⟩
    · rw [hr] at ha
      cases ha
    · exact ⟨Option.some.inj (hret.symm.trans hret'), hmach, rfl⟩

lemma takeWrites_subset {a : ℕ} (ha : a ∈ takeWrites senderPid buffer size s) :
    a ∈ (resumed senderPid buffer size).requestedWrites s := by
  rw [takeWrites_eq] at ha
  rw [requestedWrites]
  cases hn : nextSize s with
  | none =>
    rw [hn] at ha
    cases ha
  | some n =>
    rw [hn] at ha
    exact ha

/-- The stretch uses no other bytes than those asked for. -/
lemma accesses_subset (s : Kernel) (u : UserCode) : (∀ a ∈ u.reads s, a ∈ u.requestedReads) ∧
    ∀ a ∈ u.writes s, a ∈ u.requestedWrites s := by
  cases u with
  | send pid type data size stack =>
    refine ⟨fun a ha => ?_, fun a ha => (by cases ha)⟩
    by_cases hstops : (send pid type data size stack).Stops s
    · rw [(send_of_stops hstops).1] at ha
      cases ha
    · rwa [send_of_pass hstops] at ha
  | receive senderPid buffer size =>
    refine ⟨fun a ha => (by cases ha), fun a ha => ?_⟩
    by_cases hstops : (receive senderPid buffer size).Stops s
    · rw [(receive_of_stops hstops).1] at ha
      cases ha
    · rw [receive_of_pass hstops] at ha
      exact takeWrites_subset ha
  | resumed senderPid buffer size =>
    exact ⟨fun a ha => (by cases ha), fun a ha => takeWrites_subset ha⟩
  | nprocess entry n cData cProc cStack g =>
    refine ⟨fun a ha => ?_, fun a ha => (by cases ha)⟩
    rw [reads] at ha
    split_ifs at ha
    · cases ha
    · rcases hget : heapGet n cData s with ⟨_ | data, s'⟩ <;> rw [hget] at ha
      · cases ha
      · exact ha

/-- **A system call gives its caller no access that it does not have, exactly if** its own
checks end it, or the caller has access to all that it asks for. -/
theorem confined_iff (s : Kernel) (u : UserCode) : u.Confined s ↔ u.Stops s ∨ u.Permitted s := by
  constructor
  · intro h
    by_contra hnot
    obtain ⟨hstops, hperm⟩ := not_or.1 hnot
    refine hperm ?_
    cases u with
    | send pid type data size stack =>
      refine ⟨fun a ha => h.reads a ?_, fun a ha => (by cases ha)⟩
      rwa [send_of_pass hstops]
    | receive senderPid buffer size =>
      refine ⟨fun a ha => (by cases ha), fun a ha => h.writes a ?_⟩
      have hsome : nextSize s ≠ none := fun hnone =>
        hstops (Or.inr (Or.inr (Or.inr (Or.inr hnone))))
      obtain ⟨n, hn⟩ := Option.ne_none_iff_exists'.1 hsome
      rw [receive_of_pass hstops, takeWrites_eq, hn]
      rwa [requestedWrites, hn] at ha
    | resumed senderPid buffer size =>
      refine ⟨fun a ha => (by cases ha), fun a ha => h.writes a ?_⟩
      obtain ⟨n, hn⟩ := Option.ne_none_iff_exists'.1 hstops
      rw [writes, takeWrites_eq, hn]
      rwa [requestedWrites, hn] at ha
    | nprocess entry n cData cProc cStack g =>
      obtain hr | ⟨hrun, hmach⟩ := nprocess_of_pass hstops
      · refine ⟨fun a ha => h.reads a ?_, fun a ha => (by cases ha)⟩
        rwa [hr]
      · -- `heap_alloc` failed, but not without changing memory
        exact absurd (h.refuses hperm 0 hrun).2.1 hmach
  · rintro (hstops | hperm)
    · exact confined_of_stops hstops
    · obtain ⟨hr, hw⟩ := accesses_subset s u
      exact ⟨fun a ha => hperm.1 a (hr a ha), fun a ha => hperm.2 a (hw a ha),
        fun hnot => absurd hperm hnot⟩

/-- A sender reads the kernel by passing a pointer to it. -/
lemma send_not_confined {pid type : ℕ} {stack : ByteMem} (hp : schedGetProcess pid s = some p)
    (hlive : (s.proc p).state ≠ .dying) :
    ¬ (send pid type 0xC0000000 64 stack).Confined s := by
  rw [confined_iff]
  rintro (hstops | hperm)
  · rcases hstops with h | h | h | h
    · exact absurd h (by norm_num)
    · exact absurd h (by norm_num)
    · exact absurd h (by norm_num)
    · exact hlive (h p hp)
  · have hmem : 0xC0000000 ∈ (send pid type 0xC0000000 64 stack).requestedReads :=
      List.mem_map.2 ⟨0, List.mem_range.2 (by norm_num), rfl⟩
    exact absurd (hperm.1 _ hmem).1 (by norm_num)

/-- The program that `kmain` has started sends the first 64 bytes of the kernel to itself. -/
theorem program_reads_kernel : Reachable Init Step (step programKernel .tick) ∧
    (step programKernel .tick).currentThread = ⟨heapBase, 0⟩ ∧
    ¬ (send 1 7 0xC0000000 64 fun _ => 0).Confined (step programKernel .tick) := by
  have hreach : Reachable Init Step (step programKernel .tick) :=
    .next .tick (.next startProgram (.start ⟨_, boot_bootKernel _, rfl⟩) ⟨trivial, rfl⟩)
      ⟨trivial, rfl⟩
  refine ⟨hreach, programKernel_tick.1, send_not_confined (p := heapBase) ?_ ?_⟩
  · rw [programKernel_eq.1]
    decide +kernel
  · rw [programKernel_eq.1]
    decide +kernel

end UserCode

end Gummy
