import Gummy.Kernel.Process
import Mathlib.Data.List.Induction

/-!
Message passing, from `ipc.c`.

What a call reads from the memory of its caller is an argument here, and what a
receive writes to the memory of its caller is a list of byte stores.
-/

namespace Gummy

open CWord

/-- How a handler ends: it returns to the code that was interrupted, or it calls
`schedule` with the context `sp0` and goes on with `rest` if `schedule` returns. -/
inductive Outcome
  | done (s : Kernel)
  | call (sp0 : Context) (rest : Kernel → Kernel) (s : Kernel)

/-! ### Messages in memory -/

/-- `IPC_MSG_MAX` -/
abbrev ipcMsgMax : ℕ := 64

/-- The `ipc_message_t` that `ipc_send` builds on its stack, whose bytes were `stack`. -/
def encodeMessage (stack : ByteMem) (senderPid type size : ℕ) (data : ByteMem) : ByteMem :=
  let msg := stack.store 12 (data.bytes 0 size)
  let msg := msg.write32 8 size
  let msg := msg.write32 0 senderPid
  msg.write32 4 type

/-- An object with the given bytes. -/
def ofBytes (l : List UInt8) : ByteMem := ByteMem.store (fun _ => 0) 0 l

/-- What an `ipc_message_t` says. -/
def decodeMessage (msg : ByteMem) : Message :=
  { senderPid := msg.read32 0, type := msg.read32 4, data := msg.bytes 12 (msg.read32 8) }

/-- `*p = v`, as byte stores. -/
def wordStores (p v : ℕ) : List (ℕ × UInt8) :=
  (List.range 4).map fun i => (p + i, ByteMem.write32 (fun _ => 0) 0 v i)

/-- `memcpy(p, l, |l|)`, as byte stores. -/
def copyStores (p : ℕ) (l : List UInt8) : List (ℕ × UInt8) :=
  l.mapIdx fun i b => (p + i, b)

/-- The memory after the stores. -/
def applyStores (m : ByteMem) (stores : List (ℕ × UInt8)) : ByteMem :=
  stores.foldl (fun m (a, b) => m.write8 a b) m

/-! ### Sending -/

/-- `ipc_send`, for the bytes `data` behind the pointer (`none` for `NULL`): the status. -/
def ipcSend (pid type : ℕ) (data : Option ByteMem) (size : ℕ) (stack : ByteMem) (s : Kernel) :
    ℕ × Kernel :=
  match data with
  | none => (1, s)
  | some data =>
    if size = 0 ∨ size > ipcMsgMax then (1, s)
    else
      match schedGetProcess pid s with
      | none => (1, s)
      | some p =>
        if (s.proc p).state = .dying then (1, s)
        else
          let sender := schedGetCurrentPid s
          let msg := encodeMessage stack sender type size data
          let (err, ringBuffer) := ringBufferPush (s.proc p).ringBuffer msg
          let s := s.setProc p ({ · with ringBuffer })
          if err ≠ 0 then (1, s)
          else
            let sent := ⟨sender, type, data.bytes 0 size⟩
            let s := { s with accepted := Function.update s.accepted p (s.accepted p ++ [sent]) }
            if queueEmpty s.queues (.waiters p) then (0, s)
            else
              match queuePop s.queues (.waiters p) with
              | (none, queues) => (1, { s with queues })
              | (some t, queues) => (0, schedReady t { s with queues })

/-! ### Receiving -/

/-- `ipc_receive` from its `ring_buffer_pop` on: the status. -/
def ipcTake (senderPid buffer size : ℕ) (s : Kernel) : ℕ × Kernel :=
  match schedGetCurrentProcess s with
  | none => (1, s)
  | some p =>
    match ringBufferPop (s.proc p).ringBuffer with
    | (none, _) => (1, s)
    | (some out, ringBuffer) =>
      let s := s.setProc p ({ · with ringBuffer })
      let msg := ofBytes out
      let copySize := min size (msg.read32 8)
      let stores := wordStores senderPid (msg.read32 0) ++ copyStores buffer (msg.bytes 12 copySize)
      let delivery := { message := decodeMessage msg, senderPid, buffer, size, stores }
      (0, { s with delivered := Function.update s.delivered p (s.delivered p ++ [delivery]) })

/-- The rest of the system call: `ctx->eax = ret`. -/
def receiveRest (senderPid buffer size : ℕ) (s : Kernel) : Kernel :=
  let (ret, s) := ipcTake senderPid buffer size s
  s.setEax s.currentThread ret

/-- `ipc_receive` -/
def ipcReceive (senderPid buffer size : ℕ) (s : Kernel) : Outcome :=
  if senderPid = 0 ∨ buffer = 0 ∨ size = 0 ∨ size > ipcMsgMax then
    .done (s.setEax s.currentThread 1)
  else
    match schedGetCurrentProcess s with
    | none => .done (s.setEax s.currentThread 1)
    | some p =>
      if ringBufferEmpty (s.proc p).ringBuffer then
        let t := s.currentThread
        let s := s.setThread t ({ · with state := .blocked })
        let s := { s with queues := queuePush (queueRemove s.queues t) (.waiters p) t }
        .call (.receive senderPid buffer size) (receiveRest senderPid buffer size) s
      else .done (receiveRest senderPid buffer size s)

/-! ### Messages and their bytes -/

lemma ofBytes_bytes (m : ByteMem) {n x : ℕ} (h : x < n) : ofBytes (m.bytes 0 n) x = m x := by
  have hx : x < (m.bytes 0 n).length := by simpa using h
  have hadd := ByteMem.store_add (fun _ => 0) 0 hx
  rw [Nat.zero_add] at hadd
  rw [ofBytes, hadd]
  simp [ByteMem.bytes]

/-- What is decoded from a message is what was sent. -/
theorem decode_encode (stack data : ByteMem) {sender type size : ℕ} (hsender : sender < 2 ^ 32)
    (htype : type < 2 ^ 32) (hsize : size ≤ ipcMsgMax) :
    decodeMessage (ofBytes ((encodeMessage stack sender type size data).bytes 0 sizeofMessage)) =
      ⟨sender, type, data.bytes 0 size⟩ := by
  simp only [ipcMsgMax] at hsize
  have hword : ∀ a, a + 4 ≤ sizeofMessage →
      (ofBytes ((encodeMessage stack sender type size data).bytes 0 sizeofMessage)).read32 a =
        (encodeMessage stack sender type size data).read32 a := fun a ha =>
    ByteMem.read32_congr fun x _ hx => ofBytes_bytes _ (by omega)
  have hsize32 : (ofBytes ((encodeMessage stack sender type size data).bytes 0
      sizeofMessage)).read32 8 = size := by
    rw [hword 8 (by simp [sizeofMessage]), encodeMessage,
      ByteMem.read32_write32_of_disjoint _ _ (by omega),
      ByteMem.read32_write32_of_disjoint _ _ (by omega),
      ByteMem.read32_write32_same _ (by omega)]
  rw [decodeMessage, hsize32, Message.mk.injEq]
  refine ⟨?_, ?_, ?_⟩
  · rw [hword 0 (by simp [sizeofMessage]), encodeMessage,
      ByteMem.read32_write32_of_disjoint _ _ (by omega), ByteMem.read32_write32_same _ hsender]
  · rw [hword 4 (by simp [sizeofMessage]), encodeMessage, ByteMem.read32_write32_same _ htype]
  · refine List.map_congr_left fun i hi => ?_
    have hi := List.mem_range.1 hi
    have hlen : i < (data.bytes 0 size).length := by simpa using hi
    rw [ofBytes_bytes _ (by simp only [sizeofMessage]; omega), encodeMessage,
      ByteMem.write32_of_disjoint _ _ (by omega), ByteMem.write32_of_disjoint _ _ (by omega),
      ByteMem.write32_of_disjoint _ _ (by omega), ByteMem.store_add _ _ hlen]
    simp [ByteMem.bytes]

lemma applyStores_append (m : ByteMem) (l l' : List (ℕ × UInt8)) :
    applyStores m (l ++ l') = applyStores (applyStores m l) l' :=
  List.foldl_append

lemma applyStores_wordStores (m : ByteMem) (p v : ℕ) :
    applyStores m (wordStores p v) = m.write32 p v := by
  have hrange : List.range 4 = [0, 1, 2, 3] := rfl
  funext x
  simp only [applyStores, wordStores, hrange, List.map_cons, List.map_nil, List.foldl_cons,
    List.foldl_nil, ByteMem.write8, Function.update_apply]
  by_cases hx : x < p ∨ p + 4 ≤ x
  · rw [ByteMem.write32_of_disjoint _ _ hx, if_neg (by omega), if_neg (by omega),
      if_neg (by omega), if_neg (by omega)]
  · obtain ⟨i, rfl⟩ := Nat.exists_eq_add_of_le (not_lt.1 (not_or.1 hx).1)
    have hi : i = 0 ∨ i = 1 ∨ i = 2 ∨ i = 3 := by omega
    obtain rfl | rfl | rfl | rfl := hi <;> simp [ByteMem.write32]

lemma applyStores_copyStores (m : ByteMem) (p : ℕ) (l : List UInt8) :
    applyStores m (copyStores p l) = m.store p l := by
  induction l using List.reverseRecOn with
  | nil =>
    funext x
    rw [ByteMem.store_of_disjoint _ (by simp; omega)]
    rfl
  | append_singleton l b ih =>
    rw [copyStores, List.mapIdx_concat, applyStores_append, ← copyStores, ih]
    funext x
    simp only [applyStores, List.foldl_cons, List.foldl_nil, ByteMem.write8,
      Function.update_apply]
    split_ifs with hx
    · have hlen : l.length < (l ++ [b]).length := by simp
      rw [hx, ByteMem.store_add _ _ hlen]
      simp
    · by_cases hin : p ≤ x ∧ x < p + l.length
      · obtain ⟨i, rfl⟩ := Nat.exists_eq_add_of_le hin.1
        have hi : i < l.length := by omega
        rw [ByteMem.store_add _ _ hi, ByteMem.store_add _ _ (by simp; omega),
          List.getElem_append_left hi]
      · rw [ByteMem.store_of_disjoint _ (by omega),
          ByteMem.store_of_disjoint _ (by simp; omega)]

end Gummy
