import Gummy.Kernel.Syscall
import Gummy.Vmm.Bytes

/-!
The memory of user programs, as the system calls read and write it.

In `Syscall` the bytes behind a pointer of the caller are an argument of the entry.  Here
they are read through the tables of the active directory, and `sys_nprocess_impl` copies
them as the C code does: to a buffer in the kernel heap first, and from there into the new
address space.
-/

namespace Gummy

open CWord

/-! ### Bytes -/

namespace Machine

/-- What a pointer points to, `none` for `NULL`. -/
def userData (m : Machine) (p : ℕ) : Option ByteMem :=
  if p = 0 then none else some fun i => m.loadByte (u32 (p + i))

/-- Code of ring 3 may read the byte at `virt`. -/
def UserReadable (m : Machine) (virt : ℕ) : Prop :=
  virt < 0xC0000000 ∧ ∃ w, m.walk virt = some w ∧ w.2 &&& vmmFlagsUser = vmmFlagsUser

/-- Code of ring 3 may write the byte at `virt`. -/
def UserWritable (m : Machine) (virt : ℕ) : Prop :=
  virt < 0xC0000000 ∧ ∃ w, m.walk virt = some w ∧
    w.2 &&& (vmmFlagsRw ||| vmmFlagsUser) = vmmFlagsRw ||| vmmFlagsUser

end Machine

/-- The addresses of `n` bytes from `p` on, as pointer arithmetic gives them. -/
def byteRange (p n : ℕ) : List ℕ := (List.range n).map fun i => u32 (p + i)

/-- `memcpy` -/
def memcpy (dst src n : ℕ) (m : Machine) : Machine :=
  if dst = 0 ∨ src = 0 then m
  else
    (List.range n).foldl
      (fun m i => m.storeByte (u32 (dst + i)) (m.loadByte (u32 (src + i)))) m

/-! ### `sys_nprocess_impl` -/

/-- `sys_nprocess_impl`, with the copies of its image: the value returned. -/
def sysNprocessImpl (entry n : ℕ) (cData cProc cStack : HeapChoice) (g : Garbage) (s : Kernel) :
    ℕ × Kernel :=
  if entry = 0 ∨ n = 0 then (0, s)
  else
    match heapGet n cData s with
    | (none, s) => (0, s)
    | (some data, s) =>
      let s := { s with mach := memcpy data entry n s.mach }
      match schedCreateProcess cProc s with
      | (none, s) => (0, heapPut data s)
      | (some p, s) =>
        let pages := alignUp 32 n pageSize / pageSize
        let (res, mach) := vmmAllocPagesRegionIn (s.proc p).cr3 pages
          (vmmFlagsPresent ||| vmmFlagsRw ||| vmmFlagsUser) imageBase
          (u32 (imageBase + pages * pageSize)) s.mach
        let s := { s with mach }
        if res.isNone then (0, schedDestroyProcess p g (heapPut data s))
        else
          match schedCreateThread imageBase p cStack s with
          | (none, s) =>
            let s := { s with mach := (vmmFreePagesIn (s.proc p).cr3 pages imageBase s.mach).2 }
            (0, schedDestroyProcess p g (heapPut data s))
          | (some t, s) =>
            let oldCr3 := s.mach.cr3
            let mach := memcpy imageBase data n { s.mach with cr3 := (s.proc p).cr3 }
            let s := { s with mach := { mach with cr3 := oldCr3 } }
            let s := schedReady t (heapPut data s)
            ((s.proc p).pid, s)

end Gummy
