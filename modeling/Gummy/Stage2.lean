import Gummy.Boot
import Gummy.Fat.Loading
import Gummy.Fat.RootDir
import Gummy.Lib.WordStack
import Gummy.Stage1
import Gummy.Vmm.Walk

/-!
The second stage: `main.asm`, `e820.asm` and `32bit.asm`.

It loads the kernel and the initrd through `fat.asm`, asks the firmware for the memory map, turns
paging on and jumps to the kernel.  `pd` and `pt` are the addresses of its two tables, which the
assembler puts into its image; the rest of its code and variables, and its stack, are kept apart
from the memory here.  `none` stands for `jmp halt`.
-/

namespace Gummy

open CWord

/-! ### `main.asm` -/

/-- `initrd_file` -/
def initrdFile : List UInt8 := [73, 78, 73, 84, 82, 68, 32, 32, 32, 32, 32]

/-- The 32 bytes of the variable `entry`. -/
def FatEntry.ofBytes (l : List UInt8) : FatEntry := .read (ByteMem.store (fun _ => 0) 0 l) 0

/-- `read_file` -/
def readFile (disk : Disk) (vol : FatVolume) (fuel : ℕ) (name : List UInt8) (edx : ℕ) (s : Loader) :
    Option Loader := do
  let (eax, cf, s) ← fatFindInRootDir disk vol name s
  if cf then none
  else
    let (entry, s) ← fatReadRootDir disk vol s eax
    let es := edx / 2 ^ 4 % 2 ^ 16
    let bx := edx % 2 ^ 4
    let (cf, s) ← fatReadFile disk vol fuel (.ofBytes entry) es bx s
    if cf then none else some s

/-! ### `e820.asm` -/

/-- What `INT 15h` answers for `EAX = 0xE820`. -/
structure E820Reply where
  carry : Bool
  eax : ℕ
  ebx : ℕ
  /-- what is stored at `ES:DI` -/
  bytes : List UInt8

/-- The firmware: the reply for `EBX`. -/
abbrev Int15 := ℕ → E820Reply

/-- `SMAP` -/
def smap : ℕ := 0x534D4150

/-- `.loop` of `e820_init`: whether the carry flag is set; `none` when it has not ended after `fuel`
calls. -/
def e820Loop (bios : Int15) : ℕ → ℕ → ℕ → ByteMem → Option (Bool × ByteMem)
  | 0, _, _, _ => none
  | fuel + 1, ebx, di, mem =>
    let reply := bios ebx
    let mem := (mem.write32 ((di + 20) % 2 ^ 16) 1).store di reply.bytes
    if reply.carry then some (true, mem)
    else if reply.eax ≠ smap then some (true, mem)
    else
      let count := mem.read16 e820Loc + 1
      let mem := mem.store e820Loc [UInt8.ofNat count, UInt8.ofNat (count / 2 ^ 8)]
      if reply.ebx = 0 then some (false, mem)
      else e820Loop bios fuel reply.ebx ((di + 24) % 2 ^ 16) mem

/-- `e820_init` -/
def e820Init (bios : Int15) (fuel : ℕ) (mem : ByteMem) : Option (Bool × ByteMem) :=
  e820Loop bios fuel 0 (e820Loc + 2) (mem.store e820Loc [0, 0])

/-! ### `32bit.asm` -/

/-- `pt`, as the assembler lays it out: the first MiB. -/
def ptWords : List ℕ := (List.range 256).map (fun i => i * 0x1000 ||| 3) ++ List.replicate 768 0

/-- `_32bit_entry`.  The frame allocator is still all zero. -/
def enter32 (pd pt : ℕ) (mem : ByteMem) : Machine where
  phys := ((mem.write32 pd (pt ||| 3)).write32 (pd + 768 * 4) (pt ||| 3)).write32
    (pd + 768 * 4 + 255 * 4) (pd ||| 3)
  pmm := ⟨fun _ => 0, 0, 0, 0, 0⟩
  cr3 := pd

/-- `main`, up to the jump to the kernel. -/
def stage2 (disk : Disk) (bios : Int15) (fuel pd pt : ℕ) (mem : ByteMem) : Option Machine := do
  let (vol, s) ← fatInit disk ⟨mem, []⟩
  let vol ← vol
  let s ← readFile disk vol fuel kernelFile kernelLoc s
  let s ← readFile disk vol fuel initrdFile initrdLoc s
  let (cf, mem) ← e820Init bios fuel s.mem
  if cf then none else some (enter32 pd pt mem)

/-- `vmm_init`: the window below is closed. -/
def vmmInit (m : Machine) : Machine := m.store (getPde 0) 0

/-- What the kernel finds at the virtual addresses. -/
def Machine.view (m : Machine) : ByteMem := fun virt => ((m.translate virt).map m.phys).getD 0

/-! ### Files -/

section Files

variable {disk : Disk} {image : ℕ → ByteMem} {vol : FatVolume} {name : List UInt8} {s : Loader}

/-- Nothing but the temporary buffer has changed. -/
def SameOutside (s t : Loader) : Prop := ∀ x ∉ tempBuffer, t.mem x = s.mem x

lemma SameOutside.trans {s t u : Loader} (h : SameOutside s t) (h' : SameOutside t u) :
    SameOutside s u := fun x hx => (h' x hx).trans (h x hx)

/-- A sector that goes to the temporary buffer. -/
lemma diskReadSector_same {t : Loader} {lba : ℕ}
    (h : diskReadSector disk s lba (tempSectorBuffer / 16) (tempSectorBuffer % 16) = some t) :
    SameOutside s t := by
  rw [diskReadSector] at h
  obtain ⟨data, -, rfl⟩ := Option.map_eq_some_iff.1 h
  intro x hx
  refine ByteMem.store_of_disjoint _ ?_
  rw [ByteMem.length_bytes, show linear (tempSectorBuffer / 16) (tempSectorBuffer % 16) =
    tempSectorBuffer from rfl]
  by_contra hin
  exact hx ⟨by omega, by omega⟩

lemma fatInit_same {r : Option FatVolume} {t : Loader} (h : fatInit disk s = some (r, t)) :
    SameOutside s t := by
  obtain ⟨t', ht', h⟩ := Option.bind_eq_some_iff.1 h
  obtain ⟨-, rfl⟩ := Prod.mk.inj (Option.some.inj h)
  exact diskReadSector_same ht'

lemma fatReadRootDir_same {i : ℕ} {bytes : List UInt8} {t : Loader}
    (h : fatReadRootDir disk vol s i = some (bytes, t)) : SameOutside s t := by
  rw [fatReadRootDir] at h
  obtain ⟨t', ht', h⟩ := Option.bind_eq_some_iff.1 h
  obtain ⟨-, rfl⟩ := Prod.mk.inj (Option.some.inj h)
  exact diskReadSector_same ht'

lemma findLoop_same {n eax : ℕ} {r : ℕ × Bool × Loader}
    (h : findLoop disk vol name n eax s = some r) : SameOutside s r.2.2 := by
  induction n generalizing eax s with
  | zero =>
    obtain rfl := Option.some.inj h
    exact fun _ _ => rfl
  | succ n ih =>
    rw [findLoop] at h
    obtain ⟨⟨entry, t⟩, ht, h⟩ := Option.bind_eq_some_iff.1 h
    have hsame := fatReadRootDir_same ht
    dsimp only at h
    split_ifs at h
    · obtain rfl := Option.some.inj h
      exact hsame
    · obtain rfl := Option.some.inj h
      exact hsame
    · exact hsame.trans (ih h)

/-- The root directory has a file of that name, and its clusters `l` can be read to `dest`. -/
structure FileOnDisk (image : ℕ → ByteMem) (vol : FatVolume) (name : List UInt8) (dest i : ℕ)
    (bytes : List UInt8) (l : List ℕ) : Prop where
  index_lt : i < vol.bpb.rootDirEntries
  found : RootMatch (.ofImage image) vol name i
  first : ∀ j < i, ¬ RootMatch (.ofImage image) vol name j
  entry : rootEntry (.ofImage image) vol i = some bytes
  file : IsFile image vol (.ofBytes bytes) l
  size : (FatEntry.ofBytes bytes).fileSize ≠ 0
  small : dest + (FatEntry.ofBytes bytes).fileSize < 0x90000
  narrow : ∀ c ∈ l.dropLast, vol.fatType = 12 ∨ vol.bpb.reservedSectors + c / 256 < 2 ^ 16

/-- `fat_read_file` reads the whole chain. -/
lemma IsFile.read {entry : FatEntry} {l : List ℕ} {es bx : ℕ} (h : IsFile image vol entry l)
    (hvol : vol.Accepted) (hsize : entry.fileSize ≠ 0) (hbx : bx < 2 ^ 16)
    (hsmall : linear es bx + entry.fileSize < 0x90000)
    (hnarrow : ∀ c ∈ l.dropLast, vol.fatType = 12 ∨ vol.bpb.reservedSectors + c / 256 < 2 ^ 16)
    (hfit : linear es bx + (l.flatMap (clusterBytes image vol)).length ≤ 0x90000) (s : Loader) :
    ∃ fuel t, fatReadFile (.ofImage image) vol fuel entry es bx s = some (false, t) ∧
      ∀ x ∉ tempBuffer, t.mem x =
        s.mem.store (linear es bx) (l.flatMap (clusterBytes image vol)) x := by
  obtain ⟨c, l, rfl⟩ : ∃ c l', l = c :: l' := by
    cases l with
    | nil => exact absurd h.head (by simp)
    | cons c l => exact ⟨c, l, rfl⟩
  obtain rfl : c = entry.clusterLo := Option.some.inj h.head
  have hfirst := h.mem _ List.mem_cons_self
  have hlo := entry.clusterLo_lt
  have hmod : entry.clusterLo % 2 ^ 16 = entry.clusterLo := Nat.mod_eq_of_lt hlo
  obtain ⟨l', -, hreads, hiff⟩ := chainReads_prefix hvol h.mem h.next h.last hmod
    (isEof_of_cluster hvol (by rw [hmod]; exact hfirst.2) fun _ => hlo)
  obtain rfl := hiff.2 hnarrow
  have hlimit : ¬ 0x90000 ≤ u32 (linear es bx + entry.fileSize) := by
    rw [u32_of_lt (by omega)]
    omega
  obtain ⟨fuel, t, hrun, hw⟩ := fatReadLoop_spec hvol hreads
    (s := { toLoader := s, eax := entry.clusterLo, es, bx }) ⟨rfl, hbx⟩ rfl hfit
  exact ⟨fuel, t, by rw [fatReadFile_eq_loop hsize hlimit (by omega), hrun], hw.mem⟩

lemma fatReadFile_mono {fuel fuel' : ℕ} {entry : FatEntry} {es bx : ℕ} {r : Bool × Loader}
    (hle : fuel ≤ fuel') (h : fatReadFile disk vol fuel entry es bx s = some r) :
    fatReadFile disk vol fuel' entry es bx s = some r := by
  rw [fatReadFile] at h ⊢
  split_ifs at h ⊢
  · exact h
  · exact h
  · exact h
  · exact fatReadLoop_mono hle h

/-- `read_file` puts the file where it is told to. -/
theorem readFile_spec {dest i : ℕ} {bytes : List UInt8} {l : List ℕ}
    (h : FileOnDisk image vol name dest i bytes l) (hvol : vol.Accepted) (hdest : dest < 2 ^ 20)
    (hfit : dest + (l.flatMap (clusterBytes image vol)).length ≤ 0x90000) (s : Loader) :
    ∃ fuel₀ t, (∀ fuel, fuel₀ ≤ fuel → readFile (.ofImage image) vol fuel name dest s = some t) ∧
      ∀ x ∉ tempBuffer, t.mem x = s.mem.store dest (l.flatMap (clusterBytes image vol)) x := by
  have hcount : 1 ≤ vol.bpb.rootDirEntries := Nat.one_le_of_lt h.index_lt
  have hentries := vol.bpb.rootDirEntries_lt
  have hindex := h.index_lt
  obtain ⟨t, ht⟩ := findLoop_match (s := s) (i := 0) (n := vol.bpb.rootDirEntries) h.found h.first
    (Nat.zero_le _) (by omega) (by omega)
  have hsame := findLoop_same ht
  have hfind : fatFindInRootDir (.ofImage image) vol name s = some (i, false, t) := by
    rw [fatFindInRootDir, passes_of_pos hcount]
    exact ht
  -- the entry
  obtain ⟨hnone, -⟩ | ⟨bytes', t', hbytes, hread⟩ :=
    @fatReadRootDir_spec (.ofImage image) vol t i (by omega)
  · rw [h.entry] at hnone
    exact absurd hnone (by simp)
  obtain rfl : bytes = bytes' := Option.some.inj (h.entry.symm.trans hbytes)
  have hsame' := hsame.trans (fatReadRootDir_same hread)
  -- the clusters
  obtain ⟨es, hes⟩ : ∃ es, es = dest / 2 ^ 4 % 2 ^ 16 := ⟨_, rfl⟩
  obtain ⟨bx, hbx⟩ : ∃ bx, bx = dest % 2 ^ 4 := ⟨_, rfl⟩
  have hlinear : linear es bx = dest := by
    unfold linear
    omega
  have hsmall := h.small
  rw [← hlinear] at hsmall hfit
  obtain ⟨fuel₀, u, hfile, hmem⟩ := h.file.read hvol h.size (by omega) hsmall h.narrow hfit t'
  refine ⟨fuel₀, u, fun fuel hle => ?_, fun x hx => ?_⟩
  · rw [readFile, hfind, Option.bind_eq_bind, Option.bind_some]
    dsimp only
    rw [if_neg (by simp), hread, Option.bind_eq_bind, Option.bind_some]
    dsimp only
    rw [← hes, ← hbx, fatReadFile_mono hle hfile]
    rfl
  · rw [hmem x hx, hlinear]
    exact ByteMem.store_congr _ (hsame' x hx)

end Files

/-! ### The memory map -/

section Map

/-- A reply with one more entry; the firmware may leave its last word out. -/
structure E820Reply.Good (r : E820Reply) : Prop where
  carry : r.carry = false
  eax : r.eax = smap
  length : r.bytes.length = 20 ∨ r.bytes.length = 24

/-- The firmware lists these entries, from the continuation value `EBX` on. -/
inductive Int15.Lists (bios : Int15) : ℕ → List (List UInt8) → Prop
  | last {ebx : ℕ} (h : (bios ebx).Good) (hend : (bios ebx).ebx = 0) :
      Lists bios ebx [(bios ebx).bytes]
  | more {ebx : ℕ} {l : List (List UInt8)} (h : (bios ebx).Good) (hmore : (bios ebx).ebx ≠ 0)
      (hrest : Lists bios (bios ebx).ebx l) : Lists bios ebx ((bios ebx).bytes :: l)

/-- An entry as it is stored: where the firmware writes no attributes, they are `1`. -/
def padEntry (bytes : List UInt8) : List UInt8 := bytes ++ [1, 0, 0, 0].drop (bytes.length - 20)

lemma length_padEntry {r : E820Reply} (h : r.Good) : (padEntry r.bytes).length = 24 := by
  rw [padEntry, List.length_append, List.length_drop]
  rcases h.length with hlen | hlen <;> rw [hlen] <;> rfl

lemma write32_one (m : ByteMem) (a : ℕ) : m.write32 a 1 = m.store a [1, 0, 0, 0] := by
  funext x
  by_cases hx : x < a ∨ a + 4 ≤ x
  · rw [m.write32_of_disjoint 1 hx, m.store_of_disjoint hx]
  · obtain ⟨i, hi, rfl⟩ : ∃ i < 4, x = a + i := ⟨x - a, by omega, by omega⟩
    rw [m.store_add a (by simpa using hi), ByteMem.write32]
    interval_cases i <;> simp

/-- The order of two stores side by side does not matter. -/
lemma store_store_append (m : ByteMem) (a : ℕ) (l l' : List UInt8) :
    (m.store (a + l.length) l').store a l = m.store a (l ++ l') := by
  funext x
  rw [m.store_append]
  rcases Nat.lt_or_ge x (a + l.length) with hx | hx
  · rw [(m.store a l).store_of_disjoint (.inl hx)]
    exact ByteMem.store_congr l (m.store_of_disjoint (.inl hx))
  · rw [(m.store (a + l.length) l').store_of_disjoint (.inr hx)]
    exact ByteMem.store_congr l' (m.store_of_disjoint (.inr hx)).symm

/-- The attributes are written first, and then the reply. -/
lemma store_reply (m : ByteMem) (a : ℕ) {r : E820Reply} (h : r.Good) :
    (m.write32 (a + 20) 1).store a r.bytes = m.store a (padEntry r.bytes) := by
  rw [write32_one, padEntry]
  rcases h.length with hlen | hlen
  · have hdrop : [1, 0, 0, 0].drop (r.bytes.length - 20) = ([1, 0, 0, 0] : List UInt8) := by
      rw [hlen]
      rfl
    rw [hdrop, ← hlen]
    exact store_store_append ..
  · rw [hlen, show [1, 0, 0, 0].drop (24 - 20) = ([] : List UInt8) from rfl, List.append_nil]
    funext x
    by_cases hx : x < a + 20 ∨ a + 20 + 4 ≤ x
    · exact ByteMem.store_congr _ (m.store_of_disjoint hx)
    · obtain ⟨i, hi, rfl⟩ : ∃ i < 24, x = a + i := ⟨x - a, by omega, by omega⟩
      rw [ByteMem.store_add _ _ (by omega), ByteMem.store_add _ _ (by omega)]

lemma read16_store (m : ByteMem) (a : ℕ) {v : ℕ} (hv : v < 2 ^ 16) :
    (m.store a [UInt8.ofNat v, UInt8.ofNat (v / 2 ^ 8)]).read16 a = v := by
  have hlow := m.store_add a (l := [UInt8.ofNat v, UInt8.ofNat (v / 2 ^ 8)]) (i := 0) (by simp)
  have hhigh := m.store_add a (l := [UInt8.ofNat v, UInt8.ofNat (v / 2 ^ 8)]) (i := 1) (by simp)
  rw [Nat.add_zero] at hlow
  rw [ByteMem.read16, hlow, hhigh]
  simp only [List.getElem_cons_zero, List.getElem_cons_succ, UInt8.toNat_ofNat']
  omega

/-- The memory after one more entry. -/
def countEntry (mem : ByteMem) (di : ℕ) (bytes : List UInt8) : ByteMem :=
  (mem.store di (padEntry bytes)).store e820Loc [UInt8.ofNat (mem.read16 e820Loc + 1),
    UInt8.ofNat ((mem.read16 e820Loc + 1) / 2 ^ 8)]

lemma countEntry_of_ne {mem : ByteMem} {di x : ℕ} {bytes : List UInt8}
    (hx : x < e820Loc ∨ e820Loc + 2 ≤ x) :
    countEntry mem di bytes x = mem.store di (padEntry bytes) x :=
  ByteMem.store_of_disjoint _ (by simpa using hx)

/-- One call. -/
lemma e820Loop_good {bios : Int15} {ebx di : ℕ} {mem : ByteMem} (h : (bios ebx).Good)
    (hlow : e820Loc + 2 ≤ di) (hfit : di + 24 ≤ 0x7C00) (fuel : ℕ) :
    e820Loop bios (fuel + 1) ebx di mem =
      if (bios ebx).ebx = 0 then some (false, countEntry mem di (bios ebx).bytes)
      else e820Loop bios fuel (bios ebx).ebx (di + 24) (countEntry mem di (bios ebx).bytes) := by
  have hsame : (mem.store di (padEntry (bios ebx).bytes)).read16 e820Loc = mem.read16 e820Loc := by
    rw [ByteMem.read16, ByteMem.read16, ByteMem.store_of_disjoint _ (by omega),
      ByteMem.store_of_disjoint _ (by omega)]
  rw [e820Loop, Nat.mod_eq_of_lt (show di + 20 < 2 ^ 16 by omega),
    Nat.mod_eq_of_lt (show di + 24 < 2 ^ 16 by omega)]
  dsimp only
  rw [store_reply mem di h, h.carry, if_neg (by simp), if_neg (by simp [h.eax]), hsame]
  rfl

/-- The loop stores the rest of the entries and counts them. -/
lemma e820Loop_spec {bios : Int15} {ebx : ℕ} {l : List (List UInt8)} (h : bios.Lists ebx l)
    {di : ℕ} {mem : ByteMem} (hcount : mem.read16 e820Loc + l.length < 2 ^ 16)
    (hlow : e820Loc + 2 ≤ di) (hfit : di + 24 * l.length ≤ 0x7C00) :
    ∃ mem', (∀ fuel, l.length ≤ fuel → e820Loop bios fuel ebx di mem = some (false, mem')) ∧
      mem'.read16 e820Loc = mem.read16 e820Loc + l.length ∧
      ∀ x, x < e820Loc ∨ e820Loc + 2 ≤ x → mem' x = mem.store di (l.flatMap padEntry) x := by
  induction h generalizing di mem with
  | @last ebx h hend =>
    rw [List.length_singleton] at hcount hfit ⊢
    refine ⟨countEntry mem di (bios ebx).bytes, fun fuel hle => ?_, read16_store _ _ hcount,
      fun x hx => ?_⟩
    · obtain ⟨fuel, rfl⟩ : ∃ k, fuel = k + 1 := ⟨fuel - 1, by omega⟩
      rw [e820Loop_good h hlow hfit, if_pos hend]
    · rw [List.flatMap_singleton]
      exact countEntry_of_ne hx
  | @more ebx l h hmore hrest ih =>
    rw [List.length_cons] at hcount hfit ⊢
    have hread : (countEntry mem di (bios ebx).bytes).read16 e820Loc = mem.read16 e820Loc + 1 :=
      read16_store _ _ (by omega)
    obtain ⟨mem', hloop, hread', hmem⟩ := @ih (di + 24) (countEntry mem di (bios ebx).bytes)
      (by omega) (by omega) (by omega)
    refine ⟨mem', fun fuel hle => ?_, by omega, fun x hx => ?_⟩
    · obtain ⟨fuel, rfl⟩ : ∃ k, fuel = k + 1 := ⟨fuel - 1, by omega⟩
      rw [e820Loop_good h hlow (by omega), if_neg hmore, hloop fuel (by omega)]
    · rw [hmem x hx, List.flatMap_cons, ByteMem.store_append, length_padEntry h]
      exact ByteMem.store_congr _ (countEntry_of_ne hx)

/-- `e820_init` leaves the number of entries and the entries. -/
lemma e820Init_spec {bios : Int15} {l : List (List UInt8)} (h : bios.Lists 0 l)
    (hfit : e820Loc + 2 + 24 * l.length ≤ 0x7C00) (mem : ByteMem) :
    ∃ mem', (∀ fuel, l.length ≤ fuel → e820Init bios fuel mem = some (false, mem')) ∧
      mem'.read16 e820Loc = l.length ∧
      ∀ x, x < e820Loc ∨ e820Loc + 2 ≤ x →
        mem' x = mem.store (e820Loc + 2) (l.flatMap padEntry) x := by
  have hloc : e820Loc = 0x500 := rfl
  have hzero : (mem.store e820Loc [0, 0]).read16 e820Loc = 0 := read16_store mem e820Loc (by norm_num)
  obtain ⟨mem', hloop, hread, hmem⟩ := @e820Loop_spec bios 0 l h (e820Loc + 2)
    (mem.store e820Loc [0, 0]) (by omega) le_rfl hfit
  refine ⟨mem', hloop, by omega, fun x hx => ?_⟩
  rw [hmem x hx]
  exact ByteMem.store_congr _ (mem.store_of_disjoint (by simpa using hx))

end Map

/-! ### Paging -/

section Paging

variable {mem : ByteMem} {pd pt : ℕ}

/-- The two tables are page-aligned, in the second stage's image below the kernel, and as the
assembler has laid them out. -/
structure TablesAt (mem : ByteMem) (pd pt : ℕ) : Prop where
  pd_dvd : pageSize ∣ pd
  pt_dvd : pageSize ∣ pt
  ne : pd ≠ pt
  pd_low : startAddr ≤ pd
  pd_high : pd + pageSize ≤ kernelLoc
  pt_low : startAddr ≤ pt
  pt_high : pt + pageSize ≤ kernelLoc
  zero : mem.Words pd (List.replicate 1024 0)
  words : mem.Words pt ptWords

lemma length_ptWords : ptWords.length = 1024 := by
  rw [ptWords, List.length_append, List.length_map, List.length_range, List.length_replicate]

lemma ptWords_get {j : ℕ} (hj : j < 1024) (hlt : j < ptWords.length) :
    ptWords[j] = if j < 256 then j * 0x1000 ||| 3 else 0 := by
  have hlen : ((List.range 256).map fun i => i * 0x1000 ||| 3).length = 256 := by
    rw [List.length_map, List.length_range]
  split_ifs with h
  · have hmap : j < ((List.range 256).map fun i => i * 0x1000 ||| 3).length := by omega
    have hget : ((List.range 256).map fun i => i * 0x1000 ||| 3)[j] = j * 0x1000 ||| 3 := by
      rw [List.getElem_map, List.getElem_range]
    rw [← hget]
    exact List.getElem_append_left hmap
  · have hrest : j - ((List.range 256).map fun i => i * 0x1000 ||| 3).length <
        (List.replicate 768 0).length := by
      rw [hlen, List.length_replicate]
      omega
    refine (List.getElem_append_right (by omega)).trans ?_
    exact List.getElem_replicate hrest

lemma TablesAt.congr {mem' : ByteMem} (h : TablesAt mem pd pt)
    (hmem : ∀ x, startAddr ≤ x → x < kernelLoc → mem' x = mem x) : TablesAt mem' pd pt := by
  have hpd := h.pd_high
  have hpt := h.pt_high
  simp only [pageSize] at hpd hpt
  refine ⟨h.pd_dvd, h.pt_dvd, h.ne, h.pd_low, h.pd_high, h.pt_low, h.pt_high,
    h.zero.congr fun x hx hx' => hmem x (h.pd_low.trans hx) ?_,
    h.words.congr fun x hx hx' => hmem x (h.pt_low.trans hx) ?_⟩
  · rw [List.length_replicate] at hx'
    omega
  · rw [length_ptWords] at hx'
    omega

lemma TablesAt.apart (h : TablesAt mem pd pt) : pd + pageSize ≤ pt ∨ pt + pageSize ≤ pd := by
  obtain ⟨i, hi⟩ := h.pd_dvd
  obtain ⟨j, hj⟩ := h.pt_dvd
  have hne := h.ne
  simp only [pageSize] at hi hj ⊢
  omega

/-- Nothing but the directory changes. -/
lemma enter32_phys {x : ℕ} (hx : x < pd ∨ pd + pageSize ≤ x) :
    (enter32 pd pt mem).phys x = mem x := by
  simp only [pageSize] at hx
  rw [enter32]
  dsimp only
  rw [ByteMem.write32_of_disjoint _ _ (by omega), ByteMem.write32_of_disjoint _ _ (by omega),
    ByteMem.write32_of_disjoint _ _ (by omega)]

/-- The three entries of the directory. -/
lemma enter32_pde (hpd : pd < 2 ^ 32) (hpt : pt < 2 ^ 32) :
    (enter32 pd pt mem).phys.read32 pd = pt ||| 3 ∧
      (enter32 pd pt mem).phys.read32 (pd + 4 * 768) = pt ||| 3 ∧
      (enter32 pd pt mem).phys.read32 (pd + 4 * 1023) = pd ||| 3 := by
  have hpd' : pd ||| 3 < 2 ^ 32 := Nat.or_lt_two_pow hpd (by norm_num)
  have hpt' : pt ||| 3 < 2 ^ 32 := Nat.or_lt_two_pow hpt (by norm_num)
  rw [enter32]
  dsimp only
  refine ⟨?_, ?_, ?_⟩
  · rw [ByteMem.read32_write32_of_disjoint _ _ (by omega),
      ByteMem.read32_write32_of_disjoint _ _ (by omega), ByteMem.read32_write32_same _ hpt']
  · rw [ByteMem.read32_write32_of_disjoint _ _ (by omega), Nat.mul_comm,
      ByteMem.read32_write32_same _ hpt']
  · rw [show pd + 4 * 1023 = pd + 768 * 4 + 255 * 4 by omega, ByteMem.read32_write32_same _ hpd']

/-- An entry of `pt`. -/
lemma TablesAt.pte (h : TablesAt mem pd pt) {j : ℕ} (hj : j < 1024) :
    (enter32 pd pt mem).phys.read32 (pt + 4 * j) = if j < 256 then j * 0x1000 ||| 3 else 0 := by
  have hword := h.words.read32 (i := j) (by rw [length_ptWords]; exact hj)
  rw [ptWords_get hj] at hword
  rw [← hword]
  have hapart := h.apart
  simp only [pageSize] at hapart
  exact ByteMem.read32_congr fun x hx hx' => enter32_phys (by simp only [pageSize]; omega)

/-- Nothing else is in the directory. -/
lemma TablesAt.pde (h : TablesAt mem pd pt) {i : ℕ} (hi : i < 1023) (h0 : i ≠ 0) (h768 : i ≠ 768) :
    (enter32 pd pt mem).phys.read32 (pd + 4 * i) = 0 := by
  have hword := h.zero.read32 (i := i) (by rw [List.length_replicate]; omega)
  rw [List.getElem_replicate] at hword
  rw [← hword, enter32]
  dsimp only
  rw [ByteMem.read32_write32_of_disjoint _ _ (by omega),
    ByteMem.read32_write32_of_disjoint _ _ (by omega),
    ByteMem.read32_write32_of_disjoint _ _ (by omega)]

lemma or_three_present (a : ℕ) : isPresent (a ||| 3) = true := by
  rw [isPresent_or]
  exact Bool.or_true _

/-- Both windows show the first MiB. -/
theorem TablesAt.translate (h : TablesAt mem pd pt) {a base : ℕ} (ha : a < 2 ^ 20)
    (hbase : base = 0 ∨ base = kernelOffset) :
    (enter32 pd pt mem).translate (base + a) = some a := by
  have hpd := h.pd_high
  have hpt := h.pt_high
  simp only [pageSize, kernelLoc] at hpd hpt
  obtain ⟨hzero, hhigh, -⟩ := @enter32_pde mem pd pt (by omega) (by omega)
  have hcr3 : (enter32 pd pt mem).cr3 = pd := rfl
  have hpde : (enter32 pd pt mem).phys.read32 (pd + 4 * ((base + a) / 2 ^ 22)) = pt ||| 3 := by
    rcases hbase with rfl | rfl
    · rw [show (0 + a) / 2 ^ 22 = 0 by omega]
      exact hzero
    · rw [show (kernelOffset + a) / 2 ^ 22 = 768 by simp only [kernelOffset]; omega]
      exact hhigh
  have hindex : (base + a) / 2 ^ 12 % 2 ^ 10 = a / 2 ^ 12 := by
    rcases hbase with rfl | rfl
    · omega
    · simp only [kernelOffset]
      omega
  have hoffset : (base + a) % 2 ^ 12 = a % 2 ^ 12 := by
    rcases hbase with rfl | rfl
    · rw [Nat.zero_add]
    · simp only [kernelOffset]
      omega
  have hframe : frameAddr (pt ||| 3) = pt := frameAddr_or h.pt_dvd (by omega) (by norm_num)
  have hframe' : frameAddr (a / 2 ^ 12 * 0x1000 ||| 3) = a / 2 ^ 12 * 0x1000 :=
    frameAddr_or ⟨a / 2 ^ 12, Nat.mul_comm ..⟩ (by omega) (by norm_num)
  have hpte := h.pte (j := a / 2 ^ 12) (by omega)
  rw [if_pos (by omega)] at hpte
  rw [Machine.translate, hcr3, hpde, hindex, hoffset]
  dsimp only
  rw [if_pos (or_three_present pt), hframe, hpte, if_pos (or_three_present _), hframe',
    show a / 2 ^ 12 * 0x1000 = a / 2 ^ 12 * 2 ^ 12 by norm_num, Nat.div_add_mod']

/-- The directory appears at the end of the address space. -/
theorem TablesAt.selfMapped (h : TablesAt mem pd pt) : (enter32 pd pt mem).SelfMapped := by
  have hpd := h.pd_high
  have hpt := h.pt_high
  simp only [pageSize, kernelLoc] at hpd hpt
  obtain ⟨-, -, hself⟩ := @enter32_pde mem pd pt (by omega) (by omega)
  have hpde : (enter32 pd pt mem).pde 1023 = pd ||| 3 := hself
  refine ⟨h.pd_dvd, ?_, ?_⟩
  · rw [Machine.table, hpde]
    exact frameAddr_or h.pd_dvd (by omega) (by norm_num)
  · rw [hpde]
    exact or_three_present pd

/-- Behind `pmm_init` and `vmm_init` the tables are those that the kernel starts from. -/
theorem TablesAt.bootTables (h : TablesAt mem pd pt) {pmm : Pmm} (hvalid : pmm.Valid)
    (hlow : ∀ f < 16, ¬ pmm.Free f) : BootTables (vmmInit { enter32 pd pt mem with pmm }) := by
  have hpd := h.pd_high
  have hpt := h.pt_high
  have hpt' := h.pt_low
  simp only [pageSize, kernelLoc, startAddr] at hpd hpt hpt'
  obtain ⟨-, hhigh, hself⟩ := @enter32_pde mem pd pt (by omega) (by omega)
  obtain ⟨m, hm⟩ : ∃ m : Machine, m = { enter32 pd pt mem with pmm } := ⟨_, rfl⟩
  have hcr3 : m.cr3 = pd := by
    rw [hm]
    rfl
  have hphys : m.phys = (enter32 pd pt mem).phys := by rw [hm]
  have hmapped : m.SelfMapped := by
    rw [hm]
    exact h.selfMapped.withPmm pmm
  have hpde : ∀ i, m.pde i = (enter32 pd pt mem).phys.read32 (pd + 4 * i) := fun i => by
    rw [Machine.pde, hcr3, hphys]
  have htable : m.table 768 = pt := by
    rw [Machine.table, hpde, hhigh]
    exact frameAddr_or h.pt_dvd (by omega) (by norm_num)
  have hstore : vmmInit m = m.setPde 0 0 := hmapped.store_pde (i := 0) (by norm_num) 0
  have htable' : (m.setPde 0 0).table 768 = pt :=
    (Machine.table_setPde_of_ne (by norm_num)).trans htable
  rw [← hm, hstore]
  refine ⟨?_, ?_, hmapped.cr3_dvd, ?_, ?_, ?_, ?_, ?_, ?_, fun j hj => ?_, fun i hi hne => ?_⟩
  · rw [Machine.setPde_pmm, hm]
    exact hvalid
  · rw [Machine.setPde_pmm, hm]
    exact hlow
  · rw [Machine.setPde_cr3, hcr3]
    simp only [pageSize]
    omega
  · rw [Machine.pde_setPde_of_ne (by norm_num), Machine.setPde_cr3, hpde, hself, hcr3]
  · rw [htable']
    simp only [pageSize]
    omega
  · rw [htable']
    omega
  · rw [htable', Machine.setPde_cr3, hcr3]
    exact h.ne.symm
  · rw [Machine.pde_setPde_of_ne (by norm_num), htable', hpde, hhigh]
  · rw [Machine.pte_setPde_of_ne hmapped.cr3_dvd (by norm_num) hj (by norm_num)
      (by rw [htable, hcr3]; exact h.ne.symm), Machine.pte, htable, hphys]
    exact h.pte hj
  · by_cases h0 : i = 0
    · rw [h0]
      exact Machine.pde_setPde_self (by norm_num)
    · rw [Machine.pde_setPde_of_ne h0, hpde]
      exact h.pde hi h0 hne

/-- What lies in the first MiB is seen by the kernel, unless it is the directory. -/
lemma TablesAt.view (h : TablesAt mem pd pt) {a : ℕ} (ha : a < 2 ^ 20)
    (hpd : a < pd ∨ pd + pageSize ≤ a) : (enter32 pd pt mem).view (kernelOffset + a) = mem a := by
  rw [Machine.view, h.translate ha (.inr rfl)]
  exact enter32_phys hpd

end Paging

/-! ### From the disk to the kernel -/

lemma holds_of_getElem {m : ByteMem} {a : ℕ} {l : List UInt8}
    (h : ∀ i (hi : i < l.length), m (a + i) = l[i]) : m.Holds a l := by
  refine List.ext_getElem (m.length_bytes a l.length) fun i hi hi' => ?_
  rw [← h i hi']
  simp [ByteMem.bytes]

section Boot

variable {image : ℕ → ByteMem} {vol : FatVolume} {s₁ : Loader} {bios : Int15}
  {pd pt ik ii : ℕ} {bk bi : List UInt8} {lk li : List ℕ} {map : List (List UInt8)}

/-- **The second stage starts the kernel.** Where it jumps to lies the kernel, the initrd and the
memory map of the firmware lie where the kernel looks for them, and behind `pmm_init` and `vmm_init`
the tables are those that the runs of the kernel start from. -/
theorem stage2_enters_kernel {mem : ByteMem}
    (hinit : fatInit (.ofImage image) ⟨mem, []⟩ = some (some vol, s₁))
    (hkernel : FileOnDisk image vol kernelFile kernelLoc ik bk lk)
    (hinitrd : FileOnDisk image vol initrdFile initrdLoc ii bi li)
    (hkfit : kernelLoc + (lk.flatMap (clusterBytes image vol)).length ≤ initrdLoc)
    (hifit : initrdLoc + (li.flatMap (clusterBytes image vol)).length ≤ 0x90000)
    (hmap : bios.Lists 0 map) (hmapfit : e820Loc + 2 + 24 * map.length ≤ 0x7C00)
    (htables : TablesAt mem pd pt) :
    ∃ fuel m, stage2 (.ofImage image) bios fuel pd pt mem = some m ∧
      (∀ bitmap entries kernelEnd, kernelStartVirt ≤ kernelEnd → kernelEnd + 0x20000 < 2 ^ 32 →
        BootTables (vmmInit { m with pmm := pmmInit bitmap entries kernelEnd })) ∧
      m.view.Holds kernelStartVirt (lk.flatMap (clusterBytes image vol)) ∧
      m.view.Holds (kernelOffset + initrdLoc) (li.flatMap (clusterBytes image vol)) ∧
      m.view.read16 (kernelOffset + e820Loc) = map.length ∧
      m.view.Holds (kernelOffset + e820Loc + 2) (map.flatMap padEntry) := by
  have hvol := fatInit_accepted hinit
  have hsame := fatInit_same hinit
  have hk : kernelLoc = 0x10000 := rfl
  have hi : initrdLoc = 0x50000 := rfl
  have he : e820Loc = 0x500 := rfl
  have hstart : startAddr = 0x7E00 := rfl
  have hentries : ∀ {ebx : ℕ} {l : List (List UInt8)}, bios.Lists ebx l →
      (l.flatMap padEntry).length = 24 * l.length := by
    intro ebx l hl
    induction hl with
    | last hgood _ => rw [List.flatMap_singleton, length_padEntry hgood, List.length_singleton]
    | more hgood _ _ ih =>
      rw [List.flatMap_cons, List.length_append, ih, length_padEntry hgood, List.length_cons]
      omega
  have hmaplen := hentries hmap
  obtain ⟨fk, t₁, hrunk, hmemk⟩ := readFile_spec hkernel hvol (by norm_num) (by omega) s₁
  obtain ⟨fi, t₂, hruni, hmemi⟩ := readFile_spec hinitrd hvol (by norm_num) hifit t₁
  obtain ⟨mem', hrunm, hcount, hmemm⟩ := e820Init_spec hmap hmapfit t₂.mem
  generalize lk.flatMap (clusterBytes image vol) = kernel at hkfit hmemk ⊢
  generalize li.flatMap (clusterBytes image vol) = initrd at hifit hmemi ⊢
  generalize map.flatMap padEntry = table at hmaplen hmemm ⊢
  -- what each part of the memory holds in the end
  have htemp : ∀ x, startAddr ≤ x → x ∉ tempBuffer := by
    rintro x hx ⟨-, hlt⟩
    simp only [tempSectorBuffer] at hlt
    omega
  have habove : ∀ x, startAddr ≤ x → mem' x = t₂.mem x := fun x hx => by
    rw [hmemm x (by omega), ByteMem.store_of_disjoint _ (by omega)]
  have hlow : ∀ x, startAddr ≤ x → x < kernelLoc → mem' x = mem x := fun x hx hx' => by
    rw [habove x hx, hmemi x (htemp x hx), ByteMem.store_of_disjoint _ (by omega),
      hmemk x (htemp x hx), ByteMem.store_of_disjoint _ (by omega), hsame x (htemp x hx)]
  have hkbytes : ∀ i (hlt : i < kernel.length), mem' (kernelLoc + i) = kernel[i] := fun i hlt => by
    rw [habove _ (by omega), hmemi _ (htemp _ (by omega)), ByteMem.store_of_disjoint _ (by omega),
      hmemk _ (htemp _ (by omega)), ByteMem.store_add]
  have hibytes : ∀ i (hlt : i < initrd.length), mem' (initrdLoc + i) = initrd[i] := fun i hlt => by
    rw [habove _ (by omega), hmemi _ (htemp _ (by omega)), ByteMem.store_add]
  have hebytes : ∀ i (hlt : i < table.length), mem' (e820Loc + 2 + i) = table[i] := fun i hlt => by
    rw [hmemm _ (by omega), ByteMem.store_add]
  have htables' := htables.congr hlow
  have hview : ∀ a, a < 2 ^ 20 → a < startAddr ∨ kernelLoc ≤ a →
      (enter32 pd pt mem').view (kernelOffset + a) = mem' a := fun a ha hout => by
    have hpd := htables.pd_low
    have hpd' := htables.pd_high
    exact htables'.view ha (by omega)
  refine ⟨max (max fk fi) map.length, enter32 pd pt mem', ?_, fun bitmap entries kernelEnd hend hfit =>
    htables'.bootTables (pmmInit_valid ..) fun f hf hfree => ?_,
    holds_of_getElem fun i hlt => ?_, holds_of_getElem fun i hlt => ?_, ?_,
    holds_of_getElem fun i hlt => ?_⟩
  · rw [stage2, hinit, Option.bind_eq_bind, Option.bind_some]
    dsimp only [Option.bind_eq_bind, Option.bind_some]
    rw [hrunk _ (by omega), Option.bind_some, hruni _ (by omega), Option.bind_some,
      hrunm _ (by omega)]
    rfl
  · rw [pmmInit_free_iff bitmap entries (le_trans (by norm_num) hend) hfit] at hfree
    exact absurd hfree.2.1 (by omega)
  · have hvirt : kernelStartVirt = kernelOffset + kernelLoc := rfl
    rw [← hkbytes i hlt, ← hview _ (by omega) (by omega), hvirt, Nat.add_assoc]
  · rw [← hibytes i hlt, ← hview _ (by omega) (by omega), Nat.add_assoc]
  · rw [← hcount, ByteMem.read16, ByteMem.read16, Nat.add_assoc, hview _ (by omega) (by omega),
      hview _ (by omega) (by omega)]
  · rw [← hebytes i hlt, ← hview _ (by omega) (by omega)]
    simp only [Nat.add_assoc]

end Boot

/-! ### A floppy disk with both files -/

def bootRootDir : List UInt8 :=
  kernelFile ++ List.replicate 15 0 ++ [2, 0, 5, 0, 0, 0] ++
    initrdFile ++ List.replicate 15 0 ++ [3, 0, 9, 0, 0, 0]

def bootImage : ℕ → ByteMem := fun lba =>
  if lba = 0 then floppySector
  else if lba = 1 then fun x => [0xF0, 0xFF, 0xFF, 0xFF, 0xFF, 0xFF].getD x 0
  else if lba = 19 then fun x => bootRootDir.getD x 0
  else fun _ => UInt8.ofNat lba

lemma fatInit_boot (mem : ByteMem) :
    ∃ s₁, fatInit (.ofImage bootImage) ⟨mem, []⟩ = some (some floppyVolume, s₁) := by
  have hsector : (Disk.ofImage bootImage).sector 0 = some floppySector := rfl
  have hread : FatBpb.read floppySector 0 = floppyBpb := rfl
  obtain ⟨t, ht⟩ := fatInit_eq hsector ⟨mem, []⟩
  rw [hread, fatInitBpb_floppy] at ht
  exact ⟨t, ht⟩

/-- The entries of the root directory. -/
lemma rootEntry_boot : rootEntry (.ofImage bootImage) floppyVolume 0 = some (bootRootDir.take 32) ∧
    rootEntry (.ofImage bootImage) floppyVolume 1 = some (bootRootDir.drop 32) := by
  decide +kernel

/-- A file of one cluster. -/
lemma isFile_boot {entry : FatEntry} (h : entry.clusterLo = 2 ∨ entry.clusterLo = 3) :
    IsFile bootImage floppyVolume entry [entry.clusterLo] := by
  refine ⟨rfl, fun c hc => ?_, List.nodup_singleton _, .singleton _, fun c hc => ?_⟩
  · obtain rfl := List.mem_singleton.1 hc
    rcases h with h | h <;> rw [h] <;> decide
  · obtain rfl : entry.clusterLo = c := Option.some.inj hc
    rcases h with h | h <;> rw [h] <;> decide +kernel

lemma kernel_on_disk : FileOnDisk bootImage floppyVolume kernelFile kernelLoc 0
    (bootRootDir.take 32) [2] := by
  have hentry := rootEntry_boot.1
  refine ⟨by decide, ⟨fun j hj => ?_, _, hentry, by decide, by decide⟩, fun j hj => ?_, hentry,
    isFile_boot (.inl (by decide)), by decide, by decide, by simp⟩
  · obtain rfl : j = 0 := Nat.le_zero.1 hj
    exact ⟨_, hentry, by decide⟩
  · exact absurd hj (Nat.not_lt_zero j)

lemma initrd_on_disk : FileOnDisk bootImage floppyVolume initrdFile initrdLoc 1
    (bootRootDir.drop 32) [3] := by
  obtain ⟨hkernel, hentry⟩ := rootEntry_boot
  refine ⟨by decide, ⟨fun j hj => ?_, _, hentry, by decide, by decide⟩, fun j hj hmatch => ?_,
    hentry, isFile_boot (.inr (by decide)), by decide, by decide, by simp⟩
  · rcases Nat.le_one_iff_eq_zero_or_eq_one.1 hj with rfl | rfl
    · exact ⟨_, hkernel, by decide⟩
    · exact ⟨_, hentry, by decide⟩
  · obtain rfl : j = 0 := Nat.lt_one_iff.1 hj
    obtain ⟨entry, hfirst, -, hname⟩ := hmatch.2
    obtain rfl : bootRootDir.take 32 = entry := Option.some.inj (hkernel.symm.trans hfirst)
    exact absurd hname (by decide)

lemma tablesAt_boot : TablesAt (ByteMem.writeWords (fun _ => 0) 0x9000 ptWords) 0x8000 0x9000 := by
  have hzero : ∀ x, 0x8000 ≤ x → x < 0x8000 + 4 * 1024 →
      ByteMem.writeWords (fun _ => 0) 0x9000 ptWords x = 0 := fun x _ hx =>
    ByteMem.writeWords_of_disjoint (.inl (by omega))
  refine ⟨by decide, by decide, by decide, by decide, by decide, by decide, by decide,
    ByteMem.words_zero hzero, ByteMem.words_writeWords fun v hv => ?_⟩
  rcases List.mem_append.1 hv with hv | hv
  · obtain ⟨i, hi, rfl⟩ := List.mem_map.1 hv
    exact Nat.or_lt_two_pow (by have := List.mem_range.1 hi; omega) (by norm_num)
  · rw [List.eq_of_mem_replicate hv]
    norm_num

theorem stage2_enters_kernel_floppy : ∃ fuel m,
    stage2 (.ofImage bootImage) (fun _ => ⟨false, smap, 0, List.replicate 20 7⟩) fuel 0x8000 0x9000
      (ByteMem.writeWords (fun _ => 0) 0x9000 ptWords) = some m ∧
    m.view kernelStartVirt = 33 ∧ m.view 0xC0050000 = 34 ∧ m.view.read16 0xC0000500 = 1 := by
  obtain ⟨s₁, hinit⟩ := fatInit_boot (ByteMem.writeWords (fun _ => 0) 0x9000 ptWords)
  have hmap : Int15.Lists (fun _ => ⟨false, smap, 0, List.replicate 20 7⟩) 0
      [List.replicate 20 7] := .last ⟨rfl, rfl, .inl rfl⟩ rfl
  have hlength : ∀ c, ([c].flatMap (clusterBytes bootImage floppyVolume)).length = 512 := fun c => by
    rw [length_clusterBytes, List.length_singleton]
    decide
  obtain ⟨fuel, m, hrun, -, hkernel, hinitrd, hcount, -⟩ := stage2_enters_kernel hinit
    kernel_on_disk initrd_on_disk (by rw [hlength]; decide) (by rw [hlength]; decide) hmap
    (by decide) tablesAt_boot
  have hbyte : ([2].flatMap (clusterBytes bootImage floppyVolume))[0]? = some 33 := by
    decide +kernel
  have hbyte' : ([3].flatMap (clusterBytes bootImage floppyVolume))[0]? = some 34 := by
    decide +kernel
  obtain ⟨hlt, hbyte⟩ := List.getElem?_eq_some_iff.1 hbyte
  obtain ⟨hlt', hbyte'⟩ := List.getElem?_eq_some_iff.1 hbyte'
  exact ⟨fuel, m, hrun, (hkernel.getElem hlt).trans hbyte, (hinitrd.getElem hlt').trans hbyte',
    hcount⟩

end Gummy
