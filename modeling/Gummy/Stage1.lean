import Gummy.Fat.Reading

/-!
The boot sector: `main.asm` and `disk.asm` of the first stage.

The boot sector asks `INT 13h` for cylinders, heads and sectors, so every sector number goes through
`read_sector`, which takes it apart and packs the parts into `CX` and `DX`.
-/

namespace Gummy

open CWord

/-! ### `INT 13h` -/

/-- What `INT 13h` answers; `none` for the carry flag. -/
structure Int13 where
  /-- `AH = 8`: `CX` and `DX` -/
  parameters : Option (ℕ × ℕ)
  /-- `AH = 2`, for one sector: what is read, for `CX` and `DX` -/
  read : ℕ → ℕ → Option ByteMem

/-- `read_sector`: `CX` and `DX` at the call of `INT 13h`, for the sector in `DX:AX`; `none` when a
division faults. -/
def lbaToChs (drive sectorsPerTrack heads lba : ℕ) : Option (ℕ × ℕ) :=
  if sectorsPerTrack = 0 ∨ 2 ^ 16 ≤ lba / sectorsPerTrack then none
  else
    let dl := (lba % sectorsPerTrack + 1) % 2 ^ 8
    if heads = 0 then none
    else
      let ax := lba / sectorsPerTrack / heads
      let dx := lba / sectorsPerTrack % heads
      let ch := ax % 2 ^ 8
      -- `shl ah, 6`
      let cl := ax / 2 ^ 8 * 2 ^ 6 % 2 ^ 8
      some (ch * 2 ^ 8 + (cl ||| dl), dx * 2 ^ 8 % 2 ^ 16 + drive)

/-- The disk as `read_sector` reads it, with one try for each sector. -/
def Int13.disk (bios : Int13) (drive sectorsPerTrack heads : ℕ) : Disk := fun n lba =>
  if n = 0 then
    (lbaToChs drive sectorsPerTrack heads lba).bind fun (cx, dx) => bios.read cx dx
  else none

/-! ### `main.asm` -/

/-- `start_addr` -/
def startAddr : ℕ := 0x7E00

/-- `start_sector` -/
def startSector : ℕ := 1

/-- `sector_count` -/
def sectorCount : ℕ := 62

/-- `main`, up to the jump to `start_addr`; `none` for `jmp halt` or a fault.  The loop is that of
`.read` in `fat.asm`, with the sector in `DX:AX` and the other `read_sector`. -/
def stage1 (bios : Int13) (dl : ℕ) (mem : ByteMem) : Option Loader := do
  let (cx, dx) ← bios.parameters
  let sectorsPerTrack := cx % 2 ^ 8 &&& 0x3F
  let heads := (dx / 2 ^ 8 + 1) % 2 ^ 8
  let s ← readSectors (bios.disk dl sectorsPerTrack heads) sectorCount
    { mem, calls := [], eax := startSector, es := startAddr / 2 ^ 4, bx := startAddr % 2 ^ 4 }
  some s.toLoader

/-! ### Cylinders, heads and sectors -/

/-- `INT 13h` for a drive with the sectors `image`, in the order that cylinders, heads and sectors
are counted in. -/
structure Int13.Serves (bios : Int13) (drive sectorsPerTrack heads : ℕ) (image : ℕ → ByteMem)
    (total : ℕ) : Prop where
  sectors_pos : 0 < sectorsPerTrack
  sectors_lt : sectorsPerTrack < 2 ^ 6
  heads_pos : 0 < heads
  total_le : total ≤ 1024 * heads * sectorsPerTrack
  parameters : ∃ cx dx, bios.parameters = some (cx, dx) ∧ cx % 2 ^ 6 = sectorsPerTrack ∧
    dx / 2 ^ 8 + 1 = heads
  read : ∀ c h s, c < 1024 → h < heads → 1 ≤ s → s ≤ sectorsPerTrack →
    (c * heads + h) * sectorsPerTrack + (s - 1) < total →
    bios.read (c % 2 ^ 8 * 2 ^ 8 + (c / 2 ^ 8 * 2 ^ 6 + s)) (h * 2 ^ 8 + drive) =
      some (image ((c * heads + h) * sectorsPerTrack + (s - 1)))

/-- The two high bits of the cylinder and the sector share a byte. -/
lemma cylinder_or_sector {c s : ℕ} (hc : c < 4) (hs : s < 2 ^ 6) :
    c * 2 ^ 6 % 2 ^ 8 ||| s = c * 2 ^ 6 + s := by
  rw [Nat.mod_eq_of_lt (by omega), Nat.mul_comm, ← Nat.two_pow_add_eq_or_of_lt hs]

section

variable {bios : Int13} {drive sectorsPerTrack heads total : ℕ} {image : ℕ → ByteMem}

/-- `read_sector` asks for the sector it is called for. -/
theorem Int13.Serves.sector (h : bios.Serves drive sectorsPerTrack heads image total)
    (hheads : heads < 2 ^ 8) {lba : ℕ} (hlba : lba < total) (hword : lba < 2 ^ 16) :
    (bios.disk drive sectorsPerTrack heads).sector lba = some (image lba) := by
  have hspt := h.sectors_pos
  have hpos := h.heads_pos
  obtain ⟨c, hc⟩ : ∃ c, c = lba / sectorsPerTrack / heads := ⟨_, rfl⟩
  obtain ⟨hd, hhd⟩ : ∃ hd, hd = lba / sectorsPerTrack % heads := ⟨_, rfl⟩
  obtain ⟨r, hr⟩ : ∃ r, r = lba % sectorsPerTrack := ⟨_, rfl⟩
  have hrlt : r < sectorsPerTrack := hr ▸ Nat.mod_lt _ hspt
  have hhdlt : hd < heads := hhd ▸ Nat.mod_lt _ hpos
  have htrack : c * heads + hd = lba / sectorsPerTrack := by
    rw [hc, hhd]
    exact Nat.div_add_mod' ..
  have hwhole : (c * heads + hd) * sectorsPerTrack + r = lba := by
    rw [htrack, hr]
    exact Nat.div_add_mod' ..
  have hclt : c < 1024 := by
    rw [hc, Nat.div_div_eq_div_mul, Nat.div_lt_iff_lt_mul (Nat.mul_pos hspt hpos)]
    calc lba < total := hlba
      _ ≤ 1024 * heads * sectorsPerTrack := h.total_le
      _ = 1024 * (sectorsPerTrack * heads) := by ring
  have hquot : lba / sectorsPerTrack < 2 ^ 16 := (Nat.div_le_self ..).trans_lt hword
  have hchs : lbaToChs drive sectorsPerTrack heads lba =
      some (c % 2 ^ 8 * 2 ^ 8 + (c / 2 ^ 8 * 2 ^ 6 + (r + 1)), hd * 2 ^ 8 + drive) := by
    have hsector : (r + 1) % 2 ^ 8 = r + 1 := Nat.mod_eq_of_lt (by have := h.sectors_lt; omega)
    have hhead : hd * 2 ^ 8 % 2 ^ 16 = hd * 2 ^ 8 := Nat.mod_eq_of_lt (by omega)
    rw [lbaToChs, if_neg (by omega), if_neg hpos.ne', ← hr, ← hc, ← hhd, hsector]
    dsimp only
    rw [hhead, cylinder_or_sector (by omega) (by have := h.sectors_lt; omega)]
  have hread := h.read c hd (r + 1) hclt hhdlt (by omega) hrlt (by
    rw [Nat.add_sub_cancel, hwhole]
    exact hlba)
  rw [Nat.add_sub_cancel, hwhole] at hread
  have hfirst : bios.disk drive sectorsPerTrack heads 0 lba = some (image lba) := by
    rw [Int13.disk, if_pos rfl, hchs, Option.bind_some]
    exact hread
  rw [Disk.sector, hfirst]
  rfl

/-- A row of sectors that the disk delivers. -/
lemma sectorsAt_image {disk : Disk} {n lba : ℕ} (hlt : lba + n < 2 ^ 32)
    (h : ∀ i < n, disk.sector (lba + i) = some (image (lba + i))) :
    sectorsAt disk n lba = some ((List.range n).flatMap fun i => (image (lba + i)).bytes 0 512) := by
  induction n generalizing lba with
  | zero => rfl
  | succ n ih =>
    have hfirst : disk.sector lba = some (image lba) := h 0 (Nat.succ_pos n)
    have htail : ∀ i < n, disk.sector (lba + 1 + i) = some (image (lba + 1 + i)) := fun i hi => by
      rw [Nat.add_assoc, Nat.add_comm 1]
      exact h (i + 1) (by omega)
    have hrest := ih (by omega) htail
    rw [sectorsAt, hfirst, u32_of_lt (by omega), hrest, List.range_succ_eq_map, List.flatMap_cons,
      List.flatMap_map]
    simp only [Nat.succ_eq_add_one, Nat.add_assoc, Nat.add_comm 1]
    rfl

/-- The loop stores the sectors one after the other. -/
lemma readSectors_store {disk : Disk} {n a : ℕ} {s : FileCursor} {data : List UInt8} (h : s.At a)
    (ha : a + 512 * n ≤ 0x90000) (hdata : sectorsAt disk n s.eax = some data) :
    ∃ t, readSectors disk n s = some t ∧ t.mem = s.mem.store a data := by
  induction n generalizing a s data with
  | zero =>
    obtain rfl := Option.some.inj hdata
    exact ⟨s, rfl, (ByteMem.store_nil ..).symm⟩
  | succ n ih =>
    obtain ⟨hseg, hbx, heax, hloader⟩ := h.incSeg (by omega)
    rw [sectorsAt] at hdata
    obtain ⟨d, hd, hdata⟩ := Option.bind_eq_some_iff.1 hdata
    obtain ⟨rest, hrest, hdata⟩ := Option.bind_eq_some_iff.1 hdata
    obtain rfl := Option.some.inj hdata
    have hnext := hseg.next hbx
      { mem := s.mem.store a (d.bytes 0 512), calls := ⟨s.eax, a⟩ :: s.calls } (u32 (s.eax + 1))
    obtain ⟨t, ht, hmem⟩ := ih hnext (by omega) hrest
    refine ⟨t, ?_, ?_⟩
    · rw [readSectors, heax, hloader, diskReadSector_of_sector hd, hseg.address]
      exact ht
    · rw [hmem, ByteMem.store_append, ByteMem.length_bytes]

/-- **The boot sector loads the second stage**: the sectors 1 to 62 lie behind it, and nothing else
has changed. -/
theorem stage1_loads (h : bios.Serves drive sectorsPerTrack heads image total)
    (hheads : heads < 2 ^ 8) (htotal : startSector + sectorCount ≤ total) (mem : ByteMem) :
    ∃ t, stage1 bios drive mem = some t ∧ t.mem = mem.store startAddr
      ((List.range sectorCount).flatMap fun i => (image (startSector + i)).bytes 0 512) := by
  have hstart : startSector = 1 := rfl
  have hcount : sectorCount = 62 := rfl
  obtain ⟨cx, dx, hparameters, hcx, hdx⟩ := h.parameters
  have hspt : cx % 2 ^ 8 &&& 0x3F = sectorsPerTrack := by
    rw [show 0x3F = 2 ^ 6 - 1 by norm_num, Nat.and_two_pow_sub_one_eq_mod, ← hcx]
    omega
  have hmod : (dx / 2 ^ 8 + 1) % 2 ^ 8 = heads := by
    rw [hdx]
    exact Nat.mod_eq_of_lt hheads
  have hsector : ∀ i < sectorCount, (bios.disk drive sectorsPerTrack heads).sector
      (startSector + i) = some (image (startSector + i)) := fun i hi =>
    h.sector hheads (by omega) (by omega)
  have hdata := sectorsAt_image (by omega) hsector
  obtain ⟨s, hs⟩ : ∃ s : FileCursor, s =
      { mem, calls := [], eax := startSector, es := startAddr / 2 ^ 4, bx := startAddr % 2 ^ 4 } :=
    ⟨_, rfl⟩
  have hcursor : s.At startAddr := by
    rw [hs]
    exact ⟨rfl, (by decide : startAddr % 2 ^ 4 < 2 ^ 16)⟩
  have heax : s.eax = startSector := by rw [hs]
  rw [← heax] at hdata
  obtain ⟨t, ht, hmem⟩ := readSectors_store hcursor (by decide) hdata
  rw [heax, show s.mem = mem by rw [hs]] at hmem
  refine ⟨t.toLoader, ?_, hmem⟩
  rw [stage1, hparameters]
  dsimp only [Option.bind_eq_bind, Option.bind_some]
  rw [hspt, hmod, ← hs, ht]
  rfl

end

/-! ### A floppy disk -/

/-- The firmware takes `CX` and `DX` apart again. -/
def floppyBios (image : ℕ → ByteMem) : Int13 where
  parameters := some (0x4F12, 0x0101)
  read cx dx :=
    let c := cx / 2 ^ 6 % 2 ^ 2 * 2 ^ 8 + cx / 2 ^ 8
    some (image ((c * 2 + dx / 2 ^ 8) * 18 + (cx % 2 ^ 6 - 1)))

lemma floppyBios_serves (image : ℕ → ByteMem) : (floppyBios image).Serves 0 18 2 image 2880 := by
  refine ⟨by norm_num, by norm_num, by norm_num, by norm_num, ⟨0x4F12, 0x0101, rfl, by norm_num,
    by norm_num⟩, fun c h s hc hh hs hs' _ => ?_⟩
  obtain ⟨cx, hcx⟩ : ∃ cx, cx = c % 2 ^ 8 * 2 ^ 8 + (c / 2 ^ 8 * 2 ^ 6 + s) := ⟨_, rfl⟩
  have hlow : cx / 2 ^ 8 = c % 2 ^ 8 := by omega
  have hsplit : cx / 2 ^ 6 = c % 2 ^ 8 * 2 ^ 2 + c / 2 ^ 8 := by omega
  have hhigh : cx / 2 ^ 6 % 2 ^ 2 = c / 2 ^ 8 := by omega
  have hcylinder : cx / 2 ^ 6 % 2 ^ 2 * 2 ^ 8 + cx / 2 ^ 8 = c := by
    rw [hlow, hhigh]
    omega
  have hsector : cx % 2 ^ 6 = s := by omega
  have hhead : (h * 2 ^ 8 + 0) / 2 ^ 8 = h := by omega
  rw [← hcx, floppyBios]
  dsimp only
  rw [hcylinder, hsector, hhead]

theorem stage1_loads_floppy : ∃ t, stage1 (floppyBios fun lba _ => UInt8.ofNat lba) 0
    (fun _ => 0) = some t ∧ t.mem 0x7E00 = 1 ∧ t.mem 0xF9FF = 62 := by
  obtain ⟨t, ht, hmem⟩ := stage1_loads (floppyBios_serves fun lba _ => UInt8.ofNat lba)
    (by norm_num) (by decide) fun _ => 0
  refine ⟨t, ht, ?_, ?_⟩
  · rw [hmem]
    decide +kernel
  · rw [hmem]
    decide +kernel

end Gummy
