import Gummy.Lib.ByteMem
import Gummy.Lib.CWord

/-!
The FAT reader of the second-stage loader: `fat.asm`, over the disk routine of `disk.asm`.

A register is a word, and the code that writes only its low half says so with `setLow`.
The loader's code, variables and stack are kept apart from the memory that it reads
sectors into.  `none` stands for `jmp halt`: `disk_read_sector` returns with the carry flag
clear or does not return, so the `jc .error` behind each call of it is never taken.
-/

namespace Gummy

open CWord

/-! ### The disk -/

/-- What `INT 13h` delivers on a try to read a sector, if the try succeeds. -/
abbrev Disk := ℕ → ℕ → Option ByteMem

/-- A call of `disk_read_sector`: `EAX`, and the address that `ES:BX` points to. -/
structure DiskCall where
  lba : ℕ
  address : ℕ
  deriving DecidableEq

/-- The memory, and the calls of `disk_read_sector` so far, latest first. -/
structure Loader where
  mem : ByteMem
  calls : List DiskCall

def tempSectorBuffer : ℕ := 0x500

/-- The address of a real-mode pointer. -/
def linear (seg off : ℕ) : ℕ := 16 * seg + off

/-- The sector that one of the three tries of `disk_read_sector` delivers. -/
def Disk.sector (disk : Disk) (lba : ℕ) : Option ByteMem :=
  disk 0 lba <|> disk 1 lba <|> disk 2 lba

/-- `disk_read_sector` -/
def diskReadSector (disk : Disk) (s : Loader) (eax es bx : ℕ) : Option Loader :=
  (disk.sector eax).map fun data =>
    { mem := s.mem.store (linear es bx) (data.bytes 0 512)
      calls := ⟨eax, linear es bx⟩ :: s.calls }

/-! ### The volume -/

/-- The fields of `fat_bpb` that the loader uses. -/
structure FatBpb where
  bytesPerSector : ℕ
  sectorsPerCluster : ℕ
  reservedSectors : ℕ
  numFatTables : ℕ
  rootDirEntries : ℕ
  totalSectors16 : ℕ
  sectorsPerFat : ℕ
  totalSectors32 : ℕ
  sectorsPerCluster_lt : sectorsPerCluster < 2 ^ 8
  reservedSectors_lt : reservedSectors < 2 ^ 16
  numFatTables_lt : numFatTables < 2 ^ 8
  rootDirEntries_lt : rootDirEntries < 2 ^ 16
  totalSectors16_lt : totalSectors16 < 2 ^ 16
  sectorsPerFat_lt : sectorsPerFat < 2 ^ 16
  totalSectors32_lt : totalSectors32 < 2 ^ 32

/-- The parameter block that lies at `a`. -/
def FatBpb.read (m : ByteMem) (a : ℕ) : FatBpb where
  bytesPerSector := m.read16 (a + 11)
  sectorsPerCluster := (m (a + 13)).toNat
  reservedSectors := m.read16 (a + 14)
  numFatTables := (m (a + 16)).toNat
  rootDirEntries := m.read16 (a + 17)
  totalSectors16 := m.read16 (a + 19)
  sectorsPerFat := m.read16 (a + 22)
  totalSectors32 := m.read32 (a + 32)
  sectorsPerCluster_lt := UInt8.toNat_lt _
  reservedSectors_lt := ByteMem.read16_lt _ _
  numFatTables_lt := UInt8.toNat_lt _
  rootDirEntries_lt := ByteMem.read16_lt _ _
  totalSectors16_lt := ByteMem.read16_lt _ _
  sectorsPerFat_lt := ByteMem.read16_lt _ _
  totalSectors32_lt := ByteMem.read32_lt _ _

/-- The variables of `fat.asm`. -/
structure FatVolume where
  bpb : FatBpb
  fatType : ℕ
  totalSectors : ℕ
  rootDirSectors : ℕ
  dataSectors : ℕ
  firstDataSector : ℕ
  firstFatSector : ℕ
  firstRootDirSector : ℕ

/-- The 32-bit field counts the sectors where the 16-bit one is zero. -/
def FatBpb.totalSectors (bpb : FatBpb) : ℕ :=
  if bpb.totalSectors16 ≠ 0 then bpb.totalSectors16 else bpb.totalSectors32

/-- `fat_init` once `fat_bpb_data` is filled; `none` when it returns with the carry flag set. -/
def fatInitBpb (bpb : FatBpb) : Option FatVolume :=
  if bpb.sectorsPerFat = 0 then none
  else if bpb.bytesPerSector ≠ 512 then none
  else if bpb.totalSectors = 0 then none
  else
    let rootDirSectors := u32 (u32 (bpb.rootDirEntries * 32) + 511) / 512
    let firstDataSector := u32 (u32 (rootDirSectors + bpb.reservedSectors) +
      u32 (bpb.numFatTables * bpb.sectorsPerFat))
    let overhead := u32 (u32 (u32 (bpb.numFatTables * bpb.sectorsPerFat) +
      bpb.reservedSectors) + rootDirSectors % 2 ^ 16)
    let dataSectors := sub32 bpb.totalSectors overhead
    if bpb.sectorsPerCluster = 0 then none
    else
      let totalClusters := dataSectors / bpb.sectorsPerCluster
      if 4085 ≤ totalClusters ∧ 65525 ≤ totalClusters then none
      else some
        { bpb, rootDirSectors, dataSectors, firstDataSector
          totalSectors := bpb.totalSectors
          fatType := if totalClusters < 4085 then 12 else 16
          firstFatSector := bpb.reservedSectors
          firstRootDirSector := sub32 firstDataSector rootDirSectors }

/-- `fat_init` -/
def fatInit (disk : Disk) (s : Loader) : Option (Option FatVolume × Loader) := do
  let s ← diskReadSector disk s 0 (tempSectorBuffer / 16) (tempSectorBuffer % 16)
  some (fatInitBpb (.read s.mem tempSectorBuffer), s)

/-! ### The table -/

/-- Write `ax` and keep the upper half of `eax`. -/
def setLow (eax ax : ℕ) : ℕ := eax / 2 ^ 16 * 2 ^ 16 + ax

/-- `fat12_next_cluster`: `EAX` on return. -/
def fat12NextCluster (disk : Disk) (vol : FatVolume) (s : Loader) (eax : ℕ) :
    Option (ℕ × Loader) := do
  let ebx := eax % 2 ^ 16
  let di := eax % 2 ^ 16
  let fatOffset := u32 (eax / 2 + ebx)
  let edx := fatOffset % 512
  let eax := u32 (fatOffset / 512 + vol.firstFatSector)
  let es := tempSectorBuffer / 16
  let bx := tempSectorBuffer % 16
  let s ← diskReadSector disk s eax es bx
  -- the entry may lie across the end of the sector
  let eax := u32 (eax + 1)
  let s ← diskReadSector disk s eax es (bx + 512)
  let ax := s.mem.read16 (linear es (bx + edx))
  some (setLow eax (if di % 2 = 0 then ax &&& 0xFFF else ax / 2 ^ 4), s)

/-- `fat16_next_cluster`: `EAX` on return. -/
def fat16NextCluster (disk : Disk) (vol : FatVolume) (s : Loader) (eax : ℕ) :
    Option (ℕ × Loader) := do
  let fatOffset := u32 (eax % 2 ^ 16 * 2)
  let edx := fatOffset % 512
  let eax := u32 (fatOffset / 512 + vol.firstFatSector)
  let es := tempSectorBuffer / 16
  let bx := tempSectorBuffer % 16
  let s ← diskReadSector disk s eax es bx
  some (setLow eax (s.mem.read16 (linear es (bx + edx))), s)

/-- `fat_next_cluster`: `EAX`, and whether the carry flag is set. -/
def fatNextCluster (disk : Disk) (vol : FatVolume) (s : Loader) (eax : ℕ) :
    Option (ℕ × Bool × Loader) :=
  if vol.fatType = 12 then
    (fat12NextCluster disk vol s eax).map fun (eax, s) => (eax, false, s)
  else if vol.fatType = 16 then
    (fat16NextCluster disk vol s eax).map fun (eax, s) => (eax, false, s)
  else some (eax, true, s)

/-- `fat_cluster_to_lba` -/
def fatClusterToLba (vol : FatVolume) (eax : ℕ) : ℕ :=
  u32 (u32 (sub32 eax 2 * vol.bpb.sectorsPerCluster) + vol.firstDataSector)

/-- `fat_cluster_is_eof`: for FAT16 the whole of `EAX` is compared. -/
def fatClusterIsEof (vol : FatVolume) (eax : ℕ) : Bool :=
  if vol.fatType = 12 then 0x0FF8 ≤ eax % 2 ^ 16
  else if vol.fatType = 16 then 0xFFF8 ≤ eax
  else true

/-! ### The root directory -/

/-- The fields of `fat_entry` that the loader uses. -/
structure FatEntry where
  clusterLo : ℕ
  fileSize : ℕ
  clusterLo_lt : clusterLo < 2 ^ 16
  fileSize_lt : fileSize < 2 ^ 32

/-- The entry that lies at `a`. -/
def FatEntry.read (m : ByteMem) (a : ℕ) : FatEntry where
  clusterLo := m.read16 (a + 26)
  fileSize := m.read32 (a + 28)
  clusterLo_lt := ByteMem.read16_lt _ _
  fileSize_lt := ByteMem.read32_lt _ _

/-- The number of passes of a loop that decrements a `w`-bit counter and goes on while it
is not zero. -/
def passes (w n : ℕ) : ℕ := if n = 0 then 2 ^ w else n

/-- `fat_read_root_dir`: the bytes copied to `ES:DI`. -/
def fatReadRootDir (disk : Disk) (vol : FatVolume) (s : Loader) (eax : ℕ) :
    Option (List UInt8 × Loader) := do
  let bytePos := u32 (eax * 32)
  let si := bytePos % 512
  let eax := u32 (bytePos / 512 + vol.firstRootDirSector)
  let s ← diskReadSector disk s eax (tempSectorBuffer / 16) (tempSectorBuffer % 16)
  some (s.mem.bytes (linear (tempSectorBuffer / 16) (si + tempSectorBuffer % 16)) 32, s)

/-- `fat_find_in_root_dir` from the label `.end` on, which begins with `clc`. -/
def findEnd (eax : ℕ) (s : Loader) : ℕ × Bool × Loader := (eax, false, s)

/-- `fat_find_in_root_dir` from the label `.error` on: `stc`, and then `.end`. -/
def findError (eax : ℕ) (s : Loader) : ℕ × Bool × Loader := findEnd eax s

/-- `.find_loop` with `n` passes left: `EAX`, and whether the carry flag is set. -/
def findLoop (disk : Disk) (vol : FatVolume) (name : List UInt8) :
    ℕ → ℕ → Loader → Option (ℕ × Bool × Loader)
  | 0, eax, s => some (findError eax s)
  | n + 1, eax, s => do
    let (entry, s) ← fatReadRootDir disk vol s eax
    if entry.head? = some 0 then some (findError eax s)
    else if entry.head? ≠ some 0xE5 ∧ entry.take 11 = name then some (findEnd eax s)
    else findLoop disk vol name n (u32 (eax + 1)) s

/-- `fat_find_in_root_dir` -/
def fatFindInRootDir (disk : Disk) (vol : FatVolume) (name : List UInt8) (s : Loader) :
    Option (ℕ × Bool × Loader) :=
  findLoop disk vol name (passes 32 vol.bpb.rootDirEntries) 0 s

/-! ### Reading a file -/

/-- The registers of `fat_read_file` that point to the next sector. -/
structure FileCursor extends Loader where
  eax : ℕ
  es : ℕ
  bx : ℕ

/-- `.read` up to `.no_inc_seg`: the offset is kept below `0x8000`. -/
def FileCursor.incSeg (s : FileCursor) : FileCursor :=
  if 0x8000 ≤ s.bx then { s with bx := s.bx - 0x8000, es := (s.es + 0x800) % 2 ^ 16 } else s

/-- `.read`, with `n` passes left. -/
def readSectors (disk : Disk) : ℕ → FileCursor → Option FileCursor
  | 0, s => some s
  | n + 1, s => do
    let s := s.incSeg
    let t ← diskReadSector disk s.toLoader s.eax s.es s.bx
    readSectors disk n
      { toLoader := t, eax := u32 (s.eax + 1), es := s.es, bx := (s.bx + 512) % 2 ^ 16 }

/-- `.loop`, for at most as many clusters as the first argument says; `none` also when it
has not returned by then. -/
def fatReadLoop (disk : Disk) (vol : FatVolume) : ℕ → FileCursor → Option (Bool × Loader)
  | 0, _ => none
  | fuel + 1, s =>
    if fatClusterIsEof vol s.eax then some (false, s.toLoader)
    else do
      let edi := s.eax % 2 ^ 16
      let s ← readSectors disk (passes 16 vol.bpb.sectorsPerCluster)
        { s with eax := fatClusterToLba vol edi }
      let (eax, cf, t) ← fatNextCluster disk vol s.toLoader edi
      if cf then some (true, t)
      else fatReadLoop disk vol fuel { s with toLoader := t, eax }

/-- `fat_read_file`, with the destination in `ES:BX`: whether the carry flag is set. -/
def fatReadFile (disk : Disk) (vol : FatVolume) (fuel : ℕ) (entry : FatEntry) (es bx : ℕ)
    (s : Loader) : Option (Bool × Loader) :=
  if entry.fileSize = 0 then some (true, s)
  else if 0x90000 ≤ u32 (linear es bx + entry.fileSize) then some (true, s)
  else if entry.clusterLo < 2 then some (true, s)
  else fatReadLoop disk vol fuel { toLoader := s, eax := entry.clusterLo, es, bx }

end Gummy
