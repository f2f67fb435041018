import Gummy.Fat

/-!
What the variables of `fat.asm` hold once `fat_init` has accepted a volume.

The sums of the parameter block's fields stay far below `2 ^ 32`, except for the
subtraction that gives the number of data sectors.
-/

namespace Gummy

open CWord

/-- The sectors in front of the data area, as an exact number. -/
def FatBpb.overhead (bpb : FatBpb) : ℕ :=
  bpb.reservedSectors + bpb.numFatTables * bpb.sectorsPerFat + (bpb.rootDirEntries * 32 + 511) / 512

/-- The number of clusters of a volume. -/
def FatVolume.totalClusters (vol : FatVolume) : ℕ := vol.dataSectors / vol.bpb.sectorsPerCluster

lemma FatBpb.fatArea_lt (bpb : FatBpb) : bpb.numFatTables * bpb.sectorsPerFat < 2 ^ 24 := by
  calc bpb.numFatTables * bpb.sectorsPerFat
      < 2 ^ 8 * 2 ^ 16 := Nat.mul_lt_mul'' bpb.numFatTables_lt bpb.sectorsPerFat_lt
    _ = 2 ^ 24 := by norm_num

lemma FatBpb.overhead_lt (bpb : FatBpb) : bpb.overhead < 2 ^ 25 := by
  have harea := bpb.fatArea_lt
  have hreserved := bpb.reservedSectors_lt
  have hroot := bpb.rootDirEntries_lt
  unfold overhead
  omega

/-- A volume that `fat_init` accepts, and the sectors where its areas begin. -/
structure FatVolume.Accepted (vol : FatVolume) : Prop where
  spc_pos : 0 < vol.bpb.sectorsPerCluster
  dataSectors : vol.dataSectors = sub32 vol.bpb.totalSectors vol.bpb.overhead
  firstFatSector : vol.firstFatSector = vol.bpb.reservedSectors
  firstDataSector : vol.firstDataSector = vol.bpb.overhead
  fatType : vol.fatType = 12 ∧ vol.totalClusters < 4085 ∨
    vol.fatType = 16 ∧ 4085 ≤ vol.totalClusters ∧ vol.totalClusters < 65525

/-! ### The arithmetic -/

/-- The clusters in the data area, where there is one. -/
def FatBpb.clusterCount (bpb : FatBpb) : ℕ :=
  (bpb.totalSectors - bpb.overhead) / bpb.sectorsPerCluster

/-- The volumes that the loader can read. -/
structure FatBpb.Readable (bpb : FatBpb) : Prop where
  sectorsPerFat : bpb.sectorsPerFat ≠ 0
  bytesPerSector : bpb.bytesPerSector = 512
  totalSectors : bpb.totalSectors ≠ 0
  sectorsPerCluster : bpb.sectorsPerCluster ≠ 0
  overhead_le : bpb.overhead ≤ bpb.totalSectors
  clusterCount_lt : bpb.clusterCount < 65525

/-- The areas of a volume are adjacent: the tables, the root directory, the data. -/
structure FatVolume.LaidOut (vol : FatVolume) (bpb : FatBpb) : Prop where
  fatType : vol.fatType = if bpb.clusterCount < 4085 then 12 else 16
  firstFatSector : vol.firstFatSector = bpb.reservedSectors
  firstRootDirSector :
    vol.firstRootDirSector = vol.firstFatSector + bpb.numFatTables * bpb.sectorsPerFat
  firstDataSector :
    vol.firstDataSector = vol.firstRootDirSector + (bpb.rootDirEntries * 32 + 511) / 512

lemma FatBpb.totalSectors_lt (bpb : FatBpb) : bpb.totalSectors < 2 ^ 32 := by
  have h16 := bpb.totalSectors16_lt
  have h32 := bpb.totalSectors32_lt
  unfold totalSectors
  split_ifs <;> omega

/-- Where the sectors in front of the data area do not fit, the subtraction wraps, and the
quotient is too large for either kind of table. -/
lemma FatBpb.wrapped_le (bpb : FatBpb) (h : bpb.totalSectors < bpb.overhead)
    (hspc : bpb.sectorsPerCluster ≠ 0) :
    65525 ≤ sub32 bpb.totalSectors bpb.overhead / bpb.sectorsPerCluster := by
  have hoverhead := bpb.overhead_lt
  have hwrap : 2 ^ 32 - 2 ^ 25 ≤ sub32 bpb.totalSectors bpb.overhead := by
    unfold sub32 u32
    omega
  have hlt := bpb.sectorsPerCluster_lt
  rw [Nat.le_div_iff_mul_le (Nat.pos_of_ne_zero hspc)]
  calc 65525 * bpb.sectorsPerCluster
      ≤ 65525 * 2 ^ 8 := Nat.mul_le_mul_left _ hlt.le
    _ ≤ 2 ^ 32 - 2 ^ 25 := by norm_num
    _ ≤ sub32 bpb.totalSectors bpb.overhead := hwrap

lemma FatBpb.sub32_overhead (bpb : FatBpb) (h : bpb.overhead ≤ bpb.totalSectors) :
    sub32 bpb.totalSectors bpb.overhead = bpb.totalSectors - bpb.overhead := by
  have hlt := bpb.totalSectors_lt
  unfold sub32 u32
  omega

/-- What the arithmetic of `fat_init` comes to. -/
lemma fatInitBpb_eq (bpb : FatBpb) : fatInitBpb bpb =
    if bpb.sectorsPerFat = 0 ∨ bpb.bytesPerSector ≠ 512 ∨ bpb.totalSectors = 0 ∨
        bpb.sectorsPerCluster = 0 ∨
        65525 ≤ sub32 bpb.totalSectors bpb.overhead / bpb.sectorsPerCluster then none
    else some
      { bpb
        fatType :=
          if sub32 bpb.totalSectors bpb.overhead / bpb.sectorsPerCluster < 4085 then 12 else 16
        totalSectors := bpb.totalSectors
        rootDirSectors := (bpb.rootDirEntries * 32 + 511) / 512
        dataSectors := sub32 bpb.totalSectors bpb.overhead
        firstDataSector := bpb.overhead
        firstFatSector := bpb.reservedSectors
        firstRootDirSector := bpb.reservedSectors + bpb.numFatTables * bpb.sectorsPerFat } := by
  have harea := bpb.fatArea_lt
  have hreserved := bpb.reservedSectors_lt
  have hroot := bpb.rootDirEntries_lt
  have hrootSectors : u32 (u32 (bpb.rootDirEntries * 32) + 511) / 512 =
      (bpb.rootDirEntries * 32 + 511) / 512 := by
    unfold u32
    omega
  -- the root directory's sectors are read back as a 16-bit word
  have hoverhead : u32 (u32 (u32 (bpb.numFatTables * bpb.sectorsPerFat) + bpb.reservedSectors) +
      (bpb.rootDirEntries * 32 + 511) / 512 % 2 ^ 16) = bpb.overhead := by
    unfold u32 FatBpb.overhead
    omega
  have hdata : u32 (u32 ((bpb.rootDirEntries * 32 + 511) / 512 + bpb.reservedSectors) +
      u32 (bpb.numFatTables * bpb.sectorsPerFat)) = bpb.overhead := by
    unfold u32 FatBpb.overhead
    omega
  have hfirst : sub32 bpb.overhead ((bpb.rootDirEntries * 32 + 511) / 512) =
      bpb.reservedSectors + bpb.numFatTables * bpb.sectorsPerFat := by
    unfold sub32 u32 FatBpb.overhead
    omega
  have hclusters : ∀ n : ℕ, 4085 ≤ n ∧ 65525 ≤ n ↔ 65525 ≤ n := by
    intro n
    omega
  rw [fatInitBpb]
  dsimp only
  rw [hrootSectors, hoverhead, hdata, hfirst]
  simp only [hclusters]
  split_ifs <;> first | rfl | tauto

theorem fatInitBpb_accepted {bpb : FatBpb} {vol : FatVolume} (h : fatInitBpb bpb = some vol) :
    vol.Accepted ∧ vol.bpb = bpb := by
  rw [fatInitBpb_eq] at h
  obtain ⟨herr, h⟩ := (Option.ite_none_left_eq_some).1 h
  simp only [not_or, not_le] at herr
  obtain ⟨-, -, -, hspc, hclusters⟩ := herr
  obtain rfl := Option.some.inj h
  refine ⟨⟨Nat.pos_of_ne_zero hspc, rfl, rfl, rfl, ?_⟩, rfl⟩
  by_cases hlt : sub32 bpb.totalSectors bpb.overhead / bpb.sectorsPerCluster < 4085
  · exact Or.inl ⟨if_pos hlt, hlt⟩
  · exact Or.inr ⟨if_neg hlt, not_lt.1 hlt, hclusters⟩

/-- The blocks that `fat_init` goes on with. -/
lemma fatInitBpb_isSome_iff (bpb : FatBpb) : (fatInitBpb bpb).isSome ↔ bpb.Readable := by
  rw [fatInitBpb_eq]
  constructor
  · intro h
    obtain ⟨vol, hvol⟩ := Option.isSome_iff_exists.1 h
    obtain ⟨herr, -⟩ := (Option.ite_none_left_eq_some).1 hvol
    simp only [not_or, not_le, not_not] at herr
    obtain ⟨hfat, hbytes, htotal, hspc, hclusters⟩ := herr
    have hle : bpb.overhead ≤ bpb.totalSectors := by
      by_contra hlt
      exact absurd hclusters (not_lt.2 (bpb.wrapped_le (not_le.1 hlt) hspc))
    rw [bpb.sub32_overhead hle] at hclusters
    exact ⟨hfat, hbytes, htotal, hspc, hle, hclusters⟩
  · intro h
    have hclusters := h.clusterCount_lt
    rw [FatBpb.clusterCount, ← bpb.sub32_overhead h.overhead_le] at hclusters
    rw [if_neg]
    · rfl
    · simp only [not_or, not_le, not_not]
      exact ⟨h.sectorsPerFat, h.bytesPerSector, h.totalSectors, h.sectorsPerCluster, hclusters⟩

lemma FatBpb.Readable.laidOut {bpb : FatBpb} {vol : FatVolume} (h : bpb.Readable)
    (hvol : fatInitBpb bpb = some vol) : vol.LaidOut bpb := by
  rw [fatInitBpb_eq] at hvol
  obtain ⟨-, hvol⟩ := (Option.ite_none_left_eq_some).1 hvol
  obtain rfl := Option.some.inj hvol
  refine ⟨?_, rfl, rfl, rfl⟩
  rw [clusterCount, ← bpb.sub32_overhead h.overhead_le]

/-- Reading back what was stored does not depend on where it was stored. -/
lemma FatBpb.read_store (m data : ByteMem) (a : ℕ) :
    FatBpb.read (m.store a (data.bytes 0 512)) a = FatBpb.read data 0 := by
  have hbyte : ∀ i < 512, m.store a (data.bytes 0 512) (a + i) = data (0 + i) :=
    fun i hi => ByteMem.store_bytes_add m data a 0 hi
  have hword : ∀ i, i + 1 < 512 → (m.store a (data.bytes 0 512)).read16 (a + i) =
      data.read16 (0 + i) := by
    intro i hi
    rw [ByteMem.read16, ByteMem.read16, hbyte i (by omega), Nat.add_assoc, hbyte (i + 1) hi,
      Nat.add_assoc]
  have hdword : (m.store a (data.bytes 0 512)).read32 (a + 32) = data.read32 (0 + 32) := by
    simp only [ByteMem.read32, Nat.add_assoc, hbyte _ (show 32 < 512 by omega),
      hbyte _ (show 32 + 1 < 512 by omega), hbyte _ (show 32 + 2 < 512 by omega),
      hbyte _ (show 32 + 3 < 512 by omega)]
  simp only [FatBpb.read, FatBpb.mk.injEq]
  exact ⟨hword 11 (by omega), congrArg _ (hbyte 13 (by omega)), hword 14 (by omega),
    congrArg _ (hbyte 16 (by omega)), hword 17 (by omega), hword 19 (by omega),
    hword 22 (by omega), hdword⟩

/-- `fat_init` takes the parameter block from the first sector of the disk. -/
lemma fatInit_eq {disk : Disk} {data : ByteMem} (h : disk.sector 0 = some data) (s : Loader) :
    ∃ t, fatInit disk s = some (fatInitBpb (.read data 0), t) := by
  have htemp : linear (tempSectorBuffer / 16) (tempSectorBuffer % 16) = tempSectorBuffer := rfl
  rw [fatInit, diskReadSector, h, htemp, Option.map_some, Option.bind_eq_bind, Option.bind_some,
    FatBpb.read_store]
  exact ⟨_, rfl⟩

lemma fatInit_accepted {disk : Disk} {s t : Loader} {vol : FatVolume}
    (h : fatInit disk s = some (some vol, t)) : vol.Accepted := by
  rw [fatInit] at h
  obtain ⟨s', -, h⟩ := Option.bind_eq_some_iff.1 h
  exact (fatInitBpb_accepted (congrArg Prod.fst (Option.some.inj h))).1

/-! ### A volume -/

/-- The geometry of a 1.44 MB floppy disk. -/
def floppyBpb : FatBpb where
  bytesPerSector := 512
  sectorsPerCluster := 1
  reservedSectors := 1
  numFatTables := 2
  rootDirEntries := 224
  totalSectors16 := 2880
  sectorsPerFat := 9
  totalSectors32 := 0
  sectorsPerCluster_lt := by decide
  reservedSectors_lt := by decide
  numFatTables_lt := by decide
  rootDirEntries_lt := by decide
  totalSectors16_lt := by decide
  sectorsPerFat_lt := by decide
  totalSectors32_lt := by decide

def floppyVolume : FatVolume where
  bpb := floppyBpb
  fatType := 12
  totalSectors := 2880
  rootDirSectors := 14
  dataSectors := 2847
  firstDataSector := 33
  firstFatSector := 1
  firstRootDirSector := 19

lemma fatInitBpb_floppy : fatInitBpb floppyBpb = some floppyVolume := by
  simp [fatInitBpb, floppyBpb, floppyVolume, FatBpb.totalSectors, u32, sub32]

/-- The first bytes of the boot sector of the volume. -/
def floppySector : ByteMem := fun x =>
  [0, 0, 0, 0, 0, 0, 0, 0, 0, 0, 0, 0, 2, 1, 1, 0, 2, 224, 0, 64, 11, 0, 9].getD x 0

/-- The volume on a disk, with the first sector of its table. -/
def floppyDisk (fat : ByteMem) : Disk := fun _ lba =>
  some (if lba = 0 then floppySector else if lba = 1 then fat else fun _ => 0)

lemma fatInit_floppy (fat : ByteMem) (s : Loader) :
    ∃ t, fatInit (floppyDisk fat) s = some (some floppyVolume, t) := by
  have hread : FatBpb.read floppySector 0 = floppyBpb := rfl
  obtain ⟨t, ht⟩ := fatInit_eq (show (floppyDisk fat).sector 0 = some floppySector from rfl) s
  rw [hread, fatInitBpb_floppy] at ht
  exact ⟨t, ht⟩

/-! ### What is accepted -/

/-- **`fat_init` accepts exactly the volumes that it can read.**  It returns with the carry
flag clear if and only if the parameter block in the first sector is of a volume whose areas
fit on it, with few enough clusters; and then it has computed where the areas are. -/
theorem fatInit_accepts_iff {disk : Disk} {data : ByteMem} (h : disk.sector 0 = some data)
    (s : Loader) : ∃ r t, fatInit disk s = some (r, t) ∧
      (r.isSome ↔ (FatBpb.read data 0).Readable) ∧
      ∀ vol, r = some vol → vol.LaidOut (.read data 0) := by
  obtain ⟨t, ht⟩ := fatInit_eq h s
  refine ⟨_, t, ht, fatInitBpb_isSome_iff _, fun vol hvol => ?_⟩
  exact ((fatInitBpb_isSome_iff _).1 (Option.isSome_iff_exists.2 ⟨vol, hvol⟩)).laidOut hvol

theorem fatInit_accepts_iff_floppy :
    ∃ r t, fatInit (floppyDisk fun _ => 0) ⟨fun _ => 0, []⟩ = some (r, t) ∧
      (r.isSome ↔ (FatBpb.read floppySector 0).Readable) ∧
      ∀ vol, r = some vol → vol.LaidOut (.read floppySector 0) :=
  fatInit_accepts_iff (show (floppyDisk fun _ => 0).sector 0 = some floppySector from rfl)
    ⟨fun _ => 0, []⟩

end Gummy
