import Gummy.Fat.Reading

/-!
Files on well-formed volumes.

The table and the data area are given their meaning independently of the code: entry `c`
of the packed table, and the sectors of cluster `c`.  For FAT16 the code compares the whole
of `EAX` with the end mark, while `fat16_next_cluster` leaves the upper half of a sector
number there; `IsFile.chainReads` therefore needs these sector numbers to be 16-bit.
-/

namespace Gummy

open CWord

/-- A disk that delivers every sector at the first try. -/
def Disk.ofImage (image : ℕ → ByteMem) : Disk := fun _ lba => some (image lba)

variable {image : ℕ → ByteMem} {vol : FatVolume}

/-! ### The meaning of a volume -/

/-- The bytes of the first table. -/
def fatTable (image : ℕ → ByteMem) (vol : FatVolume) : ByteMem := fun o =>
  image (vol.bpb.reservedSectors + o / 512) (o % 512)

/-- Entry `c` of the table: twelve bits, two entries to three bytes, or sixteen. -/
def tableEntry (image : ℕ → ByteMem) (vol : FatVolume) (c : ℕ) : ℕ :=
  if vol.fatType = 12 then
    if c % 2 = 0 then (fatTable image vol).read16 (c + c / 2) % 2 ^ 12
    else (fatTable image vol).read16 (c + c / 2) / 2 ^ 4
  else (fatTable image vol).read16 (2 * c)

/-- The least end-of-chain mark. -/
def endMark (vol : FatVolume) : ℕ := if vol.fatType = 12 then 0xFF8 else 0xFFF8

/-- The sectors of cluster `c`, which is the one after `c - 2` others. -/
def clusterBytes (image : ℕ → ByteMem) (vol : FatVolume) (c : ℕ) : List UInt8 :=
  (List.range vol.bpb.sectorsPerCluster).flatMap fun i =>
    (image (vol.bpb.overhead + (c - 2) * vol.bpb.sectorsPerCluster + i)).bytes 0 512

/-- The clusters of a file: an acyclic chain inside the data area that ends in an
end-of-chain mark. -/
structure IsFile (image : ℕ → ByteMem) (vol : FatVolume) (entry : FatEntry) (l : List ℕ) :
    Prop where
  head : l.head? = some entry.clusterLo
  mem : ∀ c ∈ l, 2 ≤ c ∧ c < vol.totalClusters + 2
  nodup : l.Nodup
  next : l.IsChain fun c c' => tableEntry image vol c = c'
  last : ∀ c, l.getLast? = some c → endMark vol ≤ tableEntry image vol c

/-- What `fat_read_file` is to do: whatever the memory held, the bytes of the clusters lie
from the destination on, and nothing else but the temporary buffer has changed. -/
def LoadsFile (image : ℕ → ByteMem) (vol : FatVolume) (entry : FatEntry) (l : List ℕ) (es bx : ℕ) :
    Prop :=
  ∀ mem, ∃ fuel t,
    fatReadFile (.ofImage image) vol fuel entry es bx ⟨mem, []⟩ = some (false, t) ∧
      ∀ x ∉ tempBuffer, t.mem x =
        mem.store (linear es bx) (l.flatMap (clusterBytes image vol)) x

/-! ### What the code reads -/

lemma tableEntry_lt (image : ℕ → ByteMem) (vol : FatVolume) (c : ℕ) :
    tableEntry image vol c < 2 ^ 16 := by
  have hword := ByteMem.read16_lt (fatTable image vol) (c + c / 2)
  have hword' := ByteMem.read16_lt (fatTable image vol) (2 * c)
  rw [tableEntry]
  split_ifs <;> omega

lemma setLow_mod (eax : ℕ) {ax : ℕ} (h : ax < 2 ^ 16) : setLow eax ax % 2 ^ 16 = ax := by
  unfold setLow
  omega

/-- The two sectors that the code reads hold both bytes of the entry. -/
lemma twoSectors_fatTable (o : ℕ) :
    (twoSectors (image (vol.bpb.reservedSectors + o / 512))
      (image (vol.bpb.reservedSectors + o / 512 + 1))).read16 (o % 512) =
        (fatTable image vol).read16 o := by
  have hmod : o % 512 < 512 := Nat.mod_lt _ (by norm_num)
  rw [ByteMem.read16, ByteMem.read16, twoSectors, twoSectors, fatTable, fatTable, if_pos hmod]
  split_ifs with hlt
  · rw [show (o + 1) / 512 = o / 512 by omega, show (o + 1) % 512 = o % 512 + 1 by omega]
  · rw [show (o + 1) / 512 = o / 512 + 1 by omega, show (o + 1) % 512 = o % 512 + 1 - 512 by omega,
      Nat.add_assoc]

section

variable (hvol : vol.Accepted)

include hvol

lemma cluster_lt {c : ℕ} (hc : c < vol.totalClusters + 2) :
    c < 65527 ∧ (vol.fatType = 12 → c < 4087) := by
  obtain ⟨h, hlt⟩ | ⟨h, -, hlt⟩ := hvol.fatType <;> omega

/-- The sectors that `.read` fetches are those of the cluster. -/
lemma sectorsAt_cluster (image : ℕ → ByteMem) {c : ℕ} (h2 : 2 ≤ c)
    (hc : c < vol.totalClusters + 2) :
    sectorsAt (.ofImage image) vol.bpb.sectorsPerCluster (fatClusterToLba vol c) =
      some (clusterBytes image vol c) := by
  have hlt := (cluster_lt hvol hc).1
  have hspc := vol.bpb.sectorsPerCluster_lt
  have hover := vol.bpb.overhead_lt
  have hmul : (c - 2) * vol.bpb.sectorsPerCluster < 2 ^ 16 * 2 ^ 8 :=
    Nat.mul_lt_mul'' (by omega) hspc
  have hlba : fatClusterToLba vol c =
      vol.bpb.overhead + (c - 2) * vol.bpb.sectorsPerCluster := by
    rw [fatClusterToLba, sub32_of_le (by omega) h2, hvol.firstDataSector]
    unfold u32
    omega
  have hsectors : ∀ n lba, lba + n < 2 ^ 32 → sectorsAt (.ofImage image) n lba =
      some ((List.range n).flatMap fun i => (image (lba + i)).bytes 0 512) := by
    intro n
    induction n with
    | zero => exact fun lba _ => rfl
    | succ n ih =>
      intro lba hn
      rw [sectorsAt, u32_of_lt (by omega), ih (lba + 1) (by omega), List.range_succ_eq_map,
        List.flatMap_cons, List.flatMap_map]
      simp only [Nat.succ_eq_add_one, Nat.add_assoc, Nat.add_comm 1]
      rfl
  rw [hlba, hsectors _ _ (by omega)]
  rfl

/-- `EAX` after `fat_next_cluster`: its low half is the table entry, and for FAT16 the upper
half is that of the sector number. -/
lemma nextEax_spec (image : ℕ → ByteMem) {c : ℕ} (hc : c < vol.totalClusters + 2) :
    ∃ eax, nextEax (.ofImage image) vol c = some eax ∧ eax % 2 ^ 16 = tableEntry image vol c ∧
      (vol.fatType = 16 → eax = setLow (vol.bpb.reservedSectors + c / 256)
        (tableEntry image vol c)) := by
  have hlt := (cluster_lt hvol hc).1
  have hreserved := vol.bpb.reservedSectors_lt
  rw [nextEax, hvol.firstFatSector]
  by_cases h12 : vol.fatType = 12
  · have hlba : u32 ((c / 2 + c) / 512 + vol.bpb.reservedSectors) =
        vol.bpb.reservedSectors + (c + c / 2) / 512 := by
      unfold u32
      omega
    have hsecond : u32 (vol.bpb.reservedSectors + (c + c / 2) / 512 + 1) =
        vol.bpb.reservedSectors + (c + c / 2) / 512 + 1 := u32_of_lt (by omega)
    rw [if_pos h12, hlba, Nat.add_comm (c / 2)]
    dsimp only
    rw [hsecond]
    refine ⟨_, rfl, ?_, by omega⟩
    have hentry : (if c % 2 = 0 then (fatTable image vol).read16 (c + c / 2) &&& 0xFFF
        else (fatTable image vol).read16 (c + c / 2) / 2 ^ 4) = tableEntry image vol c := by
      rw [tableEntry, if_pos h12, show 0xFFF = 2 ^ 12 - 1 from rfl, Nat.and_two_pow_sub_one_eq_mod]
    rw [twoSectors_fatTable, hentry, setLow_mod _ (tableEntry_lt image vol c)]
  · have hlba : u32 (c * 2 / 512 + vol.bpb.reservedSectors) =
        vol.bpb.reservedSectors + c / 256 := by
      unfold u32
      omega
    rw [if_neg h12, hlba]
    have hword : (image (vol.bpb.reservedSectors + c / 256)).read16 (c * 2 % 512) =
        tableEntry image vol c := by
      rw [tableEntry, if_neg h12, ByteMem.read16, ByteMem.read16, fatTable, fatTable,
        show 2 * c / 512 = c / 256 by omega, show (2 * c + 1) / 512 = c / 256 by omega,
        show (2 * c + 1) % 512 = c * 2 % 512 + 1 by omega, Nat.mul_comm 2]
    refine ⟨_, rfl, ?_, fun _ => ?_⟩
    · rw [← hword]
      exact setLow_mod _ (ByteMem.read16_lt _ _)
    · rw [← hword]

/-- A cluster of the data area is no end mark, unless something is left in the upper half
of `EAX`. -/
lemma isEof_of_cluster {eax : ℕ} (hc : eax % 2 ^ 16 < vol.totalClusters + 2)
    (hhigh : vol.fatType = 16 → eax < 2 ^ 16) : fatClusterIsEof vol eax = false := by
  obtain ⟨hlt, hlt12⟩ := cluster_lt hvol hc
  rw [fatClusterIsEof]
  obtain ⟨h, -⟩ | ⟨h, -⟩ := hvol.fatType
  · have := hlt12 h
    rw [if_pos h, decide_eq_false_iff_not]
    omega
  · have := hhigh h
    rw [if_neg (by omega), if_pos h, decide_eq_false_iff_not]
    omega

/-- An end mark is one, whatever the upper half of `EAX` holds. -/
lemma isEof_of_endMark {eax : ℕ} (h : endMark vol ≤ eax % 2 ^ 16) :
    fatClusterIsEof vol eax = true := by
  rw [endMark] at h
  rw [fatClusterIsEof]
  obtain ⟨h12, -⟩ | ⟨h16, -⟩ := hvol.fatType
  · rw [if_pos h12] at h
    rw [if_pos h12]
    exact decide_eq_true h
  · rw [if_neg (by omega)] at h
    rw [if_neg (by omega), if_pos h16]
    exact decide_eq_true (h.trans (Nat.mod_le _ _))

/-- The code reads a prefix of the chain, which is all of it just when the table sector of
no cluster but the last has a number of more than sixteen bits. -/
lemma chainReads_prefix {c eax : ℕ} {l : List ℕ}
    (hmem : ∀ d ∈ c :: l, 2 ≤ d ∧ d < vol.totalClusters + 2)
    (hnext : (c :: l).IsChain fun c c' => tableEntry image vol c = c')
    (hlast : ∀ d, (c :: l).getLast? = some d → endMark vol ≤ tableEntry image vol d)
    (heax : eax % 2 ^ 16 = c) (heof : fatClusterIsEof vol eax = false) :
    ∃ l', l' <+: c :: l ∧
      ChainReads (.ofImage image) vol eax (l'.flatMap (clusterBytes image vol)) ∧
      (l' = c :: l ↔ ∀ d ∈ (c :: l).dropLast,
        vol.fatType = 12 ∨ vol.bpb.reservedSectors + d / 256 < 2 ^ 16) := by
  induction l generalizing c eax with
  | nil =>
    obtain ⟨h2, hc⟩ := hmem c (by simp)
    obtain ⟨eax', hnexteax, hlow, -⟩ := nextEax_spec hvol image hc
    have hend := hlast c rfl
    rw [← hlow] at hend
    refine ⟨[c], List.prefix_rfl, ?_, by simp⟩
    refine .cluster heof ?_ (by rw [heax, hnexteax]) (.eof (isEof_of_endMark hvol hend))
    rw [heax]
    exact sectorsAt_cluster hvol image h2 hc
  | cons c' l ih =>
    obtain ⟨h2, hc⟩ := hmem c (by simp)
    have hc' := (hmem c' (by simp)).2
    obtain ⟨hentry, hnext⟩ := List.isChain_cons_cons.1 hnext
    obtain ⟨eax', hnexteax, hlow, hupper⟩ := nextEax_spec hvol image hc
    rw [hentry] at hlow
    have hdata := sectorsAt_cluster hvol image h2 hc
    rw [← heax] at hdata hnexteax
    rw [List.dropLast_cons_cons, List.forall_mem_cons]
    by_cases hwide : vol.fatType = 12 ∨ vol.bpb.reservedSectors + c / 256 < 2 ^ 16
    · have hsmall : vol.fatType = 16 → eax' < 2 ^ 16 := by
        intro h16
        have hlt := hwide.resolve_left (by omega)
        have hentrylt := tableEntry_lt image vol c
        rw [hupper h16]
        unfold setLow
        omega
      obtain ⟨l', hpre, hreads, hiff⟩ := ih (fun d hd => hmem d (List.mem_cons_of_mem _ hd)) hnext
        (fun d hd => hlast d (by rwa [List.getLast?_cons_cons])) hlow
        (isEof_of_cluster hvol (by rwa [hlow]) hsmall)
      refine ⟨c :: l', (List.prefix_cons_inj c).2 hpre, ?_, ?_⟩
      · rw [List.flatMap_cons]
        exact .cluster heof (heax ▸ hdata) hnexteax hreads
      · rw [List.cons_inj_right, hiff]
        exact ⟨fun h => ⟨hwide, h⟩, And.right⟩
    · -- what is left in the upper half of `EAX` passes for an end mark
      have h16 : vol.fatType = 16 := by
        obtain ⟨h, -⟩ | ⟨h, -⟩ := hvol.fatType
        · exact absurd (Or.inl h) hwide
        · exact h
      have hstop : fatClusterIsEof vol eax' = true := by
        have hge : 2 ^ 16 ≤ vol.bpb.reservedSectors + c / 256 :=
          not_lt.1 fun hlt => hwide (Or.inr hlt)
        rw [fatClusterIsEof, if_neg (by omega), if_pos h16, hupper h16, decide_eq_true_eq]
        unfold setLow
        omega
      refine ⟨[c], ⟨c' :: l, rfl⟩, ?_, ?_⟩
      · exact .cluster heof (heax ▸ hdata) hnexteax (.eof hstop)
      · exact ⟨fun h => absurd h (by simp), fun h => absurd h.1 hwide⟩

lemma clusterBytes_pos (image : ℕ → ByteMem) (c : ℕ) : clusterBytes image vol c ≠ [] := by
  intro h
  have hspc := hvol.spc_pos
  have hmem := List.flatMap_eq_nil_iff.1 h 0 (List.mem_range.2 hspc)
  have hlen := congrArg List.length hmem
  simp at hlen

end

lemma length_clusterBytes (l : List ℕ) : (l.flatMap (clusterBytes image vol)).length =
    l.length * (vol.bpb.sectorsPerCluster * 512) := by
  induction l with
  | nil => simp
  | cons c l ih =>
    have hone : (clusterBytes image vol c).length = vol.bpb.sectorsPerCluster * 512 := by
      simp [clusterBytes, List.length_flatMap, List.map_const']
    rw [List.flatMap_cons, List.length_append, ih, hone, List.length_cons]
    ring

/-! ### Loading a file -/

section

variable {entry : FatEntry} {l : List ℕ} {es bx : ℕ}

/-- The code loads a prefix of the chain. -/
lemma IsFile.run (h : IsFile image vol entry l) (hvol : vol.Accepted) (hsize : entry.fileSize ≠ 0)
    (hbx : bx < 2 ^ 16) (hsmall : linear es bx + entry.fileSize < 0x90000)
    (hfit : linear es bx + l.length * (vol.bpb.sectorsPerCluster * 512) ≤ 0x90000) :
    ∃ l', l' <+: l ∧ (∀ mem, ∃ fuel t,
        fatReadFile (.ofImage image) vol fuel entry es bx ⟨mem, []⟩ = some (false, t) ∧
        ∀ x ∉ tempBuffer, t.mem x =
          mem.store (linear es bx) (l'.flatMap (clusterBytes image vol)) x) ∧
      (l' = l ↔ ∀ c ∈ l.dropLast,
        vol.fatType = 12 ∨ vol.bpb.reservedSectors + c / 256 < 2 ^ 16) := by
  obtain ⟨c, l, rfl⟩ : ∃ c l', l = c :: l' := by
    cases l with
    | nil => exact absurd h.head (by simp)
    | cons c l => exact ⟨c, l, rfl⟩
  obtain rfl : c = entry.clusterLo := Option.some.inj h.head
  have hfirst := h.mem _ List.mem_cons_self
  have hlo := entry.clusterLo_lt
  have hmod : entry.clusterLo % 2 ^ 16 = entry.clusterLo := Nat.mod_eq_of_lt hlo
  obtain ⟨l', hpre, hreads, hiff⟩ := chainReads_prefix hvol h.mem h.next h.last hmod
    (isEof_of_cluster hvol (by rw [hmod]; exact hfirst.2) fun _ => hlo)
  refine ⟨l', hpre, fun mem => ?_, hiff⟩
  have hlimit : ¬ 0x90000 ≤ u32 (linear es bx + entry.fileSize) := by
    rw [u32_of_lt (by omega)]
    omega
  have hle : linear es bx + (l'.flatMap (clusterBytes image vol)).length ≤ 0x90000 := by
    rw [length_clusterBytes]
    exact (Nat.add_le_add_left (Nat.mul_le_mul_right _ hpre.length_le) _).trans hfit
  obtain ⟨fuel, t, hrun, hw⟩ := fatReadLoop_spec hvol hreads
    (s := { toLoader := ⟨mem, []⟩, eax := entry.clusterLo, es, bx }) ⟨rfl, hbx⟩ rfl hle
  exact ⟨fuel, t, by rw [fatReadFile_eq_loop hsize hlimit (by omega), hrun], hw.mem⟩

/-- A file that is loaded has no table sector too far. -/
lemma LoadsFile.narrow (h : LoadsFile image vol entry l es bx) (hfile : IsFile image vol entry l)
    (hvol : vol.Accepted) (hsize : entry.fileSize ≠ 0) (hbx : bx < 2 ^ 16)
    (hlow : 0x10000 ≤ linear es bx) (hsmall : linear es bx + entry.fileSize < 0x90000)
    (hfit : linear es bx + l.length * (vol.bpb.sectorsPerCluster * 512) ≤ 0x90000) :
    ∀ c ∈ l.dropLast, vol.fatType = 12 ∨ vol.bpb.reservedSectors + c / 256 < 2 ^ 16 := by
  obtain ⟨l', ⟨l'', rfl⟩, hrun, hiff⟩ := hfile.run hvol hsize hbx hsmall hfit
  refine hiff.1 ?_
  cases l'' with
  | nil => exact (List.append_nil l').symm
  | cons c l'' =>
    -- the first byte that is not read differs from what the memory held
    exfalso
    obtain ⟨b, rest, hb⟩ := List.exists_cons_of_ne_nil (clusterBytes_pos hvol image c)
    obtain ⟨fuel, t, hcode, hmem⟩ := h fun _ => b + 1
    obtain ⟨fuel', t', hcode', hmem'⟩ := hrun fun _ => b + 1
    obtain rfl : t = t' := congrArg Prod.snd (fatReadFile_unique hcode hcode')
    have hx : linear es bx + (l'.flatMap (clusterBytes image vol)).length ∉ tempBuffer := by
      rintro ⟨-, hlt⟩
      simp only [tempSectorBuffer] at hlt
      omega
    have hbyte := (hmem _ hx).symm.trans (hmem' _ hx)
    rw [List.flatMap_append, List.flatMap_cons, hb, ByteMem.store_append, List.cons_append,
      ByteMem.store_of_disjoint _ (Or.inr le_rfl)] at hbyte
    have hstored := ByteMem.store_add
      (ByteMem.store (fun _ => b + 1) (linear es bx) (l'.flatMap (clusterBytes image vol)))
      (linear es bx + (l'.flatMap (clusterBytes image vol)).length)
      (l := b :: (rest ++ l''.flatMap (clusterBytes image vol))) (i := 0) (by simp)
    rw [Nat.add_zero, hbyte, List.getElem_cons_zero] at hstored
    exact absurd hstored (by simp)

/-- On a volume that `fat_init` accepts, a file whose clusters fit below the limit is loaded
exactly if and only if the volume is FAT12 or every table sector that is read for a cluster
but the last has a 16-bit number. -/
theorem loadsFile_iff {s₀ s₁ : Loader} (hinit : fatInit (.ofImage image) s₀ = some (some vol, s₁))
    (hfile : IsFile image vol entry l) (hsize : entry.fileSize ≠ 0) (hbx : bx < 2 ^ 16)
    (hlow : 0x10000 ≤ linear es bx) (hsmall : linear es bx + entry.fileSize < 0x90000)
    (hfit : linear es bx + l.length * (vol.bpb.sectorsPerCluster * 512) ≤ 0x90000) :
    LoadsFile image vol entry l es bx ↔
      ∀ c ∈ l.dropLast, vol.fatType = 12 ∨ vol.bpb.reservedSectors + c / 256 < 2 ^ 16 := by
  have hvol := fatInit_accepted hinit
  refine ⟨fun h => h.narrow hfile hvol hsize hbx hlow hsmall hfit, fun h => ?_⟩
  obtain ⟨l', -, hrun, hiff⟩ := hfile.run hvol hsize hbx hsmall hfit
  obtain rfl := hiff.2 h
  exact hrun

end

/-- A file of two clusters on the floppy disk. -/
theorem loadsFile_iff_floppy :
    LoadsFile (fun lba => if lba = 0 then floppySector else if lba = 1 then
        fun x => [0, 0, 0, 3, 0xF0, 0xFF].getD x 0 else fun _ => 0) floppyVolume
      ⟨2, 700, by decide, by decide⟩ [2, 3] 0x1000 0 := by
  obtain ⟨s, hs⟩ := fatInit_floppy (fun x => [0, 0, 0, 3, 0xF0, 0xFF].getD x 0) ⟨fun _ => 0, []⟩
  refine (loadsFile_iff hs ⟨rfl, by decide, by decide, by decide, ?_⟩ (by decide) (by decide)
    (by decide) (by decide) (by decide)).2 fun c _ => Or.inl rfl
  rintro c hc
  obtain rfl : 3 = c := Option.some.inj hc
  decide

/-- A FAT16 volume with as many reserved sectors as the field can say, whose table sends
cluster 256 to 257 and ends there. -/
def wideImage : ℕ → ByteMem := fun lba x =>
  if lba = 0 then
    [0, 0, 0, 0, 0, 0, 0, 0, 0, 0, 0, 0, 2, 1, 0xFF, 0xFF, 1, 16, 0, 0, 0, 0, 16, 0, 0, 0, 0, 0, 0,
      0, 0, 0, 5, 0x10, 1, 0].getD x 0
  else if lba = 65536 then [1, 1, 0xFF, 0xFF].getD x 0 else 0

def wideVolume : FatVolume where
  bpb := .read (wideImage 0) 0
  fatType := 16
  totalSectors := 69637
  rootDirSectors := 1
  dataSectors := 4085
  firstDataSector := 65552
  firstFatSector := 65535
  firstRootDirSector := 65551

lemma fatInit_wide (s : Loader) :
    ∃ t, fatInit (.ofImage wideImage) s = some (some wideVolume, t) := by
  have hsector : (Disk.ofImage wideImage).sector 0 = some (wideImage 0) := rfl
  obtain ⟨t, ht⟩ := fatInit_eq hsector s
  have hinit : fatInitBpb (.read (wideImage 0) 0) = some wideVolume := by
    have hfields : (FatBpb.read (wideImage 0) 0).bytesPerSector = 512 ∧
      (FatBpb.read (wideImage 0) 0).sectorsPerCluster = 1 ∧
      (FatBpb.read (wideImage 0) 0).reservedSectors = 65535 ∧
      (FatBpb.read (wideImage 0) 0).numFatTables = 1 ∧
      (FatBpb.read (wideImage 0) 0).rootDirEntries = 16 ∧
      (FatBpb.read (wideImage 0) 0).totalSectors16 = 0 ∧
      (FatBpb.read (wideImage 0) 0).sectorsPerFat = 16 ∧
      (FatBpb.read (wideImage 0) 0).totalSectors32 = 69637 := by decide
    obtain ⟨h1, h2, h3, h4, h5, h6, h7, h8⟩ := hfields
    simp [fatInitBpb, wideVolume, FatBpb.totalSectors, u32, sub32, h1, h2, h3, h4, h5, h6, h7, h8]
  rw [hinit] at ht
  exact ⟨t, ht⟩

/-- The sector number left in `EAX` ends the chain after the first cluster. -/
theorem loadsFile_wide :
    (∃ s t, fatInit (.ofImage wideImage) s = some (some wideVolume, t)) ∧
    IsFile wideImage wideVolume ⟨256, 1024, by decide, by decide⟩ [256, 257] ∧
    ¬ LoadsFile wideImage wideVolume ⟨256, 1024, by decide, by decide⟩ [256, 257] 0x1000 0 := by
  obtain ⟨t, ht⟩ := fatInit_wide ⟨fun _ => 0, []⟩
  have hfile : IsFile wideImage wideVolume ⟨256, 1024, by decide, by decide⟩ [256, 257] := by
    refine ⟨rfl, by decide, by decide, by decide, ?_⟩
    rintro c hc
    obtain rfl : 257 = c := Option.some.inj hc
    decide
  refine ⟨⟨_, t, ht⟩, hfile, fun h => ?_⟩
  have hnarrow := h.narrow hfile (fatInit_accepted ht) (by decide) (by decide) (by decide)
    (by decide) (by decide) 256 (by decide)
  exact absurd hnarrow (by decide)

end Gummy
