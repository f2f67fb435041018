import Gummy.Fat.Volume

/-!
What `fat_read_file` reads, and where it writes.

`ChainReads` follows the clusters of a file as the code does, from what the disk holds
alone; `fatReadLoop_spec` and `fatReadLoop_chain` say that the loop returns within the
limit just when such a walk ends and its sectors fit.
-/

namespace Gummy

open CWord

variable {disk : Disk} {vol : FatVolume}

/-! ### What the disk holds -/

/-- The `n` sectors from `lba` on, one after the other. -/
def sectorsAt (disk : Disk) : ℕ → ℕ → Option (List UInt8)
  | 0, _ => some []
  | n + 1, lba => do
    let data ← disk.sector lba
    let rest ← sectorsAt disk n (u32 (lba + 1))
    some (data.bytes 0 512 ++ rest)

/-- Two sectors, one after the other. -/
def twoSectors (data data' : ByteMem) : ByteMem := fun x =>
  if x < 512 then data x else data' (x - 512)

/-- `EAX` after `fat_next_cluster` on cluster `c`. -/
def nextEax (disk : Disk) (vol : FatVolume) (c : ℕ) : Option ℕ :=
  if vol.fatType = 12 then do
    let lba := u32 ((c / 2 + c) / 512 + vol.firstFatSector)
    let data ← disk.sector lba
    let data' ← disk.sector (u32 (lba + 1))
    let ax := (twoSectors data data').read16 ((c / 2 + c) % 512)
    some (setLow (u32 (lba + 1)) (if c % 2 = 0 then ax &&& 0xFFF else ax / 2 ^ 4))
  else do
    let lba := u32 (c * 2 / 512 + vol.firstFatSector)
    let data ← disk.sector lba
    some (setLow lba (data.read16 (c * 2 % 512)))

/-- Following the chain from `EAX`, an end mark is met after clusters that hold `data`. -/
inductive ChainReads (disk : Disk) (vol : FatVolume) : ℕ → List UInt8 → Prop
  | eof {eax : ℕ} (heof : fatClusterIsEof vol eax = true) : ChainReads disk vol eax []
  | cluster {eax eax' : ℕ} {data rest : List UInt8} (heof : fatClusterIsEof vol eax = false)
      (hdata : sectorsAt disk vol.bpb.sectorsPerCluster (fatClusterToLba vol (eax % 2 ^ 16)) =
        some data)
      (hnext : nextEax disk vol (eax % 2 ^ 16) = some eax')
      (hrest : ChainReads disk vol eax' rest) :
      ChainReads disk vol eax (data ++ rest)

/-! ### What a part of the run writes -/

/-- The sectors that `fat_next_cluster` reads go here. -/
def tempBuffer : Set ℕ := {x | tempSectorBuffer ≤ x ∧ x < tempSectorBuffer + 1024}

def DiskCall.InTemp (call : DiskCall) : Prop :=
  tempSectorBuffer ≤ call.address ∧ call.address + 512 ≤ tempSectorBuffer + 1024

/-- From `s` to `t`, `data` has been written from `a` on, and nothing else but the
temporary buffer. -/
structure Writes (a : ℕ) (data : List UInt8) (s t : Loader) : Prop where
  mem : ∀ x ∉ tempBuffer, t.mem x = s.mem.store a data x
  calls : ∃ l, t.calls = l ++ s.calls ∧ ∀ call ∈ l,
    call.InTemp ∨ a ≤ call.address ∧ call.address + 512 ≤ a + data.length

lemma diskReadSector_of_sector {lba : ℕ} {d : ByteMem} (h : disk.sector lba = some d) (s : Loader)
    (es bx : ℕ) : diskReadSector disk s lba es bx =
      some { mem := s.mem.store (linear es bx) (d.bytes 0 512)
             calls := ⟨lba, linear es bx⟩ :: s.calls } := by
  rw [diskReadSector, h, Option.map_some]

lemma diskReadSector_of_none {lba : ℕ} (h : disk.sector lba = none) (s : Loader) (es bx : ℕ) :
    diskReadSector disk s lba es bx = none := by
  rw [diskReadSector, h, Option.map_none]

/-- The address of a byte of the temporary buffer. -/
lemma linear_temp (o : ℕ) :
    linear (tempSectorBuffer / 16) (tempSectorBuffer % 16 + o) = tempSectorBuffer + o := by
  simp only [linear, tempSectorBuffer]
  omega

namespace Writes

variable {a : ℕ} {data data' : List UInt8} {s t u : Loader}

lemma refl (a : ℕ) (s : Loader) : Writes a [] s s :=
  ⟨fun x _ => by rw [ByteMem.store_nil], [], rfl, by simp⟩

lemma trans (h : Writes a data s t) (h' : Writes (a + data.length) data' t u) :
    Writes a (data ++ data') s u := by
  obtain ⟨l, hl, hcalls⟩ := h.calls
  obtain ⟨l', hl', hcalls'⟩ := h'.calls
  refine ⟨fun x hx => ?_, l' ++ l, by rw [hl', hl, List.append_assoc], fun call hmem => ?_⟩
  · rw [h'.mem x hx, ByteMem.store_append]
    exact ByteMem.store_congr _ (h.mem x hx)
  · rw [List.length_append]
    obtain hmem | hmem := List.mem_append.1 hmem
    · refine (hcalls' call hmem).imp_right fun hin => ?_
      omega
    · refine (hcalls call hmem).imp_right fun hin => ?_
      omega

/-- A sector read into the temporary buffer. -/
lemma temp (a lba : ℕ) {b : ℕ} (s : Loader) (d : ByteMem) (hlow : tempSectorBuffer ≤ b)
    (hhigh : b + 512 ≤ tempSectorBuffer + 1024) :
    Writes a [] s { mem := s.mem.store b (d.bytes 0 512), calls := ⟨lba, b⟩ :: s.calls } := by
  refine ⟨fun x hx => ?_, [⟨lba, b⟩], rfl, fun call hmem => ?_⟩
  · rw [ByteMem.store_nil]
    refine ByteMem.store_of_disjoint _ ?_
    rw [ByteMem.length_bytes]
    by_contra hin
    exact hx ⟨by omega, by omega⟩
  · obtain rfl := List.mem_singleton.1 hmem
    exact Or.inl ⟨hlow, hhigh⟩

/-- A sector read to the destination. -/
lemma sector (a lba : ℕ) (s : Loader) (d : ByteMem) :
    Writes a (d.bytes 0 512) s
      { mem := s.mem.store a (d.bytes 0 512), calls := ⟨lba, a⟩ :: s.calls } := by
  refine ⟨fun x _ => rfl, [⟨lba, a⟩], rfl, fun call hmem => ?_⟩
  obtain rfl := List.mem_singleton.1 hmem
  refine Or.inr ⟨le_rfl, ?_⟩
  rw [ByteMem.length_bytes]

end Writes

/-! ### The next cluster -/

/-- The word that `fat12_next_cluster` finds in the two sectors it has read. -/
lemma read16_temp (m data data' : ByteMem) {o : ℕ} (ho : o < 512) :
    ((m.store tempSectorBuffer (data.bytes 0 512)).store (tempSectorBuffer + 512)
      (data'.bytes 0 512)).read16 (tempSectorBuffer + o) = (twoSectors data data').read16 o := by
  have hbyte : ∀ i ≤ 512, ((m.store tempSectorBuffer (data.bytes 0 512)).store
      (tempSectorBuffer + 512) (data'.bytes 0 512)) (tempSectorBuffer + i) =
        twoSectors data data' i := by
    intro i hi
    rw [twoSectors]
    split_ifs with hlt
    · rw [ByteMem.store_of_disjoint _ (by omega), ByteMem.store_bytes_add _ _ _ _ hlt, Nat.zero_add]
    · obtain rfl : i = 512 := by omega
      rw [show tempSectorBuffer + 512 = tempSectorBuffer + 512 + 0 from rfl,
        ByteMem.store_bytes_add _ _ _ _ (by norm_num)]
  rw [ByteMem.read16, ByteMem.read16, hbyte o ho.le, Nat.add_assoc, hbyte (o + 1) ho]

lemma fat16NextCluster_spec (s : Loader) (hvol : vol.fatType = 16) {c : ℕ} (hc : c < 2 ^ 16)
    (a : ℕ) : (nextEax disk vol c = none ∧ fat16NextCluster disk vol s c = none) ∨
      ∃ eax t, nextEax disk vol c = some eax ∧ fat16NextCluster disk vol s c = some (eax, t) ∧
        Writes a [] s t := by
  have hoff : u32 (c % 2 ^ 16 * 2) = c * 2 := by
    rw [Nat.mod_eq_of_lt hc]
    exact u32_of_lt (by omega)
  rw [nextEax, if_neg (by omega), fat16NextCluster, hoff]
  dsimp only
  cases hdata : disk.sector (u32 (c * 2 / 512 + vol.firstFatSector)) with
  | none => exact Or.inl ⟨rfl, by rw [diskReadSector_of_none hdata]; rfl⟩
  | some data =>
    have hword : (s.mem.store tempSectorBuffer (data.bytes 0 512)).read16
        (tempSectorBuffer + c * 2 % 512) = data.read16 (c * 2 % 512) := by
      rw [ByteMem.read16, ByteMem.read16, ByteMem.store_bytes_add _ _ _ _ (by omega), Nat.add_assoc,
        ByteMem.store_bytes_add _ _ _ _ (by omega), Nat.zero_add, Nat.zero_add]
    rw [diskReadSector_of_sector hdata, Option.bind_eq_bind, Option.bind_some, Option.bind_eq_bind,
      Option.bind_some]
    dsimp only
    rw [linear_temp, show linear (tempSectorBuffer / 16) (tempSectorBuffer % 16) = tempSectorBuffer
      from linear_temp 0, hword]
    exact Or.inr ⟨_, _, rfl, rfl, Writes.temp a _ s data le_rfl (by omega)⟩

lemma fat12NextCluster_spec (s : Loader) (hvol : vol.fatType = 12) {c : ℕ} (hc : c < 2 ^ 16)
    (a : ℕ) : (nextEax disk vol c = none ∧ fat12NextCluster disk vol s c = none) ∨
      ∃ eax t, nextEax disk vol c = some eax ∧ fat12NextCluster disk vol s c = some (eax, t) ∧
        Writes a [] s t := by
  have hoff : u32 (c / 2 + c % 2 ^ 16) = c / 2 + c := by
    rw [Nat.mod_eq_of_lt hc]
    exact u32_of_lt (by omega)
  rw [nextEax, if_pos hvol, fat12NextCluster, hoff, Nat.mod_eq_of_lt hc]
  dsimp only
  have htemp : linear (tempSectorBuffer / 16) (tempSectorBuffer % 16) = tempSectorBuffer :=
    linear_temp 0
  cases hdata : disk.sector (u32 ((c / 2 + c) / 512 + vol.firstFatSector)) with
  | none => exact Or.inl ⟨rfl, by rw [diskReadSector_of_none hdata]; rfl⟩
  | some data =>
    rw [diskReadSector_of_sector hdata, Option.bind_eq_bind, Option.bind_some, Option.bind_eq_bind,
      Option.bind_some]
    cases hdata' : disk.sector (u32 (u32 ((c / 2 + c) / 512 + vol.firstFatSector) + 1)) with
    | none => exact Or.inl ⟨rfl, by rw [diskReadSector_of_none hdata']; rfl⟩
    | some data' =>
      rw [diskReadSector_of_sector hdata']
      simp only [Option.bind_some]
      rw [linear_temp, linear_temp, htemp, read16_temp _ _ _ (Nat.mod_lt _ (by norm_num))]
      have hfirst := Writes.temp a (u32 ((c / 2 + c) / 512 + vol.firstFatSector)) s data
        (le_refl tempSectorBuffer) (by omega)
      exact Or.inr ⟨_, _, rfl, rfl, hfirst.trans (Writes.temp _ _ _ data' (by omega) (by omega))⟩

/-- `fat_next_cluster` finds on the disk what `nextEax` says, and writes to the temporary
buffer only. -/
lemma fatNextCluster_spec (disk : Disk) (s : Loader) (hvol : vol.Accepted) {c : ℕ}
    (hc : c < 2 ^ 16) (a : ℕ) :
    (nextEax disk vol c = none ∧ fatNextCluster disk vol s c = none) ∨
      ∃ eax t, nextEax disk vol c = some eax ∧
        fatNextCluster disk vol s c = some (eax, false, t) ∧ Writes a [] s t := by
  rw [fatNextCluster]
  obtain ⟨h12, -⟩ | ⟨h16, -⟩ := hvol.fatType
  · rw [if_pos h12]
    obtain ⟨hnone, hcode⟩ | ⟨eax, t, heax, hcode, hw⟩ := fat12NextCluster_spec s h12 hc a
    · exact Or.inl ⟨hnone, by rw [hcode, Option.map_none]⟩
    · exact Or.inr ⟨eax, t, heax, by rw [hcode, Option.map_some], hw⟩
  · rw [if_neg (by omega), if_pos h16]
    obtain ⟨hnone, hcode⟩ | ⟨eax, t, heax, hcode, hw⟩ := fat16NextCluster_spec s h16 hc a
    · exact Or.inl ⟨hnone, by rw [hcode, Option.map_none]⟩
    · exact Or.inr ⟨eax, t, heax, by rw [hcode, Option.map_some], hw⟩

/-! ### The sectors of a cluster -/

/-- The next sector goes to the address `a`. -/
structure FileCursor.At (s : FileCursor) (a : ℕ) : Prop where
  address : linear s.es s.bx = a
  bx_lt : s.bx < 2 ^ 16

/-- Changing the segment does not move the cursor below the limit of `fat_read_file`. -/
lemma FileCursor.At.incSeg {s : FileCursor} {a : ℕ} (h : s.At a) (ha : a ≤ 0x90000) :
    s.incSeg.At a ∧ s.incSeg.bx < 0x8000 ∧ s.incSeg.eax = s.eax ∧
      s.incSeg.toLoader = s.toLoader := by
  obtain ⟨haddr, hbx⟩ := h
  rw [FileCursor.incSeg]
  unfold linear at haddr
  split_ifs with hhigh
  · refine ⟨⟨?_, ?_⟩, ?_, rfl, rfl⟩ <;> simp only [linear] <;> omega
  · exact ⟨⟨haddr, hbx⟩, not_le.1 hhigh, rfl, rfl⟩

/-- The cursor after one more sector. -/
lemma FileCursor.At.next {s : FileCursor} {a : ℕ} (h : s.At a) (hbx : s.bx < 0x8000) (t : Loader)
    (eax : ℕ) : FileCursor.At { toLoader := t, eax, es := s.es, bx := (s.bx + 512) % 2 ^ 16 }
      (a + 512) := by
  obtain ⟨haddr, -⟩ := h
  unfold linear at haddr
  constructor <;> simp only [linear] <;> omega

lemma sectorsAt_length {n lba : ℕ} {data : List UInt8} (h : sectorsAt disk n lba = some data) :
    data.length = 512 * n := by
  induction n generalizing lba data with
  | zero =>
    obtain rfl := Option.some.inj h
    rfl
  | succ n ih =>
    rw [sectorsAt] at h
    obtain ⟨d, -, h⟩ := Option.bind_eq_some_iff.1 h
    obtain ⟨rest, hrest, h⟩ := Option.bind_eq_some_iff.1 h
    obtain rfl := Option.some.inj h
    rw [List.length_append, ByteMem.length_bytes, ih hrest]
    omega

lemma readSectors_spec (disk : Disk) (n : ℕ) {a : ℕ} {s : FileCursor} (h : s.At a)
    (ha : a + 512 * n ≤ 0x90000) :
    (sectorsAt disk n s.eax = none ∧ readSectors disk n s = none) ∨
      ∃ data t, sectorsAt disk n s.eax = some data ∧ readSectors disk n s = some t ∧
        t.At (a + 512 * n) ∧ Writes a data s.toLoader t.toLoader := by
  induction n generalizing a s with
  | zero => exact Or.inr ⟨[], s, rfl, rfl, h, .refl a _⟩
  | succ n ih =>
    obtain ⟨hseg, hbx, heax, hloader⟩ := h.incSeg (by omega)
    rw [sectorsAt, readSectors, heax, hloader]
    cases hdata : disk.sector s.eax with
    | none => exact Or.inl ⟨rfl, by rw [diskReadSector_of_none hdata]; rfl⟩
    | some data =>
      rw [diskReadSector_of_sector hdata, hseg.address]
      simp only [Option.bind_eq_bind, Option.bind_some]
      have hnext := hseg.next hbx
        { mem := s.mem.store a (data.bytes 0 512), calls := ⟨s.eax, a⟩ :: s.calls }
        (u32 (s.eax + 1))
      obtain ⟨hnone, hcode⟩ | ⟨rest, t, hrest, hcode, ht, hw⟩ := ih hnext (by omega)
      · exact Or.inl ⟨by rw [hnone]; rfl, hcode⟩
      · refine Or.inr ⟨data.bytes 0 512 ++ rest, t, by rw [hrest]; rfl, hcode, ?_, ?_⟩
        · rwa [show a + 512 * (n + 1) = a + 512 + 512 * n by omega]
        · refine (Writes.sector a s.eax s.toLoader data).trans ?_
          rwa [ByteMem.length_bytes]

/-- Calls that have been made stay on record. -/
lemma diskReadSector_calls {s t : Loader} {eax es bx : ℕ}
    (h : diskReadSector disk s eax es bx = some t) : t.calls = ⟨eax, linear es bx⟩ :: s.calls := by
  obtain ⟨data, -, rfl⟩ := Option.map_eq_some_iff.1 h
  rfl

lemma readSectors_calls {n : ℕ} {s t : FileCursor} (h : readSectors disk n s = some t) :
    s.calls <:+ t.calls := by
  induction n generalizing s with
  | zero =>
    obtain rfl := Option.some.inj h
    exact List.suffix_rfl
  | succ n ih =>
    rw [readSectors] at h
    obtain ⟨u, hu, h⟩ := Option.bind_eq_some_iff.1 h
    have hloader : s.incSeg.calls = s.calls := by
      rw [FileCursor.incSeg]
      split_ifs <;> rfl
    have hcalls := diskReadSector_calls hu
    rw [hloader] at hcalls
    exact List.IsSuffix.trans ⟨[_], hcalls.symm⟩ (ih h)

/-- The sectors of a cluster that have been read below the limit fit below it. -/
lemma readSectors_bound {n a : ℕ} {s t : FileCursor} (h : s.At a)
    (hlow : tempSectorBuffer + 1024 ≤ a) (ha : a ≤ 0x90000) (hread : readSectors disk n s = some t)
    (hcalls : ∀ call ∈ t.calls, call.InTemp ∨ call.address + 512 ≤ 0x90000) :
    a + 512 * n ≤ 0x90000 := by
  induction n generalizing a s with
  | zero => exact ha
  | succ n ih =>
    obtain ⟨hseg, hbx, -, -⟩ := h.incSeg ha
    rw [readSectors] at hread
    obtain ⟨u, hu, hread⟩ := Option.bind_eq_some_iff.1 hread
    have hmem : ⟨s.incSeg.eax, a⟩ ∈ t.calls := by
      refine (readSectors_calls hread).subset ?_
      rw [diskReadSector_calls hu, hseg.address]
      exact List.mem_cons_self
    have hfit : a + 512 ≤ 0x90000 := by
      refine (hcalls _ hmem).resolve_left fun htemp => ?_
      have hhigh : a + 512 ≤ tempSectorBuffer + 1024 := htemp.2
      omega
    calc a + 512 * (n + 1) = a + 512 + 512 * n := by ring
      _ ≤ 0x90000 := ih (hseg.next hbx u _) (hlow.trans (Nat.le_add_right _ _)) hfit hread

/-! ### The loop -/

section Loop

variable (hvol : vol.Accepted)

include hvol

lemma passes_sectors : passes 16 vol.bpb.sectorsPerCluster = vol.bpb.sectorsPerCluster :=
  if_neg hvol.spc_pos.ne'

/-- A walk that ends, and whose sectors fit below the limit, is what the loop does. -/
lemma fatReadLoop_spec {eax : ℕ} {data : List UInt8} (h : ChainReads disk vol eax data) {a : ℕ}
    {s : FileCursor} (hs : s.At a) (heax : s.eax = eax) (ha : a + data.length ≤ 0x90000) :
    ∃ fuel t, fatReadLoop disk vol fuel s = some (false, t) ∧ Writes a data s.toLoader t := by
  induction h generalizing a s with
  | eof heof =>
    subst heax
    exact ⟨1, s.toLoader, by rw [fatReadLoop, if_pos heof], .refl a _⟩
  | @cluster eax eax' data rest heof hdata hnext hrest ih =>
    subst heax
    rw [List.length_append] at ha
    have hcursor : FileCursor.At { s with eax := fatClusterToLba vol (s.eax % 2 ^ 16) } a :=
      ⟨hs.address, hs.bx_lt⟩
    have hlen := sectorsAt_length hdata
    obtain ⟨hnone, -⟩ | ⟨data', t, hdata', hread, ht, hw⟩ :=
      readSectors_spec disk vol.bpb.sectorsPerCluster hcursor (by omega)
    · rw [hdata] at hnone
      exact absurd hnone (by simp)
    obtain rfl : data = data' := Option.some.inj (hdata.symm.trans hdata')
    obtain ⟨hnone, -⟩ | ⟨eax'', u, hnext', hcode, hu⟩ := fatNextCluster_spec disk
      t.toLoader hvol (Nat.mod_lt s.eax (Nat.two_pow_pos 16)) (a + data.length)
    · rw [hnext] at hnone
      exact absurd hnone (by simp)
    obtain rfl : eax' = eax'' := Option.some.inj (hnext.symm.trans hnext')
    rw [← hlen] at ht
    obtain ⟨fuel, v, hloop, hv⟩ := @ih (a + data.length) { t with toLoader := u, eax := eax' }
      ⟨ht.address, ht.bx_lt⟩ rfl (by omega)
    refine ⟨fuel + 1, v, ?_, hw.trans ?_⟩
    · rw [fatReadLoop, if_neg (by simpa using heof)]
      dsimp only
      rw [passes_sectors hvol, hread, Option.bind_eq_bind, Option.bind_some, hcode,
        Option.bind_eq_bind, Option.bind_some]
      exact hloop
    · have := hu.trans hv
      simpa using this

/-- One pass of the loop, in a run that returns. -/
lemma fatReadLoop_succ {fuel : ℕ} {s : FileCursor} {r : Bool × Loader}
    (h : fatReadLoop disk vol (fuel + 1) s = some r) :
    (fatClusterIsEof vol s.eax = true ∧ r = (false, s.toLoader)) ∨
      (fatClusterIsEof vol s.eax = false ∧ ∃ t eax u,
        readSectors disk vol.bpb.sectorsPerCluster
          { s with eax := fatClusterToLba vol (s.eax % 2 ^ 16) } = some t ∧
        nextEax disk vol (s.eax % 2 ^ 16) = some eax ∧ (∀ a, Writes a [] t.toLoader u) ∧
        fatReadLoop disk vol fuel { t with toLoader := u, eax := eax } = some r) := by
  rw [fatReadLoop] at h
  split_ifs at h with heof
  · exact Or.inl ⟨heof, (Option.some.inj h).symm⟩
  · dsimp only at h
    rw [passes_sectors hvol] at h
    obtain ⟨t, ht, h⟩ := Option.bind_eq_some_iff.1 h
    have hlt : s.eax % 2 ^ 16 < 2 ^ 16 := Nat.mod_lt _ (Nat.two_pow_pos 16)
    obtain ⟨-, hcode⟩ | ⟨eax, u, hnext, hcode, -⟩ :=
      fatNextCluster_spec disk t.toLoader hvol hlt 0
    · rw [hcode] at h
      exact absurd h (by simp)
    · refine Or.inr ⟨by simpa using heof, t, eax, u, ht, hnext, fun a => ?_, ?_⟩
      · obtain ⟨hnone, -⟩ | ⟨eax', u', hnext', hcode', hw⟩ :=
          fatNextCluster_spec disk t.toLoader hvol hlt a
        · rw [hnext] at hnone
          exact absurd hnone (by simp)
        · rw [hcode] at hcode'
          obtain ⟨-, -, rfl⟩ := Prod.mk.inj (Option.some.inj hcode')
          exact hw
      · rw [hcode, Option.bind_eq_bind, Option.bind_some] at h
        exact h

lemma fatReadLoop_calls {fuel : ℕ} {s : FileCursor} {r : Bool × Loader}
    (h : fatReadLoop disk vol fuel s = some r) : s.calls <:+ r.2.calls := by
  induction fuel generalizing s with
  | zero => exact absurd h (by simp [fatReadLoop])
  | succ fuel ih =>
    obtain ⟨-, rfl⟩ | ⟨-, t, eax, u, hread, -, hw, hloop⟩ := fatReadLoop_succ hvol h
    · exact List.suffix_rfl
    · obtain ⟨l, hl, -⟩ := (hw 0).calls
      have htu : t.calls <:+ u.calls := ⟨l, hl.symm⟩
      exact ((readSectors_calls hread).trans htu).trans (ih hloop)

/-- A run of the loop that returns and stays below the limit has followed the chain. -/
lemma fatReadLoop_chain {fuel a : ℕ} {s : FileCursor} {cf : Bool} {t : Loader} (hs : s.At a)
    (hlow : tempSectorBuffer + 1024 ≤ a) (ha : a ≤ 0x90000)
    (h : fatReadLoop disk vol fuel s = some (cf, t))
    (hcalls : ∀ call ∈ t.calls, call.InTemp ∨ call.address + 512 ≤ 0x90000) :
    ∃ data, ChainReads disk vol s.eax data ∧ a + data.length ≤ 0x90000 := by
  induction fuel generalizing a s with
  | zero => exact absurd h (by simp [fatReadLoop])
  | succ fuel ih =>
    obtain ⟨heof, -⟩ | ⟨heof, u, eax, v, hread, hnext, hw, hloop⟩ := fatReadLoop_succ hvol h
    · exact ⟨[], .eof heof, ha⟩
    have hcursor : FileCursor.At { s with eax := fatClusterToLba vol (s.eax % 2 ^ 16) } a :=
      ⟨hs.address, hs.bx_lt⟩
    obtain ⟨l, hl, -⟩ := (hw 0).calls
    have hsub : ∀ call ∈ u.calls, call ∈ t.calls := by
      intro call hmem
      refine (fatReadLoop_calls hvol hloop).subset ?_
      change call ∈ v.calls
      rw [hl]
      exact List.mem_append_right _ hmem
    have hfit := readSectors_bound hcursor hlow ha hread
      fun call hmem => hcalls call (hsub call hmem)
    obtain ⟨-, hcode⟩ | ⟨data, u', hdata, hread', hu, -⟩ :=
      readSectors_spec disk _ hcursor hfit
    · rw [hread] at hcode
      exact absurd hcode (by simp)
    obtain rfl : u = u' := Option.some.inj (hread.symm.trans hread')
    obtain ⟨rest, hrest, hle⟩ := @ih (a + 512 * vol.bpb.sectorsPerCluster)
      { u with toLoader := v, eax := eax } ⟨hu.address, hu.bx_lt⟩ (by omega) hfit hloop
    refine ⟨data ++ rest, .cluster heof hdata hnext hrest, ?_⟩
    rw [List.length_append, sectorsAt_length hdata]
    omega

end Loop

/-- A longer run gives the same result. -/
lemma fatReadLoop_mono {fuel fuel' : ℕ} {s : FileCursor} {r : Bool × Loader} (hle : fuel ≤ fuel')
    (h : fatReadLoop disk vol fuel s = some r) : fatReadLoop disk vol fuel' s = some r := by
  induction fuel generalizing fuel' s with
  | zero => exact absurd h (by simp [fatReadLoop])
  | succ fuel ih =>
    obtain ⟨fuel', rfl⟩ : ∃ k, fuel' = k + 1 := ⟨fuel' - 1, by omega⟩
    rw [fatReadLoop] at h ⊢
    split_ifs at h ⊢ with heof
    · exact h
    · obtain ⟨t, ht, h⟩ := Option.bind_eq_some_iff.1 h
      obtain ⟨⟨eax, cf, u⟩, hnext, h⟩ := Option.bind_eq_some_iff.1 h
      refine Option.bind_eq_some_iff.2 ⟨t, ht, Option.bind_eq_some_iff.2 ⟨_, hnext, ?_⟩⟩
      dsimp only at h ⊢
      split_ifs at h ⊢ with hcf
      · exact h
      · exact ih (Nat.le_of_succ_le_succ hle) h

lemma fatReadFile_unique {fuel fuel' : ℕ} {entry : FatEntry} {es bx : ℕ} {s : Loader}
    {r r' : Bool × Loader} (h : fatReadFile disk vol fuel entry es bx s = some r)
    (h' : fatReadFile disk vol fuel' entry es bx s = some r') : r = r' := by
  rw [fatReadFile] at h h'
  split_ifs at h h'
  · exact Option.some.inj (h.symm.trans h')
  · exact Option.some.inj (h.symm.trans h')
  · exact Option.some.inj (h.symm.trans h')
  · have hmax := fatReadLoop_mono (le_max_left fuel fuel') h
    exact Option.some.inj (hmax.symm.trans (fatReadLoop_mono (le_max_right fuel fuel') h'))

/-! ### Termination and bounds -/

/-- `fat_read_file` returns, and every sector that it reads goes to the temporary buffer or
between the destination and the limit. -/
def ReadsInBounds (disk : Disk) (vol : FatVolume) (entry : FatEntry) (es bx : ℕ) (mem : ByteMem) :
    Prop :=
  ∃ fuel cf t, fatReadFile disk vol fuel entry es bx ⟨mem, []⟩ = some (cf, t) ∧
    ∀ call ∈ t.calls,
      call.InTemp ∨ linear es bx ≤ call.address ∧ call.address + 512 ≤ 0x90000

section

variable {entry : FatEntry} {es bx : ℕ} {mem : ByteMem}

/-- `fat_read_file` past its three checks. -/
lemma fatReadFile_eq_loop (hsize : ¬ entry.fileSize = 0)
    (hlimit : ¬ 0x90000 ≤ u32 (linear es bx + entry.fileSize)) (hcluster : ¬ entry.clusterLo < 2)
    (fuel : ℕ) (s : Loader) : fatReadFile disk vol fuel entry es bx s =
      fatReadLoop disk vol fuel { toLoader := s, eax := entry.clusterLo, es, bx } := by
  rw [fatReadFile, if_neg hsize, if_neg hlimit, if_neg hcluster]

lemma ReadsInBounds.chain (hvol : vol.Accepted) (hbx : bx < 2 ^ 16)
    (hlow : 0x10000 ≤ linear es bx) (hhigh : linear es bx ≤ 0x90000)
    (h : ReadsInBounds disk vol entry es bx mem) :
    entry.fileSize = 0 ∨ 0x90000 ≤ u32 (linear es bx + entry.fileSize) ∨ entry.clusterLo < 2 ∨
      ∃ data, ChainReads disk vol entry.clusterLo data ∧
        linear es bx + data.length ≤ 0x90000 := by
  obtain ⟨fuel, cf, t, hrun, hcalls⟩ := h
  by_cases hsize : entry.fileSize = 0
  · exact Or.inl hsize
  by_cases hlimit : 0x90000 ≤ u32 (linear es bx + entry.fileSize)
  · exact Or.inr (Or.inl hlimit)
  by_cases hcluster : entry.clusterLo < 2
  · exact Or.inr (Or.inr (Or.inl hcluster))
  rw [fatReadFile_eq_loop hsize hlimit hcluster] at hrun
  refine Or.inr (Or.inr (Or.inr ?_))
  refine fatReadLoop_chain hvol ⟨rfl, hbx⟩ ?_ hhigh hrun fun call hmem =>
    (hcalls call hmem).imp_right And.right
  exact le_trans (by decide) hlow

/-- On a volume that `fat_init` accepts, `fat_read_file` returns and stays within its limit
if and only if one of its checks fails at once, or the cluster chain ends, can be read and
fits below the limit. -/
theorem readsInBounds_iff {s₀ s₁ : Loader} (hinit : fatInit disk s₀ = some (some vol, s₁))
    (hbx : bx < 2 ^ 16) (hlow : 0x10000 ≤ linear es bx) (hhigh : linear es bx ≤ 0x90000) :
    ReadsInBounds disk vol entry es bx mem ↔
      entry.fileSize = 0 ∨ 0x90000 ≤ u32 (linear es bx + entry.fileSize) ∨ entry.clusterLo < 2 ∨
        ∃ data, ChainReads disk vol entry.clusterLo data ∧
          linear es bx + data.length ≤ 0x90000 := by
  have hvol := fatInit_accepted hinit
  refine ⟨fun h => h.chain hvol hbx hlow hhigh, fun h => ?_⟩
  by_cases hsize : entry.fileSize = 0
  · exact ⟨0, true, _, by rw [fatReadFile, if_pos hsize], by simp⟩
  by_cases hlimit : 0x90000 ≤ u32 (linear es bx + entry.fileSize)
  · exact ⟨0, true, _, by rw [fatReadFile, if_neg hsize, if_pos hlimit], by simp⟩
  by_cases hcluster : entry.clusterLo < 2
  · exact ⟨0, true, _, by rw [fatReadFile, if_neg hsize, if_neg hlimit, if_pos hcluster], by simp⟩
  obtain ⟨data, hchain, hfit⟩ := ((h.resolve_left hsize).resolve_left hlimit).resolve_left hcluster
  obtain ⟨fuel, t, hrun, hw⟩ := @fatReadLoop_spec disk vol hvol _ _ hchain (linear es bx)
    { toLoader := ⟨mem, []⟩, eax := entry.clusterLo, es, bx } ⟨rfl, hbx⟩ rfl hfit
  refine ⟨fuel, false, t, by rw [fatReadFile_eq_loop hsize hlimit hcluster, hrun],
    fun call hmem => ?_⟩
  obtain ⟨l, hl, hcalls⟩ := hw.calls
  rw [hl, List.append_nil] at hmem
  exact (hcalls call hmem).imp_right fun h => ⟨h.1, h.2.trans hfit⟩

end

/-- A file of one cluster. -/
theorem readsInBounds_iff_cluster :
    ReadsInBounds (floppyDisk fun x => [0, 0, 0, 0xFF, 0x0F].getD x 0) floppyVolume
      ⟨2, 512, by decide, by decide⟩ 0x1000 0 fun _ => 0 := by
  obtain ⟨s, hs⟩ := fatInit_floppy (fun x => [0, 0, 0, 0xFF, 0x0F].getD x 0) ⟨fun _ => 0, []⟩
  have hlast : ChainReads (floppyDisk fun x => [0, 0, 0, 0xFF, 0x0F].getD x 0) floppyVolume
      0xFFF [] := .eof (by decide)
  refine (readsInBounds_iff hs (by decide) (by decide) (by decide)).2 ?_
  refine Or.inr (Or.inr (Or.inr ⟨_, .cluster (by decide) rfl (by decide) hlast, ?_⟩))
  simp only [List.append_nil, ByteMem.length_bytes]
  decide

/-- A chain that leads back to its first cluster is followed for ever. -/
theorem readsInBounds_cycle :
    let disk := floppyDisk fun x => [0, 0, 0, 2].getD x 0
    (∃ s t, fatInit disk s = some (some floppyVolume, t)) ∧
    ¬ ReadsInBounds disk floppyVolume ⟨2, 512, by decide, by decide⟩ 0x1000 0 fun _ => 0 := by
  intro disk
  obtain ⟨t, ht⟩ := fatInit_floppy (fun x => [0, 0, 0, 2].getD x 0) ⟨fun _ => 0, []⟩
  refine ⟨⟨_, t, ht⟩, fun h => ?_⟩
  have hcycle : ∀ eax data, ChainReads disk floppyVolume eax data → eax ≠ 2 := by
    intro eax data hchain
    induction hchain with
    | eof heof =>
      rintro rfl
      exact absurd heof (by decide)
    | cluster heof hdata hnext hrest ih =>
      rintro rfl
      exact ih (Option.some.inj hnext).symm
  obtain h | h | h | ⟨data, hchain, -⟩ :=
    h.chain (fatInit_accepted ht) (by decide) (by decide) (by decide)
  · exact absurd h (by decide)
  · exact absurd h (by decide)
  · exact absurd h (by decide)
  · exact hcycle 2 data hchain rfl

end Gummy
