import Gummy.Fat.Volume

/-!
Looking a name up in the root directory.

`findLoop` stops at the first live entry with the name, at the end marker, or after the
last entry; `.error` falls into `.end`, so that the carry flag is clear on every exit.
-/

namespace Gummy

open CWord

variable {disk : Disk} {vol : FatVolume} {name : List UInt8} {s : Loader}

/-- The 32 bytes of entry `i`, as the disk has them. -/
def rootEntry (disk : Disk) (vol : FatVolume) (i : ℕ) : Option (List UInt8) :=
  (disk.sector (u32 (vol.firstRootDirSector + i / 16))).map fun data =>
    data.bytes (32 * (i % 16)) 32

/-- Entry `i` lies before the end marker, is not deleted and has the name. -/
def RootMatch (disk : Disk) (vol : FatVolume) (name : List UInt8) (i : ℕ) : Prop :=
  (∀ j ≤ i, ∃ entry, rootEntry disk vol j = some entry ∧ entry.head? ≠ some 0) ∧
    ∃ entry, rootEntry disk vol i = some entry ∧ entry.head? ≠ some 0xE5 ∧ entry.take 11 = name

/-- What `fat_find_in_root_dir` is to answer: the carry flag is clear if and only if an
entry within the directory has the name, and then `EAX` is the index of the first one. -/
def FindsFirst (disk : Disk) (vol : FatVolume) (name : List UInt8) (s : Loader) : Prop :=
  ∃ eax cf s', fatFindInRootDir disk vol name s = some (eax, cf, s') ∧
    (cf = false ↔ ∃ i < vol.bpb.rootDirEntries, RootMatch disk vol name i) ∧
    ∀ i < vol.bpb.rootDirEntries, RootMatch disk vol name i →
      (∀ j < i, ¬ RootMatch disk vol name j) → eax = i

/-! ### One entry -/

/-- Bytes of a sector, read back from where it was stored. -/
lemma bytes_store_sector (m data : ByteMem) (a : ℕ) {i n : ℕ} (h : i + n ≤ 512) :
    (m.store a (data.bytes 0 512)).bytes (a + i) n = data.bytes i n := by
  refine List.map_congr_left fun k hk => ?_
  have hlt := List.mem_range.1 hk
  rw [Nat.add_assoc, ByteMem.store_bytes_add _ _ _ _ (by omega), Nat.zero_add]

/-- `fat_read_root_dir` copies the entry that the disk has. -/
lemma fatReadRootDir_spec (s : Loader) {i : ℕ} (hi : i < 2 ^ 16) :
    (rootEntry disk vol i = none ∧ fatReadRootDir disk vol s i = none) ∨
      ∃ entry s', rootEntry disk vol i = some entry ∧
        fatReadRootDir disk vol s i = some (entry, s') := by
  have hpos : u32 (i * 32) = 32 * i := by
    rw [Nat.mul_comm]
    exact u32_of_lt (by omega)
  have hdiv : 32 * i / 512 = i / 16 := by omega
  have hmod : 32 * i % 512 = 32 * (i % 16) := by omega
  rw [rootEntry, fatReadRootDir, hpos, hdiv, hmod, Nat.add_comm (i / 16), diskReadSector]
  cases disk.sector (u32 (vol.firstRootDirSector + i / 16)) with
  | none => exact Or.inl ⟨rfl, rfl⟩
  | some data =>
    have hbytes := bytes_store_sector s.mem data (linear 80 0)
      (show 32 * (i % 16) + 32 ≤ 512 by omega)
    exact Or.inr ⟨_, _, rfl, congrArg some (Prod.ext hbytes rfl)⟩

/-! ### The scan -/

/-- Every exit leaves the carry flag clear. -/
lemma findLoop_carry {n eax : ℕ} {r : ℕ × Bool × Loader}
    (h : findLoop disk vol name n eax s = some r) : r.2.1 = false := by
  induction n generalizing eax s with
  | zero =>
    obtain rfl := Option.some.inj h
    rfl
  | succ n ih =>
    rw [findLoop] at h
    obtain ⟨⟨entry, t⟩, -, h⟩ := Option.bind_eq_some_iff.1 h
    dsimp only at h
    split_ifs at h with hend hmatch
    · obtain rfl := Option.some.inj h
      rfl
    · obtain rfl := Option.some.inj h
      rfl
    · exact ih h

/-- The scan from entry `i` on stops at the first match. -/
lemma findLoop_match {n i k : ℕ} (hmatch : RootMatch disk vol name k)
    (hfirst : ∀ j < k, ¬ RootMatch disk vol name j) (hik : i ≤ k) (hk : k < i + n)
    (hn : i + n ≤ 2 ^ 16) : ∃ t, findLoop disk vol name n i s = some (k, false, t) := by
  induction n generalizing i s with
  | zero => omega
  | succ n ih =>
    obtain ⟨entry, hentry, hlive⟩ := hmatch.1 i hik
    obtain ⟨hnone, -⟩ | ⟨entry', t, hentry', hread⟩ :=
      @fatReadRootDir_spec disk vol s i (by omega)
    · rw [hentry] at hnone
      exact absurd hnone (by simp)
    · obtain rfl : entry = entry' := Option.some.inj (hentry.symm.trans hentry')
      rw [findLoop, hread, Option.bind_eq_bind, Option.bind_some]
      dsimp only
      rw [if_neg hlive]
      obtain rfl | hlt := Nat.eq_or_lt_of_le hik
      · -- the entry has the name
        obtain ⟨entry', hentry', hnamed⟩ := hmatch.2
        obtain rfl : entry = entry' := Option.some.inj (hentry.symm.trans hentry')
        rw [if_pos hnamed]
        exact ⟨t, rfl⟩
      · rw [if_neg, u32_of_lt (by omega)]
        · exact ih (by omega) (by omega) (by omega)
        · intro hnamed
          exact hfirst i hlt ⟨fun j hj => hmatch.1 j (hj.trans hlt.le), entry, hentry, hnamed⟩

lemma fatFindInRootDir_carry {r : ℕ × Bool × Loader}
    (h : fatFindInRootDir disk vol name s = some r) : r.2.1 = false :=
  findLoop_carry h

lemma passes_of_pos {w n : ℕ} (h : 1 ≤ n) : passes w n = n := if_neg (by omega)

/-- `fat_find_in_root_dir` answers as it should if and only if some entry has the name. -/
theorem findsFirst_iff (hcount : 1 ≤ vol.bpb.rootDirEntries) :
    FindsFirst disk vol name s ↔
      ∃ i < vol.bpb.rootDirEntries, RootMatch disk vol name i := by
  constructor
  · rintro ⟨eax, cf, s', hfind, hcarry, -⟩
    exact hcarry.1 (fatFindInRootDir_carry hfind)
  · rintro ⟨i, hi, hmatch⟩
    classical
    have hex : ∃ k, RootMatch disk vol name k := ⟨i, hmatch⟩
    have hle : Nat.find hex ≤ i := Nat.find_min' hex hmatch
    have hentries := vol.bpb.rootDirEntries_lt
    obtain ⟨t, ht⟩ := findLoop_match (s := s) (i := 0) (n := vol.bpb.rootDirEntries)
      (Nat.find_spec hex) (fun j hj => Nat.find_min hex hj) (Nat.zero_le _) (by omega) (by omega)
    refine ⟨Nat.find hex, false, t, ?_, ⟨fun _ => ⟨i, hi, hmatch⟩, fun _ => rfl⟩,
      fun j _ hj hfirst => ?_⟩
    · rw [fatFindInRootDir, passes_of_pos hcount]
      exact ht
    · refine le_antisymm (Nat.find_min' hex hj) (Nat.le_of_not_lt fun hlt => ?_)
      exact hfirst _ hlt (Nat.find_spec hex)

/-- `kernel_file` -/
def kernelFile : List UInt8 := [75, 69, 82, 78, 69, 76, 32, 32, 83, 89, 83]

/-- A file whose entry is the first one is found. -/
theorem findsFirst_iff_kernel :
    FindsFirst (fun _ lba => some fun x => if lba = 19 then kernelFile.getD x 0 else 0)
      floppyVolume kernelFile ⟨fun _ => 0, []⟩ := by
  refine (findsFirst_iff (by decide)).2 ⟨0, by decide, ?_, _, rfl, by decide, by decide⟩
  intro j hj
  obtain rfl : j = 0 := by omega
  exact ⟨_, rfl, by decide⟩

/-- In an empty directory a name is found at the end marker. -/
theorem findsFirst_empty :
    (∃ t, fatFindInRootDir (fun _ _ => some fun _ => 0) floppyVolume kernelFile ⟨fun _ => 0, []⟩ =
      some (0, false, t)) ∧
    ¬ FindsFirst (fun _ _ => some fun _ => 0) floppyVolume kernelFile ⟨fun _ => 0, []⟩ := by
  have hfirst : ∃ entry, rootEntry (fun _ _ => some fun _ => 0) floppyVolume 0 = some entry ∧
      entry.head? = some 0 := ⟨_, rfl, rfl⟩
  obtain ⟨entry, hentry, hhead⟩ := hfirst
  constructor
  · obtain ⟨hnone, -⟩ | ⟨entry', t, hentry', hread⟩ :=
      @fatReadRootDir_spec (fun _ _ => some fun _ => 0) floppyVolume ⟨fun _ => 0, []⟩ 0
        (by norm_num)
    · rw [hentry] at hnone
      exact absurd hnone (by simp)
    · obtain rfl : entry = entry' := Option.some.inj (hentry.symm.trans hentry')
      change ∃ t, findLoop _ _ _ (223 + 1) 0 _ = _
      rw [findLoop, hread, Option.bind_eq_bind, Option.bind_some]
      dsimp only
      rw [if_pos hhead]
      exact ⟨t, rfl⟩
  · rintro ⟨eax, cf, s', hfind, hcarry, -⟩
    obtain ⟨i, -, hmatch, -⟩ := hcarry.1 (fatFindInRootDir_carry hfind)
    obtain ⟨entry', hentry', hlive⟩ := hmatch 0 (Nat.zero_le i)
    obtain rfl : entry = entry' := Option.some.inj (hentry.symm.trans hentry')
    exact hlive hhead

end Gummy
