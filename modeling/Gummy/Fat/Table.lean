import Gummy.Fat.Loading
import Gummy.Lib.Packed

/-!
What `fat12_next_cluster` and `fat16_next_cluster` make of the table.

The table is a sequence of packed entries, of twelve bits or of sixteen.  The loader passes
the cluster in all of `EAX`; only the FAT16 routine looks at no more than `AX`.
-/

namespace Gummy

open CWord ByteMem

variable {image : ℕ → ByteMem} {vol : FatVolume} {c : ℕ}

/-- The bytes from sector `first` on.  Sector numbers are words. -/
def tableAt (image : ℕ → ByteMem) (first : ℕ) : ByteMem := fun o =>
  image (u32 (o / 512 + first)) (o % 512)

/-- Twelve bits of the half-word that entry `c` begins in. -/
lemma packedEntry12 (m : ByteMem) (c : ℕ) : PackedEntry 12 m c
    (if c % 2 = 0 then m.read16 (c / 2 + c) &&& 0xFFF else m.read16 (c / 2 + c) / 2 ^ 4) := by
  have hword := m.read16_lt (c / 2 + c)
  split_ifs with heven
  · -- the entry is the low end of the half-word
    rw [show 0xFFF = 2 ^ 12 - 1 from rfl, Nat.and_two_pow_sub_one_eq_mod]
    refine ⟨Nat.mod_lt _ (by norm_num), fun k hk => ?_⟩
    have hbit : 8 * (c / 2 + c) + k = 12 * c + k := by omega
    rw [Nat.testBit_mod_two_pow, decide_eq_true hk, Bool.true_and, testBit_read16 m _ (by omega),
      hbit]
  · -- the entry is its high end
    refine ⟨by omega, fun k hk => ?_⟩
    have hbit : 8 * (c / 2 + c) + (k + 4) = 12 * c + k := by omega
    rw [Nat.testBit_div_two_pow, testBit_read16 m _ (by omega), hbit]

lemma packedEntry16 (m : ByteMem) (c : ℕ) : PackedEntry 16 m c (m.read16 (c * 2)) := by
  refine ⟨m.read16_lt _, fun k hk => ?_⟩
  have hbit : 8 * (c * 2) + k = 16 * c + k := by omega
  rw [testBit_read16 m _ hk, hbit]

/-- The two sectors that `fat12_next_cluster` reads hold both bytes of the half-word. -/
lemma twoSectors_tableAt (image : ℕ → ByteMem) (first o : ℕ) :
    (twoSectors (image (u32 (o / 512 + first))) (image (u32 (u32 (o / 512 + first) + 1)))).read16
      (o % 512) = (tableAt image first).read16 o := by
  have hmod : o % 512 < 512 := Nat.mod_lt o (by norm_num)
  have hnext : u32 (u32 (o / 512 + first) + 1) = u32 (o / 512 + 1 + first) := by
    unfold u32
    omega
  rw [ByteMem.read16, ByteMem.read16, twoSectors, twoSectors, tableAt, tableAt, if_pos hmod, hnext]
  split_ifs with hlt
  · rw [show (o + 1) / 512 = o / 512 by omega, show (o + 1) % 512 = o % 512 + 1 by omega]
  · rw [show (o + 1) / 512 = o / 512 + 1 by omega, show (o + 1) % 512 = o % 512 + 1 - 512 by omega]

/-- What `fat12_next_cluster` returns in `AX`. -/
lemma fat12NextCluster_entry (image : ℕ → ByteMem) (vol : FatVolume) (s : Loader)
    (hc : c < 2 ^ 16) : ∃ eax t, fat12NextCluster (.ofImage image) vol s c = some (eax, t) ∧
      PackedEntry 12 (tableAt image vol.firstFatSector) c (eax % 2 ^ 16) := by
  have hcode := @fat12NextCluster_spec (.ofImage image) { vol with fatType := 12 } s rfl c hc 0
  rw [nextEax, if_pos rfl] at hcode
  obtain ⟨hnone, -⟩ | ⟨eax, t, heax, hcode, -⟩ := hcode
  · cases hnone
  · refine ⟨eax, t, hcode, ?_⟩
    have hentry := packedEntry12 (tableAt image vol.firstFatSector) c
    rw [← twoSectors_tableAt] at hentry
    obtain rfl := Option.some.inj heax
    rw [setLow_mod]
    · exact hentry
    · exact hentry.lt.trans (by norm_num)

/-- What `fat16_next_cluster` returns in `AX`, whatever the upper half of `EAX`. -/
lemma fat16NextCluster_entry (image : ℕ → ByteMem) (vol : FatVolume) (s : Loader) {eax : ℕ}
    (heax : eax % 2 ^ 16 = c) : ∃ eax' t,
      fat16NextCluster (.ofImage image) vol s eax = some (eax', t) ∧
        PackedEntry 16 (tableAt image vol.firstFatSector) c (eax' % 2 ^ 16) := by
  have hc : c < 2 ^ 16 := heax ▸ Nat.mod_lt _ (by norm_num)
  have hlow : fat16NextCluster (.ofImage image) vol s eax =
      fat16NextCluster (.ofImage image) vol s c := by
    rw [fat16NextCluster, fat16NextCluster, heax, Nat.mod_eq_of_lt hc]
  have hcode := @fat16NextCluster_spec (.ofImage image) { vol with fatType := 16 } s rfl c hc 0
  have hkind : ¬ (16 = 12) := by decide
  rw [nextEax, if_neg hkind] at hcode
  obtain ⟨hnone, -⟩ | ⟨eax', t, heax', hcode, -⟩ := hcode
  · cases hnone
  · refine ⟨eax', t, hlow.trans hcode, ?_⟩
    obtain rfl := Option.some.inj heax'
    have hentry := packedEntry16 (tableAt image vol.firstFatSector) c
    -- both bytes lie in the one sector that is read
    have hword : (image (u32 (c * 2 / 512 + vol.firstFatSector))).read16 (c * 2 % 512) =
        (tableAt image vol.firstFatSector).read16 (c * 2) := by
      rw [ByteMem.read16, ByteMem.read16, tableAt, tableAt,
        show (c * 2 + 1) / 512 = c * 2 / 512 by omega,
        show (c * 2 + 1) % 512 = c * 2 % 512 + 1 by omega]
    rw [setLow_mod, hword]
    · exact hentry
    · exact ByteMem.read16_lt _ _

/-- **The table is decoded as it is packed.**  For every table, wherever it begins, and every
cluster, `fat12_next_cluster` returns the cluster's entry of twelve bits and
`fat16_next_cluster` the one of sixteen; so a table that was packed from a list of 12-bit
numbers is read back as that list. -/
theorem nextCluster_decodes (image : ℕ → ByteMem) (vol : FatVolume) (s : Loader)
    (hc : c < 2 ^ 16) :
    (∃ eax t, fat12NextCluster (.ofImage image) vol s c = some (eax, t) ∧
      PackedEntry 12 (tableAt image vol.firstFatSector) c (eax % 2 ^ 16)) ∧
    (∃ eax t, fat16NextCluster (.ofImage image) vol s c = some (eax, t) ∧
      PackedEntry 16 (tableAt image vol.firstFatSector) c (eax % 2 ^ 16)) ∧
    ∀ l : List ℕ, (∀ e ∈ l, e < 2 ^ 12) → c < l.length →
      (∀ a, 8 * a < 12 * l.length → tableAt image vol.firstFatSector a = pack 12 l a) →
        ∃ eax t, fat12NextCluster (.ofImage image) vol s c = some (eax, t) ∧
          l[c]? = some (eax % 2 ^ 16) := by
  have h12 := fat12NextCluster_entry image vol s hc
  refine ⟨h12, fat16NextCluster_entry image vol s (Nat.mod_eq_of_lt hc), ?_⟩
  intro l hl hlt htable
  obtain ⟨eax, t, hcode, hentry⟩ := h12
  have hget : l.getD c 0 = l[c] := List.getD_eq_getElem l 0 hlt
  have hpack : PackedEntry 12 (pack 12 l) c l[c] := by
    rw [← hget]
    exact packedEntry_pack (by norm_num) (hget ▸ hl _ (List.getElem_mem hlt))
  have hsame := hentry.unique (hpack.congr hlt htable)
  refine ⟨eax, t, hcode, ?_⟩
  rw [hsame]
  exact List.getElem?_eq_getElem hlt

theorem nextCluster_decodes_five :
    (∃ eax t, fat12NextCluster (.ofImage fun _ => pack 12 [0, 1, 2, 3, 4, 5]) floppyVolume
      ⟨fun _ => 0, []⟩ 5 = some (eax, t) ∧
      PackedEntry 12 (tableAt (fun _ => pack 12 [0, 1, 2, 3, 4, 5]) 1) 5 (eax % 2 ^ 16)) ∧
    (∃ eax t, fat16NextCluster (.ofImage fun _ => pack 12 [0, 1, 2, 3, 4, 5]) floppyVolume
      ⟨fun _ => 0, []⟩ 5 = some (eax, t) ∧
      PackedEntry 16 (tableAt (fun _ => pack 12 [0, 1, 2, 3, 4, 5]) 1) 5 (eax % 2 ^ 16)) ∧
    ∃ eax t, fat12NextCluster (.ofImage fun _ => pack 12 [0, 1, 2, 3, 4, 5]) floppyVolume
      ⟨fun _ => 0, []⟩ 5 = some (eax, t) ∧ some 5 = some (eax % 2 ^ 16) := by
  have h := nextCluster_decodes (fun _ => pack 12 [0, 1, 2, 3, 4, 5]) floppyVolume
    ⟨fun _ => 0, []⟩ (show 5 < 2 ^ 16 by norm_num)
  have hlt : ∀ e ∈ [0, 1, 2, 3, 4, 5], e < 2 ^ 12 := by decide
  refine ⟨h.1, h.2.1, h.2.2 [0, 1, 2, 3, 4, 5] hlt (by decide) fun a ha => ?_⟩
  simp only [List.length_cons, List.length_nil] at ha
  rw [tableAt, Nat.mod_eq_of_lt (by omega)]

end Gummy
