import Gummy.Vmm.Mapped
import Mathlib.Order.Bounds.Basic
import Mathlib.Order.Interval.Finset.Nat

/-!
`vmm_alloc_pages_region` as a first fit.

`Fits` says where a run of pages could go; the search finds the lowest such place, whatever
wraps in the check before it.  `newTables` counts the page tables that the run is missing,
and with it the frames that mapping the run takes: so many are enough, and with fewer the
call fails.
-/

namespace Gummy

open CWord Machine

variable {m m' : Machine} {virt phys flags f k n start stop a : ℕ}

/-! ### The search -/

/-- The `n` pages from the page `a` on lie in the region and are not mapped. -/
structure Machine.Fits (m : Machine) (n start stop a : ℕ) : Prop where
  dvd : pageSize ∣ a
  start_le : start ≤ a
  le_stop : a + n * pageSize ≤ stop
  unmapped : ∀ k < n, m.pageEntry (a + k * pageSize) = none

/-- The search does not miss a run, and finds none behind it.  The run is counted in pages
from where the pages already counted start, so that a page in use cuts off a part of the
region. -/
lemma findRun_le {fuel consecutivePages firstPage j : ℕ} (hlt : consecutivePages < n)
    (hfirst : consecutivePages ≠ 0 → firstPage = start)
    (hfuel : j + n ≤ consecutivePages + fuel)
    (hfree : ∀ k < n, pageMapped m (start + (j + k) * pageSize) = false) :
    ∃ f, findRun m n fuel (start + consecutivePages * pageSize) consecutivePages firstPage =
      some f ∧ f ≤ start + j * pageSize := by
  induction fuel generalizing start consecutivePages firstPage j with
  | zero => omega
  | succ fuel ih =>
    have hnext : start + consecutivePages * pageSize + pageSize =
        start + (consecutivePages + 1) * pageSize := by ring
    rw [findRun]
    by_cases hmap : pageMapped m (start + consecutivePages * pageSize) = true
    · -- the run starts behind this page
      have hj : consecutivePages < j := by
        by_contra hj
        have hpage := hfree (consecutivePages - j) (by omega)
        rw [Nat.add_sub_cancel' (not_lt.1 hj), hmap] at hpage
        cases hpage
      obtain ⟨i, rfl⟩ := Nat.exists_eq_add_of_lt hj
      have hshift : ∀ x, start + (consecutivePages + 1) * pageSize + x * pageSize =
          start + (consecutivePages + x + 1) * pageSize := fun x => by ring
      obtain ⟨f, hf, hle⟩ := @ih (start + (consecutivePages + 1) * pageSize) 0 firstPage i
        (by omega) (fun h0 => absurd rfl h0) (by omega) (fun k hk => by
          rw [hshift, show consecutivePages + (i + k) + 1 = consecutivePages + i + 1 + k by omega]
          exact hfree k hk)
      rw [if_pos hmap]
      dsimp only
      rw [if_neg (by omega), hnext]
      refine ⟨f, ?_, hle.trans_eq (hshift i)⟩
      rwa [Nat.zero_mul, Nat.add_zero] at hf
    · have hstart : (if consecutivePages = 0 then start + consecutivePages * pageSize
          else firstPage) = start := by
        split_ifs with h0
        · rw [h0, Nat.zero_mul, Nat.add_zero]
        · exact hfirst h0
      rw [if_neg hmap]
      dsimp only
      rw [hstart, hnext]
      split_ifs with hn
      · exact ⟨start, rfl, Nat.le_add_right ..⟩
      · exact ih (by omega) (fun _ => rfl) (by omega) hfree

/-- The search of a region that starts at a page boundary. -/
lemma Machine.SelfMapped.findRun_eq (h : m.SelfMapped) (hn : 0 < n) (fuel : ℕ)
    (hdvd : pageSize ∣ start) (hlt : start + fuel * pageSize ≤ 0xFFC00000) :
    (∃ a, findRun m n fuel start 0 0 = some a ∧
        IsLeast {a | m.Fits n start (start + fuel * pageSize) a} a) ∨
      findRun m n fuel start 0 0 = none ∧ ∀ a, ¬ m.Fits n start (start + fuel * pageSize) a := by
  have hmapped : ∀ b, b + n * pageSize ≤ start + fuel * pageSize → ∀ k < n,
      (pageMapped m (b + k * pageSize) = false ↔ m.pageEntry (b + k * pageSize) = none) := by
    intro b hb k hk
    rw [h.pageMapped_eq (by simp only [pageSize] at *; omega), ← pageEntry]
    cases m.pageEntry (b + k * pageSize) <;> simp
  -- a run that fits is found, or a lower one
  have hfits : ∀ b, m.Fits n start (start + fuel * pageSize) b →
      ∃ f, findRun m n fuel start 0 0 = some f ∧ f ≤ b := by
    rintro b ⟨hb, hge, hle, hfree⟩
    obtain ⟨j, rfl⟩ : ∃ j, b = start + j * pageSize := by
      obtain ⟨x, rfl⟩ := hb
      obtain ⟨y, rfl⟩ := hdvd
      refine ⟨x - y, ?_⟩
      simp only [pageSize] at *
      omega
    have hj : j + n ≤ fuel := by
      simp only [pageSize] at hle
      omega
    have hrun := @findRun_le m n start fuel 0 0 j hn (fun h0 => absurd rfl h0) (by omega)
      fun k hk => by
        rw [Nat.add_mul, ← Nat.add_assoc]
        exact (hmapped _ hle k hk).2 (hfree k hk)
    rwa [Nat.zero_mul, Nat.add_zero] at hrun
  cases hfind : findRun m n fuel start 0 0 with
  | none =>
    refine Or.inr ⟨rfl, fun b hb => ?_⟩
    obtain ⟨f, hf, -⟩ := hfits b hb
    rw [hfind] at hf
    cases hf
  | some f =>
    have hsome := @findRun_some m n fuel start 0 0 f hn (fun h0 => absurd rfl h0)
      (fun k hk => absurd hk (Nat.not_lt_zero k))
    rw [Nat.zero_mul, Nat.add_zero, Nat.zero_add] at hsome
    obtain ⟨⟨t, rfl⟩, hle, hrun⟩ := hsome hfind
    refine Or.inl ⟨_, rfl, ⟨Nat.dvd_add hdvd (Nat.dvd_mul_left ..), Nat.le_add_right .., hle,
      fun k hk => (hmapped _ hle k hk).1 (hrun k hk)⟩, fun b hb => ?_⟩
    obtain ⟨f', hf', hle'⟩ := hfits b hb
    rw [hfind] at hf'
    exact (Option.some.inj hf').trans_le hle'

/-- A region keeps its runs when it is cut down to whole pages. -/
lemma Machine.fits_aligned :
    m.Fits n ((start + 4095) / pageSize * pageSize) (stop / pageSize * pageSize) a ↔
      m.Fits n start stop a := by
  constructor
  · rintro ⟨hdvd, hge, hle, hfree⟩
    refine ⟨hdvd, ?_, ?_, hfree⟩
    · simp only [pageSize] at *
      omega
    · exact hle.trans (Nat.div_mul_le_self ..)
  · rintro ⟨⟨x, rfl⟩, hge, hle, hfree⟩
    refine ⟨Nat.dvd_mul_right .., ?_, ?_, hfree⟩
    · simp only [pageSize] at *
      omega
    · simp only [pageSize] at *
      omega

/-- The call finds the lowest run that fits and maps it, or there is none and nothing
happens. -/
lemma Machine.SelfMapped.region_cases (h : m.SelfMapped) (hn : n ≠ 0) (hle : start ≤ stop)
    (hstop : stop ≤ 0xFFC00000) (flags : ℕ) :
    (∃ a, IsLeast {a | m.Fits n start stop a} a ∧ vmmAllocPagesRegion n flags start stop m =
        (if (mapRun flags a n a m).1 then some a else none, (mapRun flags a n a m).2)) ∨
      (∀ a, ¬ m.Fits n start stop a) ∧
        vmmAllocPagesRegion n flags start stop m = (none, m) := by
  have hstart : alignUp 32 start pageSize = (start + 4095) / pageSize * pageSize := by
    rw [show pageSize = 2 ^ 12 by norm_num, alignUp_two_pow (by norm_num), Nat.mod_eq_of_lt,
      Nat.mul_comm]
    all_goals omega
  have hend : alignDown 32 stop pageSize = stop / pageSize * pageSize := by
    rw [show pageSize = 2 ^ 12 by norm_num, alignDown_two_pow (by norm_num) (by omega),
      Nat.mul_comm]
  have hfits : ∀ a, m.Fits n ((start + 4095) / pageSize * pageSize) (stop / pageSize * pageSize) a ↔
      m.Fits n start stop a := fun a => fits_aligned
  rw [vmmAllocPagesRegion, if_neg hn]
  dsimp only
  rw [hstart, hend]
  simp only [← hfits]
  obtain ⟨s, hs⟩ : ∃ s, s = (start + 4095) / pageSize * pageSize := ⟨_, rfl⟩
  obtain ⟨e, he⟩ : ∃ e, e = stop / pageSize * pageSize := ⟨_, rfl⟩
  have hdvd : pageSize ∣ s := hs ▸ Nat.dvd_mul_left ..
  have hedvd : pageSize ∣ e := he ▸ Nat.dvd_mul_left ..
  have hle : e ≤ 0xFFC00000 := he ▸ (Nat.div_mul_le_self ..).trans hstop
  rw [← hs, ← he]
  by_cases hshort : e < u32 (s + n * pageSize)
  · -- the check rejects nothing that would fit
    rw [if_pos hshort]
    refine Or.inr ⟨fun a ha => ?_, rfl⟩
    have hlt : s + n * pageSize ≤ e := (Nat.add_le_add_right ha.start_le _).trans ha.le_stop
    rw [u32_of_lt (by omega)] at hshort
    omega
  rw [if_neg hshort]
  by_cases hse : s ≤ e
  · have hfuel : s + (e - s) / pageSize * pageSize = e := by
      rw [Nat.div_mul_cancel (Nat.dvd_sub hedvd hdvd), Nat.add_sub_cancel' hse]
    have hfind := h.findRun_eq (Nat.pos_of_ne_zero hn) ((e - s) / pageSize) hdvd
      (by rwa [hfuel])
    rw [hfuel] at hfind
    obtain ⟨a, hsome, hleast⟩ | ⟨hnone, hno⟩ := hfind
    · rw [hsome]
      dsimp only
      refine Or.inl ⟨a, hleast, ?_⟩
      rcases mapRun flags a n a m with ⟨_ | _, m'⟩ <;> rfl
    · rw [hnone]
      exact Or.inr ⟨hno, rfl⟩
  · rw [Nat.sub_eq_zero_of_le (not_le.1 hse).le, Nat.zero_div]
    refine Or.inr ⟨fun a ha => ?_, rfl⟩
    have hge := ha.start_le
    have hle' := ha.le_stop
    omega

/-! ### One page of the run -/

/-- The slots of the directory that the run goes through. -/
def slots (start n : ℕ) : Finset ℕ :=
  (Finset.range n).image fun k => getPdeIndex (start + k * pageSize)

/-- The number of slots of the run that have no page table. -/
def Machine.newTables (m : Machine) (start n : ℕ) : ℕ :=
  ((slots start n).filter fun i => ¬ isPresent (m.pde i) = true).card

lemma slots_succ (start n : ℕ) :
    slots start (n + 1) = insert (getPdeIndex start) (slots (start + pageSize) n) := by
  ext i
  simp only [slots, Finset.mem_image, Finset.mem_range, Finset.mem_insert]
  constructor
  · rintro ⟨_ | k, hk, rfl⟩
    · exact Or.inl (by rw [Nat.zero_mul, Nat.add_zero])
    · exact Or.inr ⟨k, by omega, by congr 1; ring⟩
  · rintro (rfl | ⟨k, hk, rfl⟩)
    · exact ⟨0, by omega, by rw [Nat.zero_mul, Nat.add_zero]⟩
    · exact ⟨k + 1, by omega, by congr 1; ring⟩

/-- Once the first page of the run is mapped, its slot has a table. -/
lemma Machine.newTables_succ (hself : isPresent (m'.pde (getPdeIndex start)) = true)
    (hother : ∀ i ∈ slots (start + pageSize) n, i ≠ getPdeIndex start →
      m'.pde i = m.pde i) :
    m.newTables start (n + 1) = m'.newTables (start + pageSize) n +
      if isPresent (m.pde (getPdeIndex start)) = true then 0 else 1 := by
  have hfilter : (slots (start + pageSize) n).filter (fun i => ¬ isPresent (m'.pde i) = true) =
      ((slots (start + pageSize) n).filter fun i => ¬ isPresent (m.pde i) = true).erase
        (getPdeIndex start) := by
    ext i
    simp only [Finset.mem_filter, Finset.mem_erase]
    by_cases hi : i = getPdeIndex start
    · simp [hi, hself]
    · constructor
      · rintro ⟨hmem, hp⟩
        exact ⟨hi, hmem, by rwa [hother i hmem hi] at hp⟩
      · rintro ⟨-, hmem, hp⟩
        exact ⟨hmem, by rwa [hother i hmem hi]⟩
  rw [newTables, newTables, slots_succ, Finset.filter_insert, hfilter]
  by_cases hp : isPresent (m.pde (getPdeIndex start)) = true
  · rw [if_neg (not_not.2 hp), if_pos hp, Finset.erase_eq_of_notMem, Nat.add_zero]
    exact fun hmem => (Finset.mem_filter.1 hmem).2 hp
  · rw [if_pos hp, if_neg hp, ← Finset.erase_insert_eq_erase,
      Finset.card_erase_add_one (Finset.mem_insert_self ..)]

/-- What mapping the page `virt` to the frame `f` has done. -/
structure PageMapped (m m' : Machine) (flags virt f : ℕ) : Prop where
  paging : Paging m'
  entry : ∀ k < 1023, ∀ l < 1024, m'.entryOf k l =
    if k = getPdeIndex virt ∧ l = getPteIndex virt then
      some (f * pageSize ||| flags ||| vmmFlagsPresent) else m.entryOf k l
  present : isPresent (m'.pde (getPdeIndex virt)) = true
  table : isPresent (m.pde (getPdeIndex virt)) = true →
    m'.table (getPdeIndex virt) = m.table (getPdeIndex virt)
  fresh : ¬ isPresent (m.pde (getPdeIndex virt)) = true →
    ∃ g, m'.table (getPdeIndex virt) = g * pageSize ∧ m.pmm.Free g ∧ g ≠ f
  pde : ∀ k < 1024, k ≠ getPdeIndex virt → m'.pde k = m.pde k
  free : ∀ g, m'.pmm.Free g → m.pmm.Free g ∧ g ≠ f
  room : ∀ j, m'.Room j ↔
    m.Room (j + 1 + if isPresent (m.pde (getPdeIndex virt)) = true then 0 else 1)

/-- Taking a free frame leaves the tables alone. -/
lemma Paging.withPmm (h : Paging m) {pmm : Pmm} (hbits : pmm.bitmapBits = m.pmm.bitmapBits)
    (hfree : ∀ g, pmm.Free g → m.pmm.Free g) : Paging { m with pmm } where
  self := h.self.withPmm pmm
  valid := ⟨hbits.trans_le h.valid.bits_le, fun h0 => h.valid.zero_used (hfree 0 h0)⟩
  table_ne := h.table_ne
  table_inj := h.table_inj
  table_pos := h.table_pos
  used i hi hp hg := h.used i hi hp (hfree _ hg)
  covers := h.covers

/-- With one frame fewer there is room for one frame fewer. -/
lemma Machine.room_iff_take (hf : m.pmm.Free f) (hfree : ∀ g, m'.pmm.Free g ↔ m.pmm.Free g ∧ g ≠ f)
    (k : ℕ) : m'.Room k ↔ m.Room (k + 1) := by
  refine ⟨?_, fun h => h.take hfree⟩
  rintro ⟨F, hcard, hF⟩
  have hmem : f ∉ F := fun hmem => ((hfree f).1 (hF f hmem)).2 rfl
  refine ⟨insert f F, ?_, fun g hg => ?_⟩
  · rw [Finset.card_insert_of_notMem hmem]
    exact Nat.succ_le_succ hcard
  · obtain rfl | hg := Finset.mem_insert.1 hg
    · exact hf
    · exact ((hfree g).1 (hF g hg)).1

/-- `vmm_map` through a table that is there. -/
lemma Paging.map_present (h : Paging m) (hv : virt < 0xFFC00000) (hflags : flags < pageSize)
    (hp : isPresent (m.pde (getPdeIndex virt)) = true) (hlt : f * pageSize < 2 ^ 32) :
    ∃ m', vmmMap m virt (f * pageSize) flags = (true, m') ∧ Paging m' ∧ m'.pmm = m.pmm ∧
      isPresent (m'.pde (getPdeIndex virt)) = true ∧
      m'.table (getPdeIndex virt) = m.table (getPdeIndex virt) ∧
      (∀ k < 1024, k ≠ getPdeIndex virt → m'.pde k = m.pde k) ∧
      ∀ k < 1023, ∀ l < 1024, m'.entryOf k l =
        if k = getPdeIndex virt ∧ l = getPteIndex virt then
          some (f * pageSize ||| flags ||| vmmFlagsPresent) else m.entryOf k l := by
  have hi := getPdeIndex_lt_window hv
  have ht := h.table_ne _ hi hp
  have hmap : vmmMap m virt (f * pageSize) flags = _ :=
    vmmMap_of_present h.self hv (hflags.trans (by norm_num)) hp
  have hpde : ∀ k < 1024, _ := fun k hk => pde_mapPresent (j := getPteIndex virt)
    (v := f * pageSize ||| flags ||| vmmFlagsPresent) h.self (getPteIndex_lt virt) hk hflags ht
  obtain ⟨m', heq, hm', hentry⟩ | ⟨heq, -⟩ := h.map hv (Nat.dvd_mul_left ..) hlt hflags
  swap
  · exact absurd (congrArg Prod.fst (hmap.symm.trans heq)) (by simp)
  obtain rfl := congrArg Prod.snd (heq.symm.trans hmap)
  refine ⟨_, heq, hm', rfl, ?_, ?_, fun k hk hki => ?_, hentry⟩
  · rw [hpde _ (hi.trans (by norm_num)), if_pos rfl, isPresent_or, hp, Bool.true_or]
  · rw [table, hpde _ (hi.trans (by norm_num)), if_pos rfl, frameAddr_or_flags (m.pde_lt _) hflags,
      table]
  · rw [hpde k hk, if_neg hki]

/-- One turn of the mapping loop.  Without a free frame it fails at once; with a single free
frame and no page table it fails in `vmm_map`, which changes nothing; otherwise the lowest
free frame is mapped. -/
lemma Paging.turn (h : Paging m) (hv : virt < 0xFFC00000) (hflags : flags < pageSize) :
    (pmmAllocPage m.pmm = (0, m.pmm) ∧ ∀ g, ¬ m.pmm.Free g) ∨
      ∃ f pmm, pmmAllocPage m.pmm = (f * pageSize, pmm) ∧ f * pageSize ≠ 0 ∧ m.pmm.Free f ∧
        Paging { m with pmm } ∧ pmm.bitmapBits = m.pmm.bitmapBits ∧
        (∀ g, pmm.Free g ↔ m.pmm.Free g ∧ g ≠ f) ∧
        ((∃ m', vmmMap { m with pmm } virt (f * pageSize) flags = (true, m') ∧
            PageMapped m m' flags virt f) ∨
          vmmMap { m with pmm } virt (f * pageSize) flags = (false, { m with pmm }) ∧
            ¬ isPresent (m.pde (getPdeIndex virt)) = true ∧ ¬ m.Room 2) := by
  obtain hnone | ⟨f, pmm, halloc, hpos, hfree, -, hbits, hpmm⟩ := pmmAllocPage_spec h.valid
  · exact Or.inl hnone
  have hnew := h.newFrame hpos hfree
  have h' := h.withPmm hbits fun g hg => ((hpmm g).1 hg).1
  have hroom : ∀ j, ({ m with pmm } : Machine).Room j ↔ m.Room (j + 1) :=
    room_iff_take hfree hpmm
  refine Or.inr ⟨f, pmm, halloc, hnew.ne_zero, hfree, h', hbits, hpmm, ?_⟩
  by_cases hp : isPresent (m.pde (getPdeIndex virt)) = true
  · obtain ⟨m', heq, hm', hpmm', hpresent, htable, hpde, hentry⟩ :=
      h'.map_present hv hflags hp hnew.lt
    refine Or.inl ⟨m', heq, hm', hentry, hpresent, fun _ => htable, fun hn => absurd hp hn, hpde,
      fun g hg => ?_, fun j => ?_⟩
    · rw [hpmm'] at hg
      exact (hpmm g).1 hg
    · rw [if_pos hp, Nat.add_zero, ← hroom j, Room, Room, hpmm']
  · obtain ⟨halloc', hnone⟩ | ⟨g, pmm', -, -, hfree', hlow, -, -⟩ := pmmAllocPage_spec h'.valid
    · refine Or.inr ⟨vmmMap_full h'.self (hv.trans (by norm_num)) hp halloc', hp, fun htwo => ?_⟩
      obtain ⟨g, hg⟩ := ((hroom 1).2 htwo).exists_free
      exact hnone g hg
    · obtain ⟨m', heq, hm', hpresent, htable, hpde, hpmm', -, -⟩ :=
        h'.map_new hv (Nat.dvd_mul_left ..) hnew.lt hflags hp hfree' hlow
      obtain ⟨m₁, heq₁, -, hentry⟩ | ⟨heq₁, -⟩ := h'.map hv (Nat.dvd_mul_left ..) hnew.lt hflags
      swap
      · exact absurd (congrArg Prod.fst (heq.symm.trans heq₁)) (by simp)
      obtain rfl : m' = m₁ := congrArg Prod.snd (heq.symm.trans heq₁)
      have hg := (hpmm g).1 hfree'
      refine Or.inl ⟨m', heq, hm', hentry, hpresent, fun hp' => absurd hp' hp,
        fun _ => ⟨g, htable, hg⟩, hpde, fun x hx => (hpmm x).1 ((hpmm' x).1 hx).1, fun j => ?_⟩
      rw [if_neg hp, ← hroom, room_iff_take hfree' hpmm']

/-! ### The whole run -/

/-- What the mapping loop has done when it has mapped the `n` pages from `start` on: each to a
frame of its own that was free, and no other page.  Tables that were there are still there,
and only slots of the run have new ones. -/
structure RunMapped (m m' : Machine) (flags start n : ℕ) : Prop where
  paging : Paging m'
  frames : ∃ frame : ℕ → ℕ, Set.InjOn frame (Set.Iio n) ∧ ∀ k < n, m.pmm.Free (frame k) ∧
    m'.pageEntry (start + k * pageSize) =
      some (frame k * pageSize ||| flags ||| vmmFlagsPresent)
  rest : ∀ v < 0xFFC00000, v < start ∨ start + n * pageSize ≤ v → m'.pageEntry v = m.pageEntry v
  tables : ∀ i < 1023, isPresent (m.pde i) = true →
    isPresent (m'.pde i) = true ∧ m'.table i = m.table i
  pde : ∀ i < 1023, i ∉ slots start n → m'.pde i = m.pde i

lemma RunMapped.refl (h : Paging m) (flags start : ℕ) : RunMapped m m flags start 0 where
  paging := h
  frames := ⟨id, Function.injective_id.injOn, fun k hk => absurd hk (Nat.not_lt_zero k)⟩
  rest _ _ _ := rfl
  tables _ _ hp := ⟨hp, rfl⟩
  pde _ _ _ := rfl

/-- One page more, in front. -/
lemma RunMapped.cons {m'' : Machine} (hdvd : pageSize ∣ start) (hlt : start < 0xFFC00000)
    (hfree : m.pmm.Free f) (hpage : PageMapped m m' flags start f)
    (h : RunMapped m' m'' flags (start + pageSize) n) : RunMapped m m'' flags start (n + 1) := by
  obtain ⟨frame, hinj, hframe⟩ := h.frames
  have hshift : ∀ k, start + pageSize + k * pageSize = start + (k + 1) * pageSize := fun k => by
    ring
  refine ⟨h.paging, ⟨fun | 0 => f | k + 1 => frame k, ?_, ?_⟩, fun v hv hout => ?_,
    fun i hi hp => ?_,
    fun i hi hnot => ?_⟩
  · -- the frame of the first page is not free when the others are taken
    have hne : ∀ k < n, f ≠ frame k := fun k hk heq =>
      (hpage.free _ (hframe k hk).1).2 heq.symm
    rintro (_ | j) hj (_ | k) hk heq
    · rfl
    · exact absurd heq (hne k (Nat.lt_of_succ_lt_succ hk))
    · exact absurd heq.symm (hne j (Nat.lt_of_succ_lt_succ hj))
    · exact congrArg Nat.succ
        (hinj (Nat.lt_of_succ_lt_succ hj) (Nat.lt_of_succ_lt_succ hk) heq)
  · rintro (_ | k) hk
    · refine ⟨hfree, ?_⟩
      rw [Nat.zero_mul, Nat.add_zero, h.rest start hlt (Or.inl (by simp [pageSize])), pageEntry,
        hpage.entry _ (getPdeIndex_lt_window hlt) _ (getPteIndex_lt _), if_pos ⟨rfl, rfl⟩]
    · obtain ⟨hfree', hentry⟩ := hframe k (Nat.lt_of_succ_lt_succ hk)
      rw [hshift] at hentry
      exact ⟨(hpage.free _ hfree').1, hentry⟩
  · rw [← hshift] at hout
    rw [h.rest v hv (hout.imp_left fun hv' => hv'.trans_le (Nat.le_add_right ..)), pageEntry,
      hpage.entry _ (getPdeIndex_lt_window hv) _ (getPteIndex_lt v), if_neg]
    · rfl
    · intro hsame
      have hpage := page_eq_iff.1 hsame
      obtain ⟨x, rfl⟩ := hdvd
      simp only [pageSize] at *
      omega
  · have hkept : isPresent (m'.pde i) = true ∧ m'.table i = m.table i := by
      by_cases hi' : i = getPdeIndex start
      · subst hi'
        exact ⟨hpage.present, hpage.table hp⟩
      · rw [table, hpage.pde i (by omega) hi']
        exact ⟨hp, rfl⟩
    obtain ⟨hp', htable⟩ := h.tables i hi hkept.1
    exact ⟨hp', htable.trans hkept.2⟩
  · rw [slots_succ, Finset.mem_insert, not_or] at hnot
    rw [h.pde i hi hnot.2, hpage.pde i (by omega) hnot.1]

/-- The mapping loop succeeds if there are as many free frames as pages and missing page tables,
and only then. -/
lemma Paging.mapRun (h : Paging m) (hflags : flags < pageSize) (hdvd : pageSize ∣ start)
    (hle : start + n * pageSize ≤ 0xFFC00000) (firstPage : ℕ) :
    (m.Room (n + m.newTables start n) → ∃ m', mapRun flags firstPage n start m = (true, m') ∧
        RunMapped m m' flags start n) ∧
      (¬ m.Room (n + m.newTables start n) → (mapRun flags firstPage n start m).1 = false) := by
  induction n generalizing m start with
  | zero =>
    refine ⟨fun _ => ⟨m, rfl, .refl h flags start⟩, fun hroom => absurd ⟨∅, ?_, by simp⟩ hroom⟩
    simp [newTables, slots]
  | succ n ih =>
    have hlt : start < 0xFFC00000 := by
      simp only [pageSize] at hle
      omega
    have hnext : start + pageSize + n * pageSize = start + (n + 1) * pageSize := by ring
    have hdvd' : pageSize ∣ start + pageSize := Nat.dvd_add hdvd (Nat.dvd_refl _)
    unfold Gummy.mapRun
    dsimp only
    obtain ⟨halloc, hnone⟩ | ⟨f, pmm, halloc, hne, hfree, -, -, -, hmap⟩ := h.turn hlt hflags
    · rw [halloc, if_pos rfl]
      refine ⟨fun hroom => ?_, fun _ => rfl⟩
      obtain ⟨g, hg⟩ := (hroom.mono (j := 0 + 1) (by omega) fun _ hg => hg).exists_free
      exact absurd hg (hnone g)
    rw [halloc, if_neg hne]
    dsimp only
    obtain ⟨m', heq, hpage⟩ | ⟨heq, hp, htwo⟩ := hmap
    · rw [heq]
      dsimp only
      have hneed := newTables_succ (m := m) (n := n) hpage.present fun i hi hne => by
        refine hpage.pde i ?_ hne
        obtain ⟨k, hk, rfl⟩ := Finset.mem_image.1 hi
        have hk := Finset.mem_range.1 hk
        refine getPdeIndex_lt ?_
        simp only [pageSize] at *
        omega
      have hroom : m.Room (n + 1 + m.newTables start (n + 1)) ↔
          m'.Room (n + m'.newTables (start + pageSize) n) := by
        rw [hpage.room, hneed]
        exact iff_of_eq (congrArg m.Room (by omega))
      obtain ⟨hok, hfail⟩ := ih hpage.paging hdvd' (hnext.trans_le hle)
      rw [hroom]
      refine ⟨fun hr => ?_, hfail⟩
      obtain ⟨m'', hrun, hmapped⟩ := hok hr
      exact ⟨m'', hrun, hmapped.cons hdvd hlt hfree hpage⟩
    · rw [heq]
      dsimp only
      refine ⟨fun hroom => absurd (hroom.mono ?_ fun _ hg => hg) htwo, fun _ => rfl⟩
      have hmem : getPdeIndex start ∈ (slots start (n + 1)).filter
          fun i => ¬ isPresent (m.pde i) = true := by
        rw [slots_succ, Finset.mem_filter]
        exact ⟨Finset.mem_insert_self .., hp⟩
      have hpos : 0 < m.newTables start (n + 1) := Finset.card_pos.2 ⟨_, hmem⟩
      omega

/-! ### The call -/

/-- In the window, page `i` is the page table of slot `i`. -/
lemma Machine.SelfMapped.translate_tables (h : m.SelfMapped) (hge : 0xFFC00000 ≤ virt)
    (hlt : virt < 2 ^ 32) : m.translate virt =
      if isPresent (m.pde (getPteIndex virt)) = true then
        some (m.table (getPteIndex virt) + virt % pageSize) else none := by
  have hslot : virt / 2 ^ 22 = 1023 := by omega
  have hpresent : isPresent (m.phys.read32 (m.cr3 + 4 * 1023)) = true := h.present
  have hself : frameAddr (m.phys.read32 (m.cr3 + 4 * 1023)) = m.cr3 := h.self
  rw [translate, hslot]
  dsimp only
  rw [if_pos hpresent, hself, getPteIndex_eq]
  rfl

/-- **`vmm_alloc_pages_region` is a first fit.**  With a free frame for each page and for each
page table the run is missing, the call returns the lowest place for `n` pages in the region,
and `NULL` exactly if `n` is zero or there is none.  On success each page of the run is
mapped with the flags to a frame of its own that was free; every other page is translated as
before, in the window on the page tables except where a table has been made. -/
theorem region_first_fit (h : Paging m) (hflags : flags < pageSize) (hstart : 0x1000 ≤ start)
    (hle : start ≤ stop) (hstop : stop ≤ 0xFFC00000)
    (hroom : ∀ a, IsLeast {a | m.Fits n start stop a} a → m.Room (n + m.newTables a n)) :
    (∀ a, (vmmAllocPagesRegion n flags start stop m).1 = some a ↔
      n ≠ 0 ∧ IsLeast {a | m.Fits n start stop a} a) ∧
    ((vmmAllocPagesRegion n flags start stop m).1 = none ↔
      n = 0 ∨ ∀ a, ¬ m.Fits n start stop a) ∧
    ∀ a, (vmmAllocPagesRegion n flags start stop m).1 = some a → a ≠ 0 ∧
      (∃ frame : ℕ → ℕ, Set.InjOn frame (Set.Iio n) ∧ ∀ k < n, m.pmm.Free (frame k) ∧
        (vmmAllocPagesRegion n flags start stop m).2.walk (a + k * pageSize) =
          some (frame k * pageSize, perm flags)) ∧
      (∀ virt < 0xFFC00000, virt < a ∨ a + n * pageSize ≤ virt →
        (vmmAllocPagesRegion n flags start stop m).2.walk virt = m.walk virt) ∧
      ∀ virt, 0xFFC00000 ≤ virt → virt < 2 ^ 32 →
        (isPresent (m.pde (getPteIndex virt)) = true ∨ getPteIndex virt ∉ slots a n) →
          (vmmAllocPagesRegion n flags start stop m).2.translate virt = m.translate virt := by
  by_cases hn : n = 0
  · have hnull : vmmAllocPagesRegion n flags start stop m = (none, m) := by
      rw [vmmAllocPagesRegion, if_pos hn]
    rw [hnull]
    refine ⟨fun a => ?_, iff_of_true rfl (Or.inl hn), fun a ha => ?_⟩
    · exact iff_of_false (by simp) fun hcon => hcon.1 hn
    · cases ha
  obtain ⟨a, hleast, heq⟩ | ⟨hno, heq⟩ := h.self.region_cases hn hle hstop flags
  · obtain ⟨m', hrun, hmapped⟩ :=
      (h.mapRun hflags hleast.1.dvd (hleast.1.le_stop.trans hstop) a).1 (hroom a hleast)
    rw [hrun, if_pos rfl] at heq
    rw [heq]
    refine ⟨fun b => ?_, iff_of_false (by simp) ?_, ?_⟩
    · constructor
      · intro hb
        obtain rfl := Option.some.inj hb
        exact ⟨hn, hleast⟩
      · rintro ⟨-, hb⟩
        rw [hleast.unique hb]
    · rintro (h0 | hno)
      · exact hn h0
      · exact hno a hleast.1
    · intro b hb
      obtain rfl := Option.some.inj hb
      refine ⟨?_, ?_, fun virt hv hout => ?_, fun virt hge hlt htable => ?_⟩
      · have := hleast.1.start_le
        omega
      · obtain ⟨frame, hinj, hframe⟩ := hmapped.frames
        refine ⟨frame, hinj, fun k hk => ?_⟩
        obtain ⟨hfree, hentry⟩ := hframe k hk
        refine ⟨hfree, ?_⟩
        have hv : a + k * pageSize < 0xFFC00000 := by
          have hstop' := hleast.1.le_stop
          simp only [pageSize] at *
          omega
        have hdvd : pageSize ∣ frame k * pageSize := Nat.dvd_mul_left ..
        have hlt : frame k * pageSize < 2 ^ 32 := by
          have hbits := hfree.1.trans_le h.valid.bits_le
          simp only [pageSize]
          omega
        rw [hmapped.paging.walk_eq hv, ← pageEntry, hentry, Option.map_some,
          frameAddr_newEntry hdvd hlt hflags, perm_or, perm_or, perm_aligned hdvd, perm_present,
          Nat.zero_or, Nat.or_zero]
      · rw [hmapped.paging.walk_eq hv, h.walk_eq hv, ← pageEntry, ← pageEntry,
          hmapped.rest virt hv hout]
      · rw [hmapped.paging.self.translate_tables hge hlt, h.self.translate_tables hge hlt]
        by_cases hi : getPteIndex virt = 1023
        · have hcr3 : m'.cr3 = m.cr3 := by
            have := mapRun_cr3 m flags a n a
            rwa [hrun] at this
          rw [hi, if_pos hmapped.paging.self.present, if_pos h.self.present,
            hmapped.paging.self.self, h.self.self, hcr3]
        · have hi' : getPteIndex virt < 1023 := by
            have := getPteIndex_lt virt
            omega
          obtain hp | hnot := htable
          · obtain ⟨hp', htable'⟩ := hmapped.tables _ hi' hp
            rw [if_pos hp', if_pos hp, htable']
          · rw [table, table, hmapped.pde _ hi' hnot]
  · rw [heq]
    refine ⟨fun b => ?_, iff_of_true rfl (Or.inr hno), fun b hb => ?_⟩
    · exact iff_of_false (by simp) fun hcon => hno b hcon.2.1
    · cases hb

/-! ### The address space that was booted -/

lemma bootMachine_room : bootMachine.Room 110 := by
  refine ⟨Finset.Ico 0x12 0x80, by simp, fun f hf => (bootPmm_free_iff f).2 ?_⟩
  exact Finset.mem_Ico.1 hf

/-- Slot 1 is empty: a run that starts with it is the first one. -/
lemma bootMachine_isLeast (hn : n ≤ 1024) (stop : ℕ) (hstop : 0x400000 + n * pageSize ≤ stop) :
    IsLeast {a | bootMachine.Fits n 0x400000 stop a} 0x400000 := by
  refine ⟨⟨by decide, le_rfl, hstop, fun k hk => ?_⟩, fun b hb => hb.start_le⟩
  have hslot : getPdeIndex (0x400000 + k * pageSize) = 1 := by
    rw [getPdeIndex_eq]
    simp only [pageSize]
    omega
  rw [pageEntry, hslot, entryOf_of_absent]
  rw [bootTables_bootMachine.others 1 (by norm_num) (by norm_num), isPresent_zero]
  exact Bool.false_ne_true

lemma Machine.newTables_le (m : Machine) (start n : ℕ) : m.newTables start n ≤ n := by
  calc m.newTables start n ≤ (slots start n).card := Finset.card_filter_le ..
    _ ≤ (Finset.range n).card := Finset.card_image_le
    _ = n := Finset.card_range n

lemma region_first_fit_boot :
    (vmmAllocPagesRegion 2 7 0x400000 0x500000 bootMachine).1 = some 0x400000 := by
  refine ((region_first_fit bootTables_bootMachine.paging (by norm_num [pageSize]) (by norm_num)
    (by norm_num) (by norm_num) fun a _ => bootMachine_room.mono ?_ fun _ hf => hf).1 0x400000).2
      ⟨by norm_num, bootMachine_isLeast (by norm_num) _ (by norm_num [pageSize])⟩
  have := bootMachine.newTables_le a 2
  omega

/-- The page of the window that shows the new page table was not mapped before. -/
lemma region_maps_window :
    ∃ m', vmmAllocPagesRegion 1 7 0x400000 0x401000 bootMachine = (some 0x400000, m') ∧
      bootMachine.translate 0xFFC01000 = none ∧ m'.translate 0xFFC01000 ≠ none := by
  have hm := bootTables_bootMachine.paging
  have hleast := bootMachine_isLeast (n := 1) (by norm_num) 0x401000
    (by norm_num [pageSize])
  have hneed := bootMachine.newTables_le 0x400000 1
  have hflags : 7 < pageSize := by norm_num [pageSize]
  obtain ⟨m', hrun, hmapped⟩ := (hm.mapRun hflags hleast.1.dvd
    (hleast.1.le_stop.trans (by norm_num)) 0x400000).1
      (bootMachine_room.mono (by omega) fun _ hf => hf)
  have hslot : getPteIndex 0xFFC01000 = 1 := by decide
  refine ⟨m', ?_, ?_, ?_⟩
  · obtain ⟨a, hleast', heq⟩ | ⟨hno, -⟩ :=
      hm.self.region_cases (n := 1) one_ne_zero (show 0x400000 ≤ 0x401000 by norm_num)
        (by norm_num) 7
    · obtain rfl := hleast'.unique hleast
      rw [heq, hrun, if_pos rfl]
    · exact absurd hleast.1 (hno _)
  · rw [hm.self.translate_tables (by norm_num) (by norm_num), hslot,
      bootTables_bootMachine.others 1 (by norm_num) (by norm_num), isPresent_zero, if_neg]
    exact Bool.false_ne_true
  · obtain ⟨frame, -, hframe⟩ := hmapped.frames
    have hentry := (hframe 0 one_pos).2
    have hpresent : isPresent (m'.pde 1) = true := by
      by_contra hp
      rw [pageEntry, show getPdeIndex (0x400000 + 0 * pageSize) = 1 by decide,
        entryOf_of_absent hp] at hentry
      cases hentry
    rw [hmapped.paging.self.translate_tables (by norm_num) (by norm_num), hslot, if_pos hpresent]
    simp

end Gummy
