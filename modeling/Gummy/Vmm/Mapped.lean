import Gummy.Vmm.SpaceOps
import Mathlib.Data.Finset.Card

/-!
What `vmm_alloc_pages_region` has mapped when it succeeds, and when it does succeed.

Each page of the run is mapped to a frame that was free, no other page is touched, and with
two free frames for each page nothing can go wrong.
-/

namespace Gummy

open CWord Machine
open Relation (ReflTransGen)

variable {m m' : Machine} {D : Owners} {S : Set ℕ} {virt phys flags f k n : ℕ}

namespace Machine

/-- The entry that maps the page of `virt`, if there is one. -/
def pageEntry (m : Machine) (virt : ℕ) : Option ℕ :=
  m.entryOf (getPdeIndex virt) (getPteIndex virt)

/-- At least `k` frames are free. -/
def Room (m : Machine) (k : ℕ) : Prop := ∃ F : Finset ℕ, k ≤ F.card ∧ ∀ f ∈ F, m.pmm.Free f

lemma pageEntry_congr {v v' : ℕ} (h : v / pageSize = v' / pageSize) :
    m.pageEntry v = m.pageEntry v' := by
  obtain ⟨hi, hj⟩ := page_eq_iff.2 h
  rw [pageEntry, pageEntry, hi, hj]

@[simp] lemma withPmm_pageEntry (pmm : Pmm) (v : ℕ) : { m with pmm }.pageEntry v = m.pageEntry v :=
  rfl

end Machine

/-! ### Free frames -/

lemma Machine.Room.mono {j : ℕ} (h : m.Room k) (hjk : j ≤ k)
    (hfree : ∀ f, m.pmm.Free f → m'.pmm.Free f) :
    m'.Room j := by
  obtain ⟨F, hcard, hF⟩ := h
  exact ⟨F, hjk.trans hcard, fun f hf => hfree f (hF f hf)⟩

lemma Machine.Room.exists_free (h : m.Room (k + 1)) : ∃ f, m.pmm.Free f := by
  obtain ⟨F, hcard, hF⟩ := h
  obtain ⟨f, hf⟩ := Finset.card_pos.1 (Nat.succ_pos k |>.trans_le hcard)
  exact ⟨f, hF f hf⟩

/-- One frame less. -/
lemma Machine.Room.take (h : m.Room (k + 1)) (hfree : ∀ g, m'.pmm.Free g ↔ m.pmm.Free g ∧ g ≠ f) :
    m'.Room k := by
  obtain ⟨F, hcard, hF⟩ := h
  refine ⟨F.erase f, ?_, fun g hg => ?_⟩
  · have herase := Finset.pred_card_le_card_erase (s := F) (a := f)
    omega
  · obtain ⟨hgf, hg⟩ := Finset.mem_erase.1 hg
    exact (hfree g).2 ⟨hF g hg, hgf⟩

/-- `vmm_map` takes one frame at most. -/
lemma Paging.vmmMap_free (h : Paging m) (hv : virt < 0xFFC00000) (hflags : flags < pageSize) :
    (∀ g, (vmmMap m virt phys flags).2.pmm.Free g → m.pmm.Free g) ∧
      ∀ k, m.Room (k + 1) → (vmmMap m virt phys flags).1 = true ∧
        (vmmMap m virt phys flags).2.Room k := by
  have hflags32 : flags < 2 ^ 32 := hflags.trans (by norm_num)
  by_cases hp : isPresent (m.pde (getPdeIndex virt)) = true
  · rw [vmmMap_of_present h.self hv hflags32 hp]
    exact ⟨fun _ hg => hg, fun k hroom => ⟨rfl, hroom.mono (Nat.le_succ k) fun _ hg => hg⟩⟩
  · obtain ⟨halloc, hnone⟩ | ⟨f, pmm, halloc, hpos, hfree, -, hbits, hpmm⟩ :=
      pmmAllocPage_spec h.valid
    · rw [vmmMap_full h.self (hv.trans (by norm_num)) hp halloc]
      refine ⟨fun _ hg => hg, fun k hroom => ?_⟩
      obtain ⟨f, hf⟩ := hroom.exists_free
      exact absurd hf (hnone f)
    · have hnew := h.newFrame hpos hfree
      have hi := getPdeIndex_lt_window hv
      have hpresent := isPresent_addTable (i := getPdeIndex virt) pmm h.self.cr3_dvd hnew
        (hi.trans (by norm_num)) hflags
      have hadd := h.addTable hi hflags hpos hfree hbits hpmm
      rw [vmmMap_new h.self hv hflags hp halloc hnew,
        vmmMap_of_present hadd.self hv hflags32 hpresent]
      exact ⟨fun g hg => ((hpmm g).1 hg).1, fun k hroom => ⟨rfl, hroom.take hpmm⟩⟩

/-! ### The mapping loop -/

/-- The `n` pages from `start` on have been mapped to frames that were free; no other page has
changed. -/
structure Mapped (m m' : Machine) (flags start n : ℕ) : Prop where
  pages : ∀ v, start ≤ v → v < start + n * pageSize →
    ∃ f, m.pmm.Free f ∧ m'.pageEntry v = some (f * pageSize ||| flags ||| vmmFlagsPresent)
  rest : ∀ v < 0xFFC00000, v < start ∨ start + n * pageSize ≤ v → m'.pageEntry v = m.pageEntry v
  free : ∀ f, m'.pmm.Free f → m.pmm.Free f

lemma Mapped.refl (m : Machine) (flags start : ℕ) : Mapped m m flags start 0 := by
  refine ⟨fun v hge hlt => ?_, fun _ _ _ => rfl, fun _ hf => hf⟩
  rw [Nat.zero_mul, Nat.add_zero] at hlt
  omega

/-- One page more, in front. -/
lemma Mapped.cons {m'' : Machine} {start : ℕ} (hdvd : pageSize ∣ start) (hlt : start < 0xFFC00000)
    (hfree : m.pmm.Free f) (hmono : ∀ g, m'.pmm.Free g → m.pmm.Free g)
    (hfirst : m'.pageEntry start = some (f * pageSize ||| flags ||| vmmFlagsPresent))
    (hother : ∀ v < 0xFFC00000, v / pageSize ≠ start / pageSize → m'.pageEntry v = m.pageEntry v)
    (h : Mapped m' m'' flags (start + pageSize) n) : Mapped m m'' flags start (n + 1) := by
  obtain ⟨a, rfl⟩ := hdvd
  have hsucc : pageSize * a + (n + 1) * pageSize = pageSize * a + pageSize + n * pageSize := by ring
  refine ⟨fun v hge hlt' => ?_, fun v hv hout => ?_, fun g hg => hmono g (h.free g hg)⟩
  · rw [hsucc] at hlt'
    by_cases hv : v < pageSize * a + pageSize
    · have hsame : v / pageSize = pageSize * a / pageSize := by
        simp only [pageSize] at *
        omega
      refine ⟨f, hfree, ?_⟩
      rw [h.rest v (by simp only [pageSize] at *; omega) (Or.inl hv), pageEntry_congr hsame, hfirst]
    · obtain ⟨g, hg, hentry⟩ := h.pages v (not_lt.1 hv) hlt'
      exact ⟨g, hmono g hg, hentry⟩
  · rw [hsucc] at hout
    rw [h.rest v hv (hout.imp_left fun hlt' => hlt'.trans_le (Nat.le_add_right ..)),
      hother v hv (by simp only [pageSize] at *; omega)]

/-- The mapping loop, `t` pages of which are done: what it has mapped if it succeeds, and a
number of free frames with which it does. -/
lemma Spaces.mapRun_spec {t n : ℕ} (h : Spaces m D) {firstPage : ℕ} (hdvd : pageSize ∣ firstPage)
    (hflags : flags < pageSize) (hS : SlotsIn S firstPage (t + n))
    (hfit : ∀ k < t + n, FlagsFit (firstPage + k * pageSize) flags) :
    ((mapRun flags firstPage n (firstPage + t * pageSize) m).1 = true →
      Mapped m (mapRun flags firstPage n (firstPage + t * pageSize) m).2 flags
        (firstPage + t * pageSize) n) ∧
    ∀ k, m.Room (k + 2 * n) →
      (mapRun flags firstPage n (firstPage + t * pageSize) m).1 = true ∧
        (mapRun flags firstPage n (firstPage + t * pageSize) m).2.Room k := by
  induction n generalizing m t with
  | zero => exact ⟨fun _ => .refl .., fun k hroom => ⟨rfl, hroom⟩⟩
  | succ n ih =>
    have ht : t < t + (n + 1) := by omega
    have hlt := hS.lt ht
    have hnext : firstPage + t * pageSize + pageSize = firstPage + (t + 1) * pageSize := by ring
    have hdvd' : pageSize ∣ firstPage + t * pageSize := Nat.dvd_add hdvd (Nat.dvd_mul_left ..)
    have hsum : t + 1 + n = t + (n + 1) := by omega
    obtain ⟨halloc, hnone⟩ | ⟨f, pmm, halloc, hfree, -, hpmm, -, htake, hspare⟩ := h.alloc (S := S)
    · unfold mapRun
      dsimp only
      rw [halloc, if_pos rfl]
      refine ⟨fun hf => absurd hf Bool.false_ne_true, fun k hroom => ?_⟩
      obtain ⟨f, hf⟩ := (show m.Room (k + 2 * n + 1 + 1) from hroom).exists_free
      exact absurd hf (hnone f)
    · have h' := htake.spaces h
      have hm := h'.activePaging
      obtain ⟨hedits, hfail⟩ := h'.edits_vmmMap hlt (hS.2 t ht) hflags (hfit t ht) hspare
      obtain ⟨hmono, hroom'⟩ :=
        @Paging.vmmMap_free _ _ (f * pageSize) _ hm hlt hflags
      have hmap := hm.map hlt hspare.dvd hspare.lt hflags
      unfold mapRun
      dsimp only
      rw [halloc, if_neg hspare.ne_zero]
      dsimp only
      rcases hr : vmmMap { m with pmm } (firstPage + t * pageSize) (f * pageSize) flags with
        ⟨ok, m'⟩
      rw [hr] at hedits hmono hroom' hmap
      cases ok with
      | false =>
        refine ⟨fun hf => absurd hf Bool.false_ne_true, fun k hroom => ?_⟩
        have hleft : ({ m with pmm } : Machine).Room (k + 2 * n + 1) := hroom.take hpmm
        exact absurd (hroom' _ hleft).1 Bool.false_ne_true
      | true =>
        dsimp only
        obtain ⟨m₁, heq, -, hentry⟩ | ⟨heq, -⟩ := hmap
        swap
        · exact absurd (congrArg Prod.fst heq) Bool.false_ne_true.symm
        obtain rfl : m' = m₁ := congrArg Prod.snd heq
        obtain ⟨hok, hmore⟩ := ih (t := t + 1) (hedits.spaces h') (hsum ▸ hS) fun k hk =>
          hfit k (by omega)
        rw [hnext]
        refine ⟨fun hdone => ?_, fun k hroom => hmore k (hroom' _ (hroom.take hpmm)).2⟩
        have hmapped := hok hdone
        rw [← hnext] at hmapped ⊢
        refine Mapped.cons hdvd' hlt hfree (fun g hg => ((hpmm g).1 (hmono g hg)).1) ?_
          (fun v hv hne => ?_) hmapped
        · rw [pageEntry, hentry _ (getPdeIndex_lt_window hlt) _ (getPteIndex_lt _), if_pos
            ⟨rfl, rfl⟩]
        · rw [pageEntry, hentry _ (getPdeIndex_lt_window hv) _ (getPteIndex_lt _), if_neg]
          · rfl
          · exact fun heq => hne (page_eq_iff.1 heq)

/-! ### Regions -/

/-- The region of exactly `n` pages from `start` on. -/
lemma Spaces.region_spec {start : ℕ} (h : Spaces m D) (hflags : flags < pageSize) (hn : n ≠ 0)
    (hdvd : pageSize ∣ start) (hS : SlotsIn S start n)
    (hfit : ∀ k < n, FlagsFit (start + k * pageSize) flags) :
    (∀ first m', vmmAllocPagesRegion n flags start (start + n * pageSize) m = (some first, m') →
      first = start ∧ Mapped m m' flags start n) ∧
    ∀ k, (∀ v, start ≤ v → v < start + n * pageSize → m.pageEntry v = none) → m.Room (k + 2 * n) →
      ∃ m', vmmAllocPagesRegion n flags start (start + n * pageSize) m = (some start, m') ∧
        m'.Room k := by
  have hle := hS.1
  obtain ⟨a, rfl⟩ := hdvd
  have hstart : alignUp 32 (pageSize * a) pageSize = pageSize * a := by
    rw [show pageSize = 2 ^ 12 by norm_num, alignUp_two_pow (by norm_num), Nat.mod_eq_of_lt]
    all_goals
      simp only [pageSize] at hle
      omega
  have hend : alignDown 32 (pageSize * a + n * pageSize) pageSize =
      pageSize * a + n * pageSize := by
    rw [show pageSize = 2 ^ 12 by norm_num, alignDown_two_pow (by norm_num)]
    all_goals
      simp only [pageSize] at hle
      omega
  have hfuel : (pageSize * a + n * pageSize - pageSize * a) / pageSize = n := by
    rw [Nat.add_sub_cancel_left, Nat.mul_div_cancel n (by norm_num)]
  have hwrap : u32 (pageSize * a + n * pageSize) = pageSize * a + n * pageSize := by
    simp only [pageSize] at hle ⊢
    exact u32_of_lt (by omega)
  obtain ⟨hok, hroom⟩ := h.mapRun_spec (t := 0) (n := n) (Nat.dvd_mul_right pageSize a) hflags
    (by rwa [Nat.zero_add]) fun k hk => hfit k (by omega)
  rw [Nat.zero_mul, Nat.add_zero] at hok hroom
  rw [vmmAllocPagesRegion, if_neg hn]
  dsimp only
  rw [hstart, hend, hfuel, hwrap, if_neg (lt_irrefl _)]
  refine ⟨fun first m' hres => ?_, fun k hfree hk => ?_⟩
  · cases hfind : findRun m n n (pageSize * a) 0 0 with
    | none =>
      rw [hfind] at hres
      cases hres
    | some first' =>
      obtain ⟨⟨t, ht⟩, hle', -⟩ := @findRun_some m n n (pageSize * a) 0 0 first'
        (Nat.pos_of_ne_zero hn) (fun hne => absurd rfl hne) (fun k hk => absurd hk (by omega))
        (by rwa [Nat.zero_mul, Nat.add_zero])
      rw [Nat.zero_add] at hle'
      have hfirst : first' = pageSize * a := by omega
      rw [hfind, hfirst] at hres
      dsimp only at hres
      rcases hr : mapRun flags (pageSize * a) n (pageSize * a) m with ⟨ok, m₁⟩
      rw [hr] at hres hok
      cases ok with
      | false => cases hres
      | true =>
        obtain ⟨h1, rfl⟩ := Prod.mk.inj hres
        exact ⟨(Option.some.inj h1).symm, hok rfl⟩
  · have hfind : findRun m n n (pageSize * a) 0 0 = some (pageSize * a) := by
      have hself := h.activePaging.self
      have hfirst := @findRun_first m n n (pageSize * a) 0 0 (Nat.pos_of_ne_zero hn)
        (fun hne => absurd rfl hne) (by omega) fun k hk => ?_
      · rwa [Nat.zero_mul, Nat.add_zero] at hfirst
      · have hlt := hS.lt hk
        rw [hself.pageMapped_eq (hlt.trans (by norm_num))]
        have hnone := hfree (pageSize * a + k * pageSize) (Nat.le_add_right ..)
          (Nat.add_lt_add_left (Nat.mul_lt_mul_of_pos_right hk (by norm_num)) _)
        rw [pageEntry] at hnone
        rw [hnone, Option.isSome_none]
    obtain ⟨hdone, hleft⟩ := hroom k hk
    rw [hfind]
    dsimp only
    rcases hr : mapRun flags (pageSize * a) n (pageSize * a) m with ⟨ok, m₁⟩
    rw [hr] at hdone hleft
    obtain rfl : ok = true := hdone
    exact ⟨m₁, rfl, hleft⟩

end Gummy
