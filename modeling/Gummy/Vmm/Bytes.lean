import Gummy.Vmm.Isolation

/-!
Bytes written through the pages of the active space.

Such a write changes no table, and no byte that another page shows.
-/

namespace Gummy

open CWord Machine

variable {m m' m'' : Machine} {D : Owners} {S : Set ℕ} {a c d pa : ℕ} {b : UInt8}

namespace Machine

/-- Load a byte. -/
def loadByte (m : Machine) (virt : ℕ) : UInt8 :=
  match m.translate virt with
  | some a => m.phys a
  | none => 0

/-- Store a byte. -/
def storeByte (m : Machine) (virt : ℕ) (b : UInt8) : Machine :=
  match m.translate virt with
  | some a => { m with phys := m.phys.write8 a b }
  | none => m

end Machine

/-! ### What a write leaves alone -/

/-- Bytes have been written through pages in the slots `S` of the active space. -/
structure Stores (D : Owners) (S : Set ℕ) (m m' : Machine) : Prop where
  tables : SameTables D m m'
  elsewhere : Elsewhere D S m m'
  pmm : m'.pmm = m.pmm

namespace Stores

lemma refl (D : Owners) (S : Set ℕ) (m : Machine) : Stores D S m m :=
  ⟨⟨fun _ _ _ _ => rfl, fun _ _ _ _ _ _ _ => rfl⟩, .refl D S m, rfl⟩

lemma trans (h : Stores D S m m') (h' : Stores D S m' m'') : Stores D S m m'' :=
  ⟨h.tables.trans h'.tables, h.elsewhere.trans h'.elsewhere, h'.pmm.trans h.pmm⟩

lemma cr3 (h : Stores D S m m') : m'.cr3 = m.cr3 := h.elsewhere.cr3

lemma spaces (h : Stores D S m m') (hs : Spaces m D) : Spaces m' D := by
  refine h.tables.spaces hs h.pmm ?_
  rw [h.cr3]
  exact hs.active

/-- The lower halves of the other spaces are the same. -/
lemma sameUser (h : Stores D S (m.space d) m') (hc : c ∈ D) (hne : c ≠ d) :
    SameUser c m (m'.space m.cr3) :=
  (h.elsewhere.sameUser hc (Or.inl hne)).space m.cr3 m.cr3

end Stores

/-- The frame behind an address plays the role of its page. -/
lemma Spaces.plays_translate (h : Spaces m D) (hlt : getPdeIndex a < 1023)
    (hpages : HasPages (getPdeIndex a)) (ha : m.translate a = some pa) :
    ∃ g, m.Plays D g (pageRole m.cr3 (getPdeIndex a) (getPteIndex a)) ∧
      pa = g + a % pageSize := by
  rw [translate_eq_walk, Option.map_eq_some_iff] at ha
  obtain ⟨w, hw, rfl⟩ := ha
  unfold walk at hw
  dsimp only at hw
  split_ifs at hw with hp
  obtain rfl := Option.some.inj hw
  exact ⟨_, .page h.active hlt hpages (getPteIndex_lt a) hp.1 hp.2, rfl⟩

/-- One byte. -/
lemma Spaces.stores_byte (h : Spaces m D) (hlt : getPdeIndex a < 1023)
    (hpages : HasPages (getPdeIndex a)) (hS : getPdeIndex a ∈ S)
    (ha : m.translate a = some pa) (b : UInt8) :
    Stores D S m { m with phys := m.phys.write8 pa b } := by
  obtain ⟨g, hg, rfl⟩ := h.plays_translate hlt hpages ha
  have hx : a % pageSize < pageSize := Nat.mod_lt _ (by norm_num)
  have hoff : AgreeOff g (m.phys.write8 (g + a % pageSize) b) m.phys := by
    intro y hy
    refine ByteMem.write8_of_ne _ _ ?_
    rintro rfl
    omega
  exact ⟨h.sameTables_phys hg hoff, h.elsewhere_phys hg hS hoff, rfl⟩

/-- Any number of bytes, each of which may depend on those before it. -/
lemma Spaces.stores_bytes {α : Type*} {l : List α} (h : Spaces m D) (addr : α → ℕ)
    (byte : Machine → α → UInt8) (hlt : ∀ x ∈ l, getPdeIndex (addr x) < 1023)
    (hpages : ∀ x ∈ l, HasPages (getPdeIndex (addr x))) (hS : ∀ x ∈ l, getPdeIndex (addr x) ∈ S) :
    Stores D S m (l.foldl (fun m x => m.storeByte (addr x) (byte m x)) m) := by
  induction l generalizing m with
  | nil => exact .refl _ _ _
  | cons x l ih =>
    have hx := List.mem_cons_self (a := x) (l := l)
    have hbyte : Stores D S m (m.storeByte (addr x) (byte m x)) := by
      unfold storeByte
      cases ha : m.translate (addr x) with
      | none => exact .refl _ _ _
      | some pa => exact h.stores_byte (hlt x hx) (hpages x hx) (hS x hx) ha _
    rw [List.foldl_cons]
    exact hbyte.trans (ih (hbyte.spaces h) (fun y hy => hlt y (List.mem_cons_of_mem _ hy))
      (fun y hy => hpages y (List.mem_cons_of_mem _ hy))
      fun y hy => hS y (List.mem_cons_of_mem _ hy))

end Gummy
