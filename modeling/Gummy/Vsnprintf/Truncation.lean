import Gummy.Vsnprintf.Expansion
import Mathlib.Data.List.Induction

/-!
What `vsnprintf` leaves in the buffer.

The index counts every character that is put, the buffer holds the first ones: what is in
it depends on the expansion and on the size only.
-/

namespace Gummy

open CWord

variable {strings : UInt32 → List UInt8}

/-! ### Putting characters -/

lemma store_concat (m : ByteMem) (l : List UInt8) (c : UInt8) :
    m.store 0 (l ++ [c]) = (m.store 0 l).write8 l.length c := by
  rw [ByteMem.store_append, Nat.zero_add]
  funext x
  by_cases hx : x = l.length
  · subst hx
    exact (ByteMem.store_add _ _ (i := 0) (by simp)).trans (by simp)
  · rw [ByteMem.write8_of_ne _ _ hx, ByteMem.store_of_disjoint]
    rw [List.length_singleton]
    omega

/-- The buffer holds the beginning of what was put. -/
lemma foldl_putChar (m : ByteMem) (n : ℕ) {l : List UInt8} (hl : l.length < 2 ^ 32) :
    l.foldl putChar ⟨some m, 0, n, []⟩ =
      ⟨some (m.store 0 (l.take (n - 1))), l.length, n,
        (List.range (min l.length (n - 1))).reverse⟩ := by
  induction l using List.reverseRecOn with
  | nil => simp
  | append_singleton l c ih =>
    rw [List.length_append, List.length_singleton] at hl
    rw [List.foldl_append, ih (by omega), List.foldl_cons, List.foldl_nil, putChar]
    by_cases hroom : l.length < n - 1
    · -- there is room for one more
      have hn : 0 < n := by omega
      have htake : (l ++ [c]).take (n - 1) = l ++ [c] := List.take_of_length_le (by simp; omega)
      have htake' : l.take (n - 1) = l := List.take_of_length_le hroom.le
      simp [hn, hroom, Formatter.store, htake, htake', store_concat, u32_of_lt hl,
        Nat.min_eq_left hroom.le, List.range_succ]
    · have hmin : min (l.length + 1) (n - 1) = n - 1 := by omega
      have htake : (l ++ [c]).take (n - 1) = l.take (n - 1) :=
        List.take_append_of_le_length (not_lt.1 hroom)
      simp [hroom, htake, u32_of_lt hl, Nat.min_eq_right (not_lt.1 hroom), hmin]

/-- Without a buffer the characters are counted only. -/
lemma foldl_putChar_none (n : ℕ) {l : List UInt8} (hl : l.length < 2 ^ 32) :
    l.foldl putChar ⟨none, 0, n, []⟩ = ⟨none, l.length, n, []⟩ := by
  induction l using List.reverseRecOn with
  | nil => rfl
  | append_singleton l c ih =>
    rw [List.length_append, List.length_singleton] at hl
    rw [List.foldl_append, ih (by omega)]
    simp [putChar, u32_of_lt hl]

/-! ### The result -/

/-- The first `k` bytes of the buffer; there are none without a buffer. -/
def Formatter.firstBytes (f : Formatter) (k : ℕ) : List UInt8 :=
  match f.out with
  | some m => m.bytes 0 k
  | none => []

/-- The output of the text `T` into a buffer of `n` bytes. -/
structure Truncated (T : List UInt8) (n : ℕ) (f : Formatter) : Prop where
  within : ∀ i ∈ f.stores, i < n
  untouched : n = 0 → f.stores = []
  text : f.firstBytes (min T.length (n - 1)) = T.take (n - 1)
  terminated : 0 < n → f.firstBytes (min T.length (n - 1) + 1) = T.take (n - 1) ++ [0]

lemma bytes_of_bytes_concat {m : ByteMem} {l : List UInt8} {c : UInt8}
    (h : m.bytes 0 (l.length + 1) = l ++ [c]) : m.bytes 0 l.length = l := by
  rw [ByteMem.bytes_append] at h
  exact (List.append_inj h (by simp)).1

/-- The terminator behind the text. -/
lemma truncated_store (m : ByteMem) {T : List UInt8} {n i : ℕ} (hn : 0 < n)
    (hi : i = min T.length (n - 1)) (stores : List ℕ) (hs : ∀ j ∈ stores, j < n - 1) (idx : ℕ) :
    Truncated T n (Formatter.store ⟨some (m.store 0 (T.take (n - 1))), idx, n, stores⟩ i 0) := by
  have hlen : (T.take (n - 1)).length = i := by rw [List.length_take, hi, Nat.min_comm]
  have hbytes := ByteMem.bytes_store_same m 0 (T.take (n - 1) ++ [0])
  rw [store_concat, List.length_append, List.length_singleton] at hbytes
  constructor
  · intro j hj
    rcases List.mem_cons.1 hj with rfl | hj
    · omega
    · have := hs j hj
      omega
  · intro h0
    omega
  · rw [← hi, ← hlen]
    exact bytes_of_bytes_concat hbytes
  · intro _
    rw [← hi, ← hlen]
    exact hbytes

lemma vsnprintf_eq {format : List UInt8} {arg : VaList}
    (hlen : (expansion strings format arg).length < 2 ^ 31)
    (hfit : ∀ p ∈ piecesOf strings format arg, p.Fits) {s : Option ByteMem} {n : UInt32}
    (hs : n ≠ 0 → s.isSome) :
    ∃ f, vsnprintf strings s n (some format) arg =
        some (((expansion strings format arg).length : ℤ), f) ∧
      Truncated (expansion strings format arg) n.toNat f := by
  have hloop (f : Formatter) := @vsnprintfLoop_piecesOf strings f format arg
  simp only [if_pos hfit] at hloop
  have hint : ((expansion strings format arg).length : ℤ).bmod (2 ^ 32) =
      (expansion strings format arg).length := Int.bmod_eq_of_le (by omega) (by omega)
  have hlt : (expansion strings format arg).length < 2 ^ 32 := by omega
  rcases s with _ | m
  · have hn : n = 0 := by
      by_contra h
      simpa using hs h
    subst hn
    have hput := foldl_putChar_none 0 hlt
    refine ⟨⟨none, (expansion strings format arg).length, 0, []⟩, ?_, ?_⟩
    · simp [vsnprintf, hloop, hput]
      exact hint
    · constructor
      · simp
      · simp
      · simp [Formatter.firstBytes]
      · simp
  · have hput := foldl_putChar m n.toNat hlt
    by_cases hn : 0 < n.toNat
    · refine ⟨_, ?_, truncated_store m hn rfl
        (List.range (min (expansion strings format arg).length (n.toNat - 1))).reverse ?_
        (expansion strings format arg).length⟩
      · have hend : (if (expansion strings format arg).length < n.toNat then
            (expansion strings format arg).length else n.toNat - 1) =
            min (expansion strings format arg).length (n.toNat - 1) := by
          split_ifs <;> omega
        simp [vsnprintf, hloop, hput, hn, hend]
        exact hint
      · intro j hj
        have := List.mem_range.1 (List.mem_reverse.1 hj)
        omega
    · have hzero : n.toNat = 0 := by omega
      rw [hzero] at hput
      refine ⟨⟨some m, (expansion strings format arg).length, 0, []⟩, ?_, ?_⟩
      · simp [vsnprintf, hloop, hzero, hput]
        exact hint
      · rw [hzero]
        constructor
        · simp
        · simp
        · simp [Formatter.firstBytes, ByteMem.bytes]
        · simp

/-- `vsnprintf` returns the length of the whole text and keeps as much of it as there is room
for. -/
theorem vsnprintf_truncates (strings : UInt32 → List UInt8) (format : List UInt8) (arg : VaList)
    (hlen : (expansion strings format arg).length < 2 ^ 31)
    (hfit : ∀ p ∈ piecesOf strings format arg, p.Fits) (s : Option ByteMem) (n : UInt32)
    (hs : n ≠ 0 → s.isSome) :
    let T := expansion strings format arg
    ∃ f, vsnprintf strings s n (some format) arg = some ((T.length : ℤ), f) ∧
      Truncated T n.toNat f ∧
      ∀ (s' : Option ByteMem) (n' : UInt32), (n' ≠ 0 → s'.isSome) → n ≤ n' →
        ∃ f', vsnprintf strings s' n' (some format) arg = some ((T.length : ℤ), f') ∧
          f.firstBytes (min T.length (n.toNat - 1)) <+:
            f'.firstBytes (min T.length (n'.toNat - 1)) := by
  intro T
  obtain ⟨f, hrun, htrunc⟩ := vsnprintf_eq hlen hfit hs
  refine ⟨f, hrun, htrunc, ?_⟩
  intro s' n' hs' hn
  obtain ⟨f', hrun', htrunc'⟩ := vsnprintf_eq hlen hfit hs'
  refine ⟨f', hrun', ?_⟩
  rw [htrunc.text, htrunc'.text]
  refine List.take_prefix_take_left ?_
  have := UInt32.le_iff_toNat_le.1 hn
  omega

/-- `"a%d"` for 42 in three bytes. -/
theorem vsnprintf_truncates_three :
    ∃ f, vsnprintf (fun _ => []) (some fun _ => 0) 3 (some [97, 37, 100]) (fun _ => 42) =
        some (3, f) ∧ f.firstBytes 3 = [97, 52, 0] := by
  obtain ⟨f, hrun, htrunc, -⟩ := vsnprintf_truncates (fun _ => []) [97, 37, 100] (fun _ => 42)
    (by decide) (by decide) (some fun _ => 0) 3 (fun _ => rfl)
  exact ⟨f, hrun, htrunc.terminated (by decide)⟩

end Gummy
