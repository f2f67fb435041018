import Gummy.Vsnprintf.Truncation

/-!
The numbers that `vsnprintf` prints.

A format that is one number conversion has one piece.  Its text is a sign or `"0x"`, zeros
and the canonical numeral of the argument; how many zeros there are depends on who has
subtracted the sign from the width, `vsnprintf` or `itoa`.
-/

namespace Gummy

open CWord Numeral

variable {strings : UInt32 → List UInt8}

/-! ### What a format prints -/

/-- The format prints `T` if there is room for it. -/
def Prints (strings : UInt32 → List UInt8) (format : List UInt8) (arg : VaList)
    (T : List UInt8) : Prop :=
  ∀ (m : ByteMem) (n : UInt32), T.length < n.toNat →
    ∃ f, vsnprintf strings (some m) n (some format) arg = some ((T.length : ℤ), f) ∧
      f.firstBytes (T.length + 1) = T ++ [0]

lemma prints_expansion {format : List UInt8} {arg : VaList}
    (hlen : (expansion strings format arg).length < 2 ^ 31)
    (hfit : ∀ p ∈ piecesOf strings format arg, p.Fits) :
    Prints strings format arg (expansion strings format arg) := by
  intro m n hn
  obtain ⟨f, hrun, htrunc⟩ := vsnprintf_eq (s := some m) (n := n) hlen hfit (fun _ => rfl)
  have hfirst := htrunc.terminated (by omega)
  rw [Nat.min_eq_left (by omega), List.take_of_length_le (by omega)] at hfirst
  exact ⟨f, hrun, hfirst⟩

/-- A format prints one text only. -/
lemma Prints.unique {format T T' : List UInt8} {arg : VaList} (h : Prints strings format arg T)
    (h' : Prints strings format arg T') (hT : T.length < 2 ^ 31) (hT' : T'.length < 2 ^ 31) :
    T = T' := by
  have hn : (0xFFFFFFFF : UInt32).toNat = 2 ^ 32 - 1 := rfl
  obtain ⟨f, hrun, hfirst⟩ := h (fun _ => 0) 0xFFFFFFFF (by omega)
  obtain ⟨f', hrun', hfirst'⟩ := h' (fun _ => 0) 0xFFFFFFFF (by omega)
  rw [hrun, Option.some.injEq, Prod.mk.injEq] at hrun'
  obtain ⟨hlen, rfl⟩ := hrun'
  rw [← Int.natCast_inj.1 hlen, hfirst] at hfirst'
  exact List.append_cancel_right hfirst'

/-! ### The format of one conversion -/

/-- The characters of a length modifier. -/
def sizeText : FormatSize → List UInt8
  | .normal => []
  | .h => [104]
  | .hh => [104, 104]
  | .l => [108]
  | .ll => [108, 108]

/-- The number that the digits of a width stand for. -/
def widthFrom (width : ℕ) (digits : List UInt8) : ℕ :=
  digits.foldl (fun v c => v * 10 + (c.toNat - 48)) width

lemma le_widthFrom (width : ℕ) (digits : List UInt8) : width ≤ widthFrom width digits := by
  induction digits generalizing width with
  | nil => exact le_rfl
  | cons c digits ih =>
    refine le_trans ?_ (ih (width * 10 + (c.toNat - 48)))
    omega

/-- A width below `2 ^ 32` is read without saturation. -/
lemma parseWidth_digits {digits rest : List UInt8} (hdigits : ∀ c ∈ digits, 48 ≤ c ∧ c ≤ 57)
    (hrest : ¬ (48 ≤ rest.headD 0 ∧ rest.headD 0 ≤ 57)) {width : ℕ}
    (hwidth : widthFrom width digits < 2 ^ 32) :
    parseWidth width (digits ++ rest) = (widthFrom width digits, rest) := by
  induction digits generalizing width with
  | nil =>
    rcases rest with _ | ⟨c, rest⟩
    · rfl
    · rw [List.headD_cons] at hrest
      simp only [List.nil_append, parseWidth, if_neg hrest]
      rfl
  | cons c digits ih =>
    have hle := le_widthFrom (width * 10 + (c.toNat - 48)) digits
    have hlt : widthFrom (width * 10 + (c.toNat - 48)) digits < 2 ^ 32 := hwidth
    have hroom : width ≤ (2 ^ 32 - 1 - (c.toNat - 48)) / 10 := by omega
    rw [List.cons_append, parseWidth, if_pos (hdigits c (by simp))]
    dsimp only
    rw [if_pos hroom]
    exact ih (fun d hd => hdigits d (by simp [hd])) hlt

lemma parseSize_sizeText (size : FormatSize) {conv : UInt8} (hh : conv ≠ 104) (hl : conv ≠ 108) :
    parseSize (sizeText size ++ [conv]) = (size, [conv]) := by
  cases size <;> simp [parseSize, sizeText, hh, hl]

lemma pieces_nil (fuel : ℕ) (arg : VaList) : pieces strings fuel [] arg = [] := by
  cases fuel <;> rfl

/-- No number conversion is read as part of what stands before it. -/
lemma numberConversions_apart {conv : UInt8} (hconv : conv ∈ numberConversions) :
    ¬ (48 ≤ conv ∧ conv ≤ 57) ∧ conv ≠ 48 ∧ conv ≠ 104 ∧ conv ≠ 108 ∧ conv ≠ 0 := by
  simp only [numberConversions, List.mem_cons, List.not_mem_nil, or_false] at hconv
  rcases hconv with rfl | rfl | rfl | rfl | rfl | rfl | rfl <;> decide

/-- What stands behind the width is no digit, and not the end. -/
lemma headD_sizeText (size : FormatSize) {conv : UInt8} (hconv : conv ∈ numberConversions) :
    ¬ (48 ≤ (sizeText size ++ [conv]).headD 0 ∧ (sizeText size ++ [conv]).headD 0 ≤ 57) ∧
      (sizeText size ++ [conv]).headD 0 ≠ 48 ∧ (sizeText size ++ [conv]).headD 0 ≠ 0 := by
  obtain ⟨hdigit, h48, -, -, h0⟩ := numberConversions_apart hconv
  obtain h | h | h : (sizeText size ++ [conv]).headD 0 = conv ∨
      (sizeText size ++ [conv]).headD 0 = 104 ∨ (sizeText size ++ [conv]).headD 0 = 108 := by
    cases size <;> simp [sizeText]
  · rw [h]
    exact ⟨hdigit, h48, h0⟩
  · rw [h]
    decide
  · rw [h]
    decide

/-- A number conversion is one piece. -/
lemma piecesOf_conversion (format digits : List UInt8) {zeroFlag : Bool} (size : FormatSize)
    {conv : UInt8} (hconv : conv ∈ numberConversions) (hformat : format.headD 0 ≠ 0)
    (hflag : parseFlag format = (zeroFlag, digits ++ (sizeText size ++ [conv])))
    (hdigits : ∀ c ∈ digits, 48 ≤ c ∧ c ≤ 57) (hwidth : widthFrom 0 digits < 2 ^ 32)
    (strings : UInt32 → List UInt8) (arg : VaList) : piecesOf strings (37 :: format) arg =
      [⟨zeroFlag, widthFrom 0 digits, .number (numberOf size conv arg)⟩] := by
  obtain ⟨-, -, hh, hl, h0⟩ := numberConversions_apart hconv
  have hparse := parseWidth_digits hdigits (headD_sizeText size hconv).1 hwidth
  have hsize := parseSize_sizeText size hh hl
  have hswitch := @switchConversion_number strings size conv hconv arg
  rw [piecesOf, List.length_cons, pieces]
  simp only [List.headD_cons, List.tail_cons, hformat, hflag, hparse, hsize, hswitch, h0,
    pieces_nil, if_false, ne_eq, not_true_eq_false]
  rfl

/-! ### The text of a number -/

/-- The sign and the prefix of a number. -/
def leadText (size : FormatSize) (conv : UInt8) (arg : VaList) : List UInt8 :=
  signText (argValue size conv arg < 0) ++ if conv = 112 then [48, 120] else []

/-- The canonical digits of a number. -/
def digitText (size : FormatSize) (conv : UInt8) (arg : VaList) : List UInt8 :=
  numeral (convBase conv) (conv = 88) (argValue size conv arg).natAbs

/-- `digit_width` for the numbers that `vsnprintf` prints. -/
lemma digitWidth_eq (zeroFlag : Bool) (width : ℕ) (x : NumberArgs) : digitWidth zeroFlag width x =
    if zeroFlag then width - ((if x.signal then 1 else 0) + if x.hexLead then 2 else 0) else 0 := by
  unfold digitWidth
  cases zeroFlag
  · simp
  · simp only [true_and]
    split_ifs <;> omega

lemma argValue_pointer (size : FormatSize) (arg : VaList) : ¬ argValue size 112 arg < 0 := by
  have hv : argValue size 112 arg = (arg.word : ℤ) := rfl
  omega

/-- The text of a number conversion; `zeros` is the padding that `itoa` computes. -/
lemma text_number (zeroFlag : Bool) (width : ℕ) (size : FormatSize) (conv : UInt8)
    (arg : VaList) {zeros : ℕ} (hzeros : zeros = digitWidth zeroFlag width (numberOf size conv arg) -
      ((signText (argValue size conv arg < 0)).length + (digitText size conv arg).length)) :
    Piece.text ⟨zeroFlag, width, .number (numberOf size conv arg)⟩ =
      leadText size conv arg ++ List.replicate zeros 48 ++ digitText size conv arg := by
  subst hzeros
  by_cases hp : conv = 112
  · -- a pointer has no sign
    subst hp
    have hsign : decide (argValue size 112 arg < 0) = false :=
      decide_eq_false (argValue_pointer size arg)
    simp [Piece.text, numberText, leadText, digitText, numberOf, hsign, signText]
  · simp [Piece.text, numberText, leadText, digitText, numberOf, hp]

/-- The sign is subtracted from the width once more than it should. -/
lemma length_text_number (width : ℕ) (size : FormatSize) (conv : UInt8) (arg : VaList) :
    (Piece.text ⟨true, width, .number (numberOf size conv arg)⟩).length =
      max (if argValue size conv arg < 0 then width - 1 else width)
        (leadText size conv arg ++ digitText size conv arg).length := by
  rw [text_number true width size conv arg rfl, digitWidth_eq]
  simp only [List.length_append, List.length_replicate, leadText, numberOf, signText, if_true,
    decide_eq_true_eq]
  by_cases hneg : argValue size conv arg < 0
  · have hp : conv ≠ 112 := by
      rintro rfl
      exact argValue_pointer size arg hneg
    simp only [hneg, hp, if_true, if_false, List.length_singleton, List.length_nil]
    omega
  · simp only [hneg, if_false, List.length_nil]
    split_ifs <;> simp only [List.length_cons, List.length_nil] <;> omega

/-! ### Zero padding -/

/-- `"%0N"`, `N` given by its digits, with a length modifier and a conversion. -/
def paddedFormat (digits : List UInt8) (size : FormatSize) (conv : UInt8) : List UInt8 :=
  [37, 48] ++ digits ++ sizeText size ++ [conv]

/-- The number is printed as sign or prefix, zeros and digits, and with the requested width. -/
def PadsTo (strings : UInt32 → List UInt8) (digits : List UInt8) (size : FormatSize)
    (conv : UInt8) (arg : VaList) : Prop :=
  ∃ T zeros, Prints strings (paddedFormat digits size conv) arg T ∧
    T = leadText size conv arg ++ List.replicate zeros 48 ++ digitText size conv arg ∧
    T.length = max (widthFrom 0 digits) (leadText size conv arg ++ digitText size conv arg).length

lemma length_lead_digits_le (size : FormatSize) (conv : UInt8) (arg : VaList) :
    (leadText size conv arg ++ digitText size conv arg).length ≤ 67 := by
  have hok := numberOf_ok size conv arg
  have hdigits : (digitText size conv arg).length ≤ 64 :=
    length_numeral_le hok.two_le _ (by norm_num) hok.num_lt
  have hlead : (leadText size conv arg).length ≤ 3 := by
    unfold leadText signText
    split_ifs <;> simp
  rw [List.length_append]
  omega

/-- A format that is one piece prints its text. -/
lemma prints_piece {format : List UInt8} {arg : VaList} {p : Piece}
    (h : piecesOf strings format arg = [p]) (hfits : p.Fits) (hlen : p.text.length < 2 ^ 31) :
    Prints strings format arg p.text := by
  have htext : expansion strings format arg = p.text := by
    rw [expansion, h, List.flatMap_singleton]
  rw [← htext] at hlen ⊢
  refine prints_expansion hlen ?_
  intro q hq
  rw [h, List.mem_singleton] at hq
  exact hq ▸ hfits

lemma prints_padded (strings : UInt32 → List UInt8) {digits : List UInt8} (hdigits : ∀ c ∈ digits, 48 ≤ c ∧ c ≤ 57)
    (hwidth : widthFrom 0 digits ≤ 64) (size : FormatSize) {conv : UInt8}
    (hconv : conv ∈ numberConversions) (arg : VaList) :
    Prints strings (paddedFormat digits size conv) arg
      (Piece.text ⟨true, widthFrom 0 digits, .number (numberOf size conv arg)⟩) := by
  have hpiece := piecesOf_conversion (48 :: (digits ++ (sizeText size ++ [conv]))) digits size hconv
    (show (48 : UInt8) ≠ 0 by decide) rfl hdigits (by omega) strings arg
  have hformat : paddedFormat digits size conv =
      37 :: 48 :: (digits ++ (sizeText size ++ [conv])) := by simp [paddedFormat]
  have hlen := length_lead_digits_le size conv arg
  rw [hformat]
  refine prints_piece hpiece ?_ ?_
  · intro _
    change widthFrom 0 digits ≤ 65 + _ + _
    omega
  · rw [length_text_number]
    split_ifs <;> omega

/-- Zero padding reaches the width unless the number is negative and shorter than it. -/
theorem padsTo_iff (strings : UInt32 → List UInt8) {digits : List UInt8}
    (hdigits : ∀ c ∈ digits, 48 ≤ c ∧ c ≤ 57) (hwidth : widthFrom 0 digits ≤ 64)
    (size : FormatSize) {conv : UInt8} (hconv : conv ∈ numberConversions) (arg : VaList) :
    PadsTo strings digits size conv arg ↔ ¬ (argValue size conv arg < 0 ∧
      (leadText size conv arg ++ digitText size conv arg).length < widthFrom 0 digits) := by
  have hprints := prints_padded strings hdigits hwidth size hconv arg
  have hlen := length_text_number (widthFrom 0 digits) size conv arg
  have hbound := length_lead_digits_le size conv arg
  constructor
  · rintro ⟨T, zeros, hT, -, hTlen⟩ ⟨hneg, hshort⟩
    rw [if_pos hneg] at hlen
    have hsame := hT.unique hprints (by omega) (by omega)
    rw [hsame, hlen] at hTlen
    omega
  · intro hcond
    refine ⟨_, _, hprints, text_number true _ size conv arg rfl, ?_⟩
    rw [hlen]
    by_cases hneg : argValue size conv arg < 0
    · have hshort := fun h => hcond ⟨hneg, h⟩
      rw [if_pos hneg]
      omega
    · rw [if_neg hneg]

/-- `"%05d"` for 42. -/
theorem padsTo_iff_positive : PadsTo (fun _ => []) [53] .normal 100 (fun _ => 42) :=
  (padsTo_iff (fun _ => []) (by simp) (by decide) .normal (by decide) (fun _ => 42)).2 (by decide)

/-- `"%05d"` for -42. -/
theorem not_padsTo : ¬ ∀ (strings : UInt32 → List UInt8) (digits : List UInt8),
    (∀ c ∈ digits, 48 ≤ c ∧ c ≤ 57) → widthFrom 0 digits ≤ 64 → ∀ (size : FormatSize)
    (conv : UInt8), conv ∈ numberConversions → ∀ arg, PadsTo strings digits size conv arg := by
  intro h
  obtain ⟨T, zeros, hprints, -, hlen⟩ := h (fun _ => []) [53] (by simp) (by decide) .normal 100
    (by decide) (fun _ => 4294967254)
  have hfive : T.length = 5 := hlen
  obtain ⟨f, hrun, -⟩ := hprints (fun _ => 0) 64 (by rw [hfive]; decide)
  have hfour : (vsnprintf (fun _ => []) (some fun _ => 0) 64
      (some (paddedFormat [53] .normal 100)) (fun _ => 4294967254)).map Prod.fst = some 4 := by
    decide
  rw [hrun, hfive] at hfour
  simp at hfour

/-! ### Plain numbers -/

/-- A length modifier and a conversion without flag and width. -/
def plainFormat (size : FormatSize) (conv : UInt8) : List UInt8 := [37] ++ sizeText size ++ [conv]

/-- A number is printed as the canonical numeral of the argument in the type that the length
modifier selects. -/
theorem plain_number_denotes (strings : UInt32 → List UInt8) (size : FormatSize) {conv : UInt8}
    (hconv : conv ∈ numberConversions) (arg : VaList) :
    ∃ digits, Prints strings (plainFormat size conv) arg (leadText size conv arg ++ digits) ∧
      NoLeadingZero digits ∧
      readNat (convBase conv) (conv = 88) digits = some (argValue size conv arg).natAbs ∧
      readInt (convBase conv) (conv = 88) (signText (argValue size conv arg < 0) ++ digits) =
        some (argValue size conv arg) := by
  have h2 : 2 ≤ convBase conv := (numberOf_ok size conv arg).two_le
  have h16 : convBase conv ≤ 16 := (numberOf_ok size conv arg).le_sixteen
  obtain ⟨-, hflag, hend⟩ := headD_sizeText size hconv
  have hpiece := piecesOf_conversion (sizeText size ++ [conv]) [] size hconv hend
    (if_neg hflag) (by simp) (by decide) strings arg
  have htext := @text_number false 0 size conv arg 0 (by simp [digitWidth_eq])
  rw [List.replicate_zero, List.append_nil] at htext
  have hlen := length_lead_digits_le size conv arg
  refine ⟨digitText size conv arg, ?_, ?_, ?_, ?_⟩
  · rw [← htext] at hlen ⊢
    exact prints_piece hpiece (fun h => absurd h Bool.false_ne_true) (by omega)
  · exact numeral_noLeadingZero h2 h16 _ _
  · exact readNat_numeral h2 h16 _ _
  · have hread := readInt_numeral h2 h16 (conv = 88) (argValue size conv arg)
    simpa [signText, digitText] using hread

/-- `"%lld"` for the least number. -/
theorem plain_number_denotes_least :
    ∃ digits, Prints (fun _ => []) (plainFormat .ll 100) (fun i => if i = 0 then 0 else 0x80000000)
        ([45] ++ digits) ∧ readNat 10 false digits = some (2 ^ 63) := by
  obtain ⟨digits, hprints, -, hread, -⟩ := plain_number_denotes (fun _ => []) .ll
    (show 100 ∈ numberConversions by decide) (fun i => if i = 0 then 0 else 0x80000000)
  exact ⟨digits, hprints, hread⟩

end Gummy
