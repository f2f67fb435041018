import Gummy.Lib.Numeral
import Gummy.Vsnprintf

/-!
What `vsnprintf` prints, without the buffer.

A format and its arguments are pieces of text, and the loop of `vsnprintf` puts the text of
one after the other, until a number does not fit the buffer of `put_number`.
-/

namespace Gummy

open CWord Numeral

/-! ### Numbers -/

/-- The sign that `itoa` stores. -/
def signText (signal : Bool) : List UInt8 := if signal then [45] else []

/-- The text of a number whose digits and sign are padded to `pad` characters. -/
def numberText (x : NumberArgs) (pad : ℕ) : List UInt8 :=
  let digits := numeral x.base x.upper x.num
  signText x.signal ++ List.replicate (pad - (signText x.signal ++ digits).length) 48 ++ digits

/-- The variables are in the range that `itoa` is written for. -/
structure NumberArgs.Ok (x : NumberArgs) : Prop where
  two_le : 2 ≤ x.base
  le_sixteen : x.base ≤ 16
  num_lt : x.num < 2 ^ 64

lemma getD_itoaChars (upper : Bool) {d : ℕ} (hd : d < 16) :
    (itoaChars upper).getD d 0 = digitByte upper d := by
  revert upper d
  decide

/-- The digit loop of `itoa`. -/
lemma itoaDigits_eq {base : ℕ} (h2 : 2 ≤ base) (hbase : base ≤ 16) (upper : Bool)
    {fuel num : ℕ} (hnum : num < 2 ^ fuel) : itoaDigits (itoaChars upper) base fuel num =
      (base.digits num).map (digitByte upper) := by
  induction fuel generalizing num with
  | zero =>
    obtain rfl : num = 0 := by simpa using hnum
    simp [itoaDigits]
  | succ fuel ih =>
    rw [itoaDigits]
    split_ifs with h0
    · simp [h0]
    · have hdiv : num / base < 2 ^ fuel := by
        rw [Nat.div_lt_iff_lt_mul (by omega)]
        calc num < 2 ^ fuel * 2 := by rwa [← pow_succ]
          _ ≤ 2 ^ fuel * base := Nat.mul_le_mul_left _ h2
      rw [Nat.digits_def' (by omega) (by omega), List.map_cons, ih hdiv,
        getD_itoaChars upper ((Nat.mod_lt _ (by omega)).trans_le hbase)]

/-- `itoa` stores the text of the number and a NUL. -/
lemma itoa_eq {x : NumberArgs} (hx : x.Ok) (pad : ℕ) :
    itoa x.base x.num x.signal x.upper pad =
      (numberText x pad ++ [0], (numberText x pad).length) := by
  have hbase : ¬ (x.base < 2 ∨ 16 < x.base) := by
    have h2 := hx.two_le
    have h16 := hx.le_sixteen
    omega
  have hdigits : (if x.num = 0 then [48] else itoaDigits (itoaChars x.upper) x.base 64 x.num) =
      (numeral x.base x.upper x.num).reverse := by
    unfold numeral
    split_ifs
    · rfl
    · rw [itoaDigits_eq hx.two_le hx.le_sixteen x.upper hx.num_lt, List.map_reverse,
        List.reverse_reverse]
  rw [itoa, if_neg hbase]
  simp only [hdigits]
  generalize hl : numeral x.base x.upper x.num = l
  have hpad (k : ℕ) : (if k < pad then pad - k else 0) = pad - k := by
    split_ifs <;> omega
  unfold numberText signText
  have htake : (l.reverse.take l.length).reverse = l := by
    rw [List.take_of_length_le (by simp), List.reverse_reverse]
  cases x.signal <;> simp [hpad, hl, htake, Nat.add_comm]

lemma length_numberText (x : NumberArgs) (pad : ℕ) : (numberText x pad).length =
    max pad (signText x.signal ++ numeral x.base x.upper x.num).length := by
  simp only [numberText, List.length_append, List.length_replicate]
  omega

/-- Without padding no number needs more than 65 characters. -/
lemma length_unpadded_le {x : NumberArgs} (hx : x.Ok) :
    (signText x.signal ++ numeral x.base x.upper x.num).length ≤ 65 := by
  have hdigits := length_numeral_le hx.two_le x.upper (by norm_num) hx.num_lt
  have hsign : (signText x.signal).length ≤ 1 := by
    unfold signText
    split_ifs <;> simp
  rw [List.length_append]
  omega

/-! ### Pieces -/

/-- What one pass of the loop prints. -/
structure Piece where
  zeroFlag : Bool
  width : ℕ
  converted : Converted

/-- The characters of a piece. -/
def Piece.text (p : Piece) : List UInt8 :=
  match p.converted with
  | .chars l => l
  | .number x => (if x.hexLead then [48, 120] else []) ++ numberText x (digitWidth p.zeroFlag p.width x)

/-- A number is not padded to more characters than the buffer of `put_number` can hold. -/
def Piece.Fits (p : Piece) : Prop :=
  match p.converted with
  | .chars _ => True
  | .number x =>
    p.zeroFlag → p.width ≤ 65 + (if x.signal then 1 else 0) + if x.hexLead then 2 else 0

instance decidablePieceFits (p : Piece) : Decidable p.Fits :=
  match p with
  | ⟨_, _, .chars _⟩ => inferInstanceAs (Decidable True)
  | ⟨zeroFlag, width, .number x⟩ => inferInstanceAs (Decidable
      (zeroFlag → width ≤ 65 + (if x.signal then 1 else 0) + if x.hexLead then 2 else 0))

/-- The pieces of a format, read as the loop of `vsnprintf` reads it. -/
def pieces (strings : UInt32 → List UInt8) : ℕ → List UInt8 → VaList → List Piece
  | 0, _, _ => []
  | fuel + 1, format, arg =>
    if format.headD 0 = 0 then []
    else if format.headD 0 ≠ 37 then
      ⟨false, 0, .chars [format.headD 0]⟩ :: pieces strings fuel format.tail arg
    else
      let format := format.tail
      if format.headD 0 = 0 then []
      else
        let (zeroFlag, format) := parseFlag format
        let (width, format) := parseWidth 0 format
        let (size, format) := parseSize format
        if format.headD 0 = 0 then []
        else
          let (converted, arg) := switchConversion strings size (format.headD 0) arg
          ⟨zeroFlag, width, converted⟩ :: pieces strings fuel format.tail arg

/-- All pieces of a format. -/
def piecesOf (strings : UInt32 → List UInt8) (format : List UInt8) (arg : VaList) : List Piece :=
  pieces strings format.length format arg

/-- The text that a format expands to. -/
def expansion (strings : UInt32 → List UInt8) (format : List UInt8) (arg : VaList) : List UInt8 :=
  (piecesOf strings format arg).flatMap Piece.text

/-- The variables of a number are in range. -/
def Piece.Ok (p : Piece) : Prop := ∀ x, p.converted = .number x → x.Ok

variable {strings : UInt32 → List UInt8}

lemma word_lt (arg : VaList) : arg.word < 2 ^ 32 := (arg 0).toNat_lt

lemma longLong_lt (arg : VaList) : arg.longLong < 2 ^ 64 := by
  have h0 := (arg 0).toNat_lt
  have h1 := (arg 1).toNat_lt
  unfold VaList.longLong
  omega

/-- The base of a number conversion. -/
def convBase (conv : UInt8) : ℕ :=
  if conv = 120 ∨ conv = 88 ∨ conv = 112 then 16 else if conv = 111 then 8 else 10

/-- The width of the type that a length modifier selects. -/
def typeBits : FormatSize → ℕ
  | .hh => 8
  | .h => 16
  | .l => 32
  | .ll => 64
  | .normal => 32

/-- The argument as it is passed. -/
def rawArg : FormatSize → VaList → ℕ
  | .ll, arg => arg.longLong
  | _, arg => arg.word

/-- The argument converted to the type of the conversion. -/
def argValue (size : FormatSize) (conv : UInt8) (arg : VaList) : ℤ :=
  if conv = 112 then arg.word
  else if conv = 100 ∨ conv = 105 then (rawArg size arg : ℤ).bmod (2 ^ typeBits size)
  else (rawArg size arg % 2 ^ typeBits size : ℕ)

/-- The number conversions, `d`, `i`, `u`, `x`, `X`, `o` and `p`. -/
def numberConversions : List UInt8 := [100, 105, 117, 120, 88, 111, 112]

/-- The variables that a number conversion is to set. -/
def numberOf (size : FormatSize) (conv : UInt8) (arg : VaList) : NumberArgs where
  base := convBase conv
  num := (argValue size conv arg).natAbs
  signal := argValue size conv arg < 0
  upper := conv = 88
  hexLead := conv = 112

lemma signedArg_fst (size : FormatSize) (arg : VaList) :
    (signedArg size arg).1 = (rawArg size arg : ℤ).bmod (2 ^ typeBits size) := by
  unfold signedArg
  cases size <;> dsimp only [rawArg, typeBits]

lemma unsignedArg_fst (size : FormatSize) (arg : VaList) :
    (unsignedArg size arg).1 = rawArg size arg % 2 ^ typeBits size := by
  have hword := Nat.mod_eq_of_lt (word_lt arg)
  have hlong := Nat.mod_eq_of_lt (longLong_lt arg)
  cases size
  · exact hword.symm
  · rfl
  · rfl
  · exact hword.symm
  · exact hlong.symm

lemma two_pow_typeBits_le (size : FormatSize) : 2 ^ typeBits size ≤ 2 ^ 64 :=
  Nat.pow_le_pow_right (by norm_num) (by cases size <;> decide)

lemma argValue_bounds (size : FormatSize) (conv : UInt8) (arg : VaList) :
    -2 ^ 63 ≤ argValue size conv arg ∧ argValue size conv arg < 2 ^ 64 ∧
      (conv = 100 ∨ conv = 105 → argValue size conv arg < 2 ^ 63) := by
  have hword := word_lt arg
  have hpow := two_pow_typeBits_le size
  have hpos := Nat.two_pow_pos (typeBits size)
  unfold argValue
  split_ifs with hp hd
  · subst hp
    refine ⟨by omega, by omega, fun h => absurd h (by decide)⟩
  · have hlo := @Int.le_bmod (rawArg size arg) (2 ^ typeBits size) hpos
    have hhi := @Int.bmod_lt (rawArg size arg) (2 ^ typeBits size) hpos
    generalize 2 ^ typeBits size = k at *
    generalize (rawArg size arg : ℤ).bmod k = v at *
    omega
  · have hlt := Nat.mod_lt (rawArg size arg) hpos
    refine ⟨by omega, by omega, fun h => absurd h hd⟩

/-- The two steps of the negation give the absolute value, also of the least number. -/
lemma negate_eq {v : ℤ} (hlo : -2 ^ 63 ≤ v) (hhi : v < 2 ^ 63) :
    (if v < 0 then ((-(v + 1)).toNat + 1) % 2 ^ 64 else v.toNat) = v.natAbs := by
  split_ifs <;> omega

/-- The `switch` on a number conversion. -/
lemma switchConversion_number (size : FormatSize) {conv : UInt8} (h : conv ∈ numberConversions)
    (arg : VaList) :
    (switchConversion strings size conv arg).1 = .number (numberOf size conv arg) := by
  have hsigned : conv = 100 ∨ conv = 105 →
      (switchConversion strings size conv arg).1 = .number (numberOf size conv arg) := by
    intro hconv
    have hv : argValue size conv arg = (signedArg size arg).1 := by
      rw [signedArg_fst]
      rcases hconv with rfl | rfl <;> rfl
    obtain ⟨hlo, -, hhi⟩ := argValue_bounds size conv arg
    have hneg := negate_eq hlo (hhi hconv)
    rw [numberOf, ← hneg, hv]
    rcases hconv with rfl | rfl <;> rfl
  have hunsigned : conv = 117 ∨ conv = 120 ∨ conv = 88 ∨ conv = 111 →
      (switchConversion strings size conv arg).1 = .number (numberOf size conv arg) := by
    intro hconv
    have hv : argValue size conv arg = ((unsignedArg size arg).1 : ℤ) := by
      rw [unsignedArg_fst]
      rcases hconv with rfl | rfl | rfl | rfl <;> rfl
    have hneg : decide (((unsignedArg size arg).1 : ℤ) < 0) = false := by simp
    rw [numberOf, hv, Int.natAbs_natCast, hneg]
    rcases hconv with rfl | rfl | rfl | rfl <;> rfl
  have hpointer : conv = 112 →
      (switchConversion strings size conv arg).1 = .number (numberOf size conv arg) := by
    rintro rfl
    have hv : argValue size 112 arg = (arg.word : ℤ) := rfl
    have hneg : decide ((arg.word : ℤ) < 0) = false := by simp
    rw [numberOf, hv, Int.natAbs_natCast, hneg]
    rfl
  simp only [numberConversions, List.mem_cons, List.not_mem_nil, or_false] at h
  rcases h with h | h | h | h | h | h | h
  · exact hsigned (Or.inl h)
  · exact hsigned (Or.inr h)
  · exact hunsigned (Or.inl h)
  · exact hunsigned (Or.inr (Or.inl h))
  · exact hunsigned (Or.inr (Or.inr (Or.inl h)))
  · exact hunsigned (Or.inr (Or.inr (Or.inr h)))
  · exact hpointer h

/-- No other conversion leaves a number. -/
lemma switchConversion_chars (size : FormatSize) {conv : UInt8} (h : conv ∉ numberConversions)
    (arg : VaList) : ∃ l, (switchConversion strings size conv arg).1 = .chars l := by
  simp only [numberConversions, List.mem_cons, List.not_mem_nil, or_false, not_or] at h
  obtain ⟨hd, hi, hu, hx, hX, ho, hp⟩ := h
  rw [switchConversion, if_neg hp, if_neg (not_or.2 ⟨hd, hi⟩),
    if_neg (not_or.2 ⟨hu, not_or.2 ⟨hx, not_or.2 ⟨hX, ho⟩⟩⟩)]
  split_ifs <;> exact ⟨_, rfl⟩

lemma numberOf_ok (size : FormatSize) (conv : UInt8) (arg : VaList) :
    (numberOf size conv arg).Ok := by
  obtain ⟨hlo, hhi, -⟩ := argValue_bounds size conv arg
  have hbase : convBase conv = 16 ∨ convBase conv = 8 ∨ convBase conv = 10 := by
    unfold convBase
    split_ifs <;> simp
  constructor
  · change 2 ≤ convBase conv
    omega
  · change convBase conv ≤ 16
    omega
  · change (argValue size conv arg).natAbs < 2 ^ 64
    omega

/-- Every number that the `switch` leaves is in range. -/
lemma switchConversion_ok (size : FormatSize) (conv : UInt8) (arg : VaList) {x : NumberArgs}
    (hx : (switchConversion strings size conv arg).1 = .number x) : x.Ok := by
  by_cases h : conv ∈ numberConversions
  · rw [switchConversion_number size h, Converted.number.injEq] at hx
    exact hx ▸ numberOf_ok size conv arg
  · obtain ⟨l, hl⟩ := @switchConversion_chars strings size conv h arg
    rw [hl] at hx
    cases hx

lemma pieces_ok (strings : UInt32 → List UInt8) (fuel : ℕ) (format : List UInt8) (arg : VaList) :
    ∀ p ∈ pieces strings fuel format arg, p.Ok := by
  induction fuel generalizing format arg with
  | zero => simp [pieces]
  | succ fuel ih =>
    intro p hp
    unfold pieces at hp
    dsimp only at hp
    split_ifs at hp with h0 h1 h2 h3
    · simp at hp
    · rcases List.mem_cons.1 hp with rfl | hp
      · intro x hx
        cases hx
      · exact ih _ _ p hp
    · simp at hp
    · simp at hp
    · rcases List.mem_cons.1 hp with rfl | hp
      · intro x hx
        exact switchConversion_ok _ _ _ hx
      · exact ih _ _ p hp

/-! ### The loop -/

/-- One piece. -/
def putPiece (f : Formatter) (p : Piece) : Option Formatter :=
  putConverted f p.zeroFlag p.width p.converted

lemma vsnprintfLoop_eq (fuel : ℕ) (f : Formatter) (format : List UInt8) (arg : VaList) :
    vsnprintfLoop strings fuel f format arg =
      (pieces strings fuel format arg).foldlM putPiece f := by
  induction fuel generalizing f format arg with
  | zero => rfl
  | succ fuel ih =>
    unfold vsnprintfLoop pieces
    dsimp only
    split_ifs with h0 h1 h2 h3
    · rfl
    · rw [ih]
      rfl
    · rfl
    · rfl
    · simp only [ih, List.foldlM_cons, putPiece]
      cases putConverted f _ _ _ <;> rfl

/-- A number fits if and only if `itoa` stays in the buffer. -/
lemma length_le_iff_fits {x : NumberArgs} (hx : x.Ok) (zeroFlag : Bool) (width : ℕ) :
    (numberText x (digitWidth zeroFlag width x)).length + 1 ≤ numberBufferSize ↔
      Piece.Fits ⟨zeroFlag, width, .number x⟩ := by
  have hlen := length_unpadded_le hx
  rw [length_numberText]
  have hmax : max (digitWidth zeroFlag width x)
      (signText x.signal ++ numeral x.base x.upper x.num).length + 1 ≤ numberBufferSize ↔
      digitWidth zeroFlag width x ≤ 65 := by
    unfold numberBufferSize
    omega
  rw [hmax]
  unfold digitWidth Piece.Fits
  cases zeroFlag
  · simp
  · dsimp only
    simp only [true_and, true_implies]
    split_ifs <;> omega

lemma numberText_ne_nil (x : NumberArgs) (pad : ℕ) : numberText x pad ≠ [] := by
  simp [numberText, numeral_ne_nil]

/-- A piece that fits is put as its text; any other one overruns the buffer. -/
lemma putPiece_eq {p : Piece} (hp : p.Ok) (f : Formatter) :
    putPiece f p = if p.Fits then some (p.text.foldl putChar f) else none := by
  obtain ⟨zeroFlag, width, _ | x⟩ := p
  · rfl
  · have hx : x.Ok := hp x rfl
    have hfits := length_le_iff_fits hx zeroFlag width
    have hne := List.length_pos_iff.2 (numberText_ne_nil x (digitWidth zeroFlag width x))
    simp only [putPiece, putConverted, putNumber, putString, itoa_eq hx, Piece.text]
    generalize numberText x (digitWidth zeroFlag width x) = l at *
    rw [if_pos hne, List.take_append_of_le_length le_rfl, List.take_length, List.length_append,
      List.length_singleton, List.foldl_append]
    by_cases h : Piece.Fits ⟨zeroFlag, width, .number x⟩
    · rw [if_pos h, if_neg (not_lt.2 (hfits.2 h))]
      cases x.hexLead <;> rfl
    · rw [if_neg h, if_pos (not_le.1 (mt hfits.1 h))]

/-- A run over pieces. -/
lemma foldlM_putPiece {l : List Piece} (hl : ∀ p ∈ l, p.Ok) (f : Formatter) :
    l.foldlM putPiece f =
      if ∀ p ∈ l, p.Fits then some ((l.flatMap Piece.text).foldl putChar f) else none := by
  induction l generalizing f with
  | nil => rfl
  | cons p l ih =>
    rw [List.foldlM_cons, putPiece_eq (hl p (by simp))]
    by_cases hp : p.Fits
    · have ih' := ih fun q hq => hl q (by simp [hq])
      simp [hp, ih']
    · simp [hp]

/-- The loop of `vsnprintf` puts the expansion, unless a number overruns the buffer. -/
lemma vsnprintfLoop_piecesOf (f : Formatter) (format : List UInt8) (arg : VaList) :
    vsnprintfLoop strings format.length f format arg =
      if ∀ p ∈ piecesOf strings format arg, p.Fits then
        some ((expansion strings format arg).foldl putChar f) else none := by
  rw [vsnprintfLoop_eq]
  exact foldlM_putPiece (pieces_ok strings _ format arg) f

/-! ### The buffer of `put_number` -/

/-- No call of `itoa` leaves the buffer of `put_number` if and only if no number is padded to
more than 65 characters. -/
theorem vsnprintf_within_iff (strings : UInt32 → List UInt8) (s : Option ByteMem) (n : UInt32)
    (format : Option (List UInt8)) (arg : VaList) :
    vsnprintf strings s n format arg ≠ none ↔
      (s.isNone ∧ n ≠ 0) ∨ ∀ l, format = some l → ∀ p ∈ piecesOf strings l arg, p.Fits := by
  rcases format with _ | l
  · simp [vsnprintf]
  · by_cases hs : s.isNone ∧ n ≠ 0
    · simp [vsnprintf, hs]
    · by_cases hfit : ∀ p ∈ piecesOf strings l arg, p.Fits
      · simp only [vsnprintf, hs, vsnprintfLoop_piecesOf, if_pos hfit]
        simpa using hfit
      · simp only [vsnprintf, hs, vsnprintfLoop_piecesOf, if_neg hfit]
        simpa using hfit

/-- `printk("%066d", 5)`. -/
theorem vsnprintf_overruns : ¬ ∀ (strings : UInt32 → List UInt8) (s : Option ByteMem) (n : UInt32)
    (format : Option (List UInt8)) (arg : VaList), vsnprintf strings s n format arg ≠ none := by
  intro h
  refine h (fun _ => []) (some fun _ => 0) 256 (some [37, 48, 54, 54, 100]) (fun _ => 5) ?_
  rfl

end Gummy
