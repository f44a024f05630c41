import Mathlib
import Scriptlet.Proofs.Lexemes

/-! # Floats and their decimals

The text of a float is a decimal in the interval of the reals that round to it. The intervals of
different floats do not meet, and a decimal has one value, so floats that are written the same are the
same. A literal denotes a float from zero up to infinity, whatever its digits, since the float nearest
to a decimal is found by one division of such numbers.
-/
namespace Scriptlet

/-! ## Digits -/

section

variable {text more : Bytes}

theorem digitsValue_foldl (text : Bytes) (n : Nat) :
    text.foldl (fun n b => 10 * n + (b.toNat - 0x30)) n =
      n * 10 ^ text.length + digitsValue text := by
  induction text generalizing n with
  | nil => simp [digitsValue]
  | cons b text ih =>
    rw [digitsValue,List.foldl_cons,List.foldl_cons,ih,ih,List.length_cons,pow_succ]
    ring

theorem digitsValue_append (text more : Bytes) :
    digitsValue (text ++ more) = digitsValue text * 10 ^ more.length + digitsValue more := by
  rw [digitsValue,List.foldl_append,digitsValue_foldl more]
  rfl

theorem digitsValue_zeros (n : Nat) : digitsValue (List.replicate n 0x30) = 0 := by
  induction n with
  | zero => rfl
  | succ n ih =>
    rw [List.replicate_succ',digitsValue_append,ih]
    rfl

theorem toNat_of_isDigit {c : Char} (h : c.isDigit = true) : c.toUInt8.toNat = c.toNat := by
  have hbound : c.toNat ≤ 57 := by
    simp only [Char.isDigit,Bool.and_eq_true,decide_eq_true_eq] at h
    exact h.2
  change (UInt8.ofNat c.toNat).toNat = c.toNat
  rw [UInt8.toNat_ofNat']
  omega

theorem isDigit_toUInt8 {c : Char} (h : c.isDigit = true) : isDigit c.toUInt8 = true := by
  have hnat := toNat_of_isDigit h
  simp only [Char.isDigit,Bool.and_eq_true,decide_eq_true_eq] at h
  simp only [isDigit,Bool.and_eq_true,decide_eq_true_eq,UInt8.le_iff_toNat_le]
  rw [hnat]
  exact h

theorem isDigits_decimal (n : Nat) : IsDigits (decimal n) := by
  constructor
  · simp [decimal,Nat.toDigits_ne_nil]
  · intro b hb
    obtain ⟨c,hc,rfl⟩ := List.mem_map.1 hb
    exact isDigit_toUInt8 (Nat.isDigit_of_mem_toDigits (by omega) (by omega) hc)

theorem digitsValue_decimal (n : Nat) : digitsValue (decimal n) = n := by
  have hchars : ∀ (l : List Char) (m : Nat), (∀ c ∈ l, c.isDigit = true) →
      (l.map Char.toUInt8).foldl (fun n b => 10 * n + (b.toNat - 0x30)) m =
        Nat.ofDigitChars 10 l m := by
    intro l
    induction l with
    | nil => simp [Nat.ofDigitChars_nil]
    | cons c l ih =>
      intro m hl
      rw [List.map_cons,List.foldl_cons,Nat.ofDigitChars_cons,
        toNat_of_isDigit (hl c List.mem_cons_self)]
      exact ih _ fun d hd => hl d (List.mem_cons_of_mem c hd)
  rw [digitsValue,decimal,hchars]
  · exact Nat.ofDigitChars_ten_toDigits
  · intro c hc
    exact Nat.isDigit_of_mem_toDigits (by omega) (by omega) hc

end

/-! ## A decimal has one value -/

/-- A text of digits around a point, and the number it denotes. -/
def IsDecimal (text : Bytes) (value : ℚ) : Prop :=
  ∃ whole fraction, IsDigits whole ∧ IsDigits fraction ∧ text = whole ++ 0x2e :: fraction ∧
    (digitsValue (whole ++ fraction) : ℚ) / 10 ^ fraction.length = value

/-- The digits in front of a point end there. -/
theorem split_at_point {whole whole' fraction fraction' : Bytes} (hwhole : IsDigits whole)
    (hwhole' : IsDigits whole') (h : whole ++ 0x2e :: fraction = whole' ++ 0x2e :: fraction') :
    whole = whole' ∧ fraction = fraction' := by
  have hsplit := append_inj_of_run hwhole.2 hwhole'.2 (head_point fraction) (head_point fraction') h
  exact ⟨hsplit.1,(List.cons.inj hsplit.2).2⟩

theorem IsDecimal.unique {text : Bytes} {value value' : ℚ} (h : IsDecimal text value)
    (h' : IsDecimal text value') : value = value' := by
  obtain ⟨whole,fraction,hwhole,-,rfl,rfl⟩ := h
  obtain ⟨whole',fraction',hwhole',-,htext,rfl⟩ := h'
  obtain ⟨rfl,rfl⟩ := split_at_point hwhole hwhole' htext
  rfl

section

variable {c n : Nat}

theorem isDigit_zeros (n : Nat) : ∀ b ∈ List.replicate n (0x30 : UInt8), isDigit b = true := by
  intro b hb
  rw [List.eq_of_mem_replicate hb]
  rfl

theorem isDigits_zero : IsDigits [0x30] := ⟨List.cons_ne_nil _ _,isDigit_zeros 1⟩

theorem isDecimal_of_zeros (c n : Nat) :
    IsDecimal (decimal c ++ List.replicate n 0x30 ++ utf8 ".0") (c * 10 ^ n) := by
  have hdigits := isDigits_decimal c
  refine ⟨decimal c ++ List.replicate n 0x30,[0x30],⟨by simp [hdigits.1],?_⟩,isDigits_zero,rfl,?_⟩
  · intro b hb
    exact (List.mem_append.1 hb).elim (hdigits.2 b) (isDigit_zeros n b)
  · have hvalue : digitsValue (decimal c ++ List.replicate n 0x30 ++ [0x30]) = c * 10 ^ n * 10 := by
      rw [List.append_assoc,← List.replicate_succ',digitsValue_append,digitsValue_zeros,
        digitsValue_decimal,List.length_replicate,pow_succ]
      ring
    rw [hvalue]
    push_cast
    rw [List.length_singleton,pow_one,mul_div_assoc]
    norm_num

theorem isDecimal_of_point_inside (h : n < (decimal c).length) (hn : n ≠ 0) :
    IsDecimal ((decimal c).take ((decimal c).length - n) ++
      0x2e :: (decimal c).drop ((decimal c).length - n)) (c / 10 ^ n) := by
  have hdigits := isDigits_decimal c
  refine ⟨_,_,⟨?_,?_⟩,⟨?_,?_⟩,rfl,?_⟩
  · rw [← List.length_pos_iff,List.length_take]
    omega
  · exact fun b hb => hdigits.2 b (List.mem_of_mem_take hb)
  · rw [← List.length_pos_iff,List.length_drop]
    omega
  · exact fun b hb => hdigits.2 b (List.mem_of_mem_drop hb)
  · have hlength : ((decimal c).drop ((decimal c).length - n)).length = n := by
      rw [List.length_drop]
      omega
    rw [List.take_append_drop,digitsValue_decimal,hlength]

theorem isDecimal_of_point_before (h : (decimal c).length ≤ n) :
    IsDecimal (utf8 "0." ++ List.replicate (n - (decimal c).length) 0x30 ++ decimal c)
      (c / 10 ^ n) := by
  have hdigits := isDigits_decimal c
  let zeros := n - (decimal c).length
  refine ⟨[0x30],List.replicate zeros 0x30 ++ decimal c,isDigits_zero,
    ⟨by simp [hdigits.1],?_⟩,List.append_assoc _ _ _,?_⟩
  · intro b hb
    exact (List.mem_append.1 hb).elim (isDigit_zeros _ b) (hdigits.2 b)
  · have hlength : (List.replicate zeros (0x30 : UInt8) ++ decimal c).length = n := by
      rw [List.length_append,List.length_replicate]
      omega
    have hvalue : digitsValue ([0x30] ++ (List.replicate zeros 0x30 ++ decimal c)) = c := by
      rw [← List.append_assoc,List.singleton_append,← List.replicate_succ,digitsValue_append,
        digitsValue_zeros,digitsValue_decimal]
      omega
    rw [hvalue,hlength]

end

theorem isDecimal_positional (c : Nat) (k : Int) : IsDecimal (positional c k) (c * 10 ^ k) := by
  by_cases hk : 0 ≤ k
  · obtain ⟨n,rfl⟩ := Int.eq_ofNat_of_zero_le hk
    rw [positional,if_pos hk,zpow_natCast]
    exact isDecimal_of_zeros c n
  · obtain ⟨n,rfl⟩ : ∃ n : Nat, k = -n := ⟨k.natAbs,by omega⟩
    have hplaces : (- -(n : Int)).toNat = n := by omega
    rw [positional,if_neg hk,hplaces,zpow_neg,zpow_natCast,← div_eq_mul_inv]
    by_cases hinside : n < (decimal c).length
    · rw [if_pos hinside]
      exact isDecimal_of_point_inside hinside (by omega)
    · rw [if_neg hinside]
      exact isDecimal_of_point_before (Nat.le_of_not_lt hinside)

/-! ## Intervals -/

namespace Rounding

variable {r : Rounding} {k : Int} {c : Nat}

/-- The lower end of an interval. -/
def lowEnd (r : Rounding) : ℚ := r.low * 2 ^ r.scale

/-- The upper end of an interval. -/
def highEnd (r : Rounding) : ℚ := r.high * 2 ^ r.scale

/-- A number lies in an interval. -/
def Holds (r : Rounding) (x : ℚ) : Prop :=
  if r.closed then r.lowEnd ≤ x ∧ x ≤ r.highEnd else r.lowEnd < x ∧ x < r.highEnd

theorem Holds.le (h : r.Holds x) : r.lowEnd ≤ x ∧ x ≤ r.highEnd := by
  unfold Holds at h
  split at h
  · exact h
  · exact ⟨h.1.le,h.2.le⟩

theorem Holds.of_lt (hlow : r.lowEnd < x) (hhigh : x < r.highEnd) : r.Holds x := by
  unfold Holds
  split
  · exact ⟨hlow.le,hhigh.le⟩
  · exact ⟨hlow,hhigh⟩

/-- A power of ten in the units in which an interval is compared with its multiples. -/
def unit (r : Rounding) (k : Int) : Nat := Nat.pow 10 k.toNat * Nat.pow 2 (-r.scale).toNat

def scaled (r : Rounding) (k : Int) (x : Nat) : Nat :=
  x * Nat.pow 2 r.scale.toNat * Nat.pow 10 (-k).toNat

def inside (r : Rounding) (k : Int) (c : Nat) : Bool :=
  if r.closed then r.scaled k r.low ≤ c * r.unit k && c * r.unit k ≤ r.scaled k r.high
  else r.scaled k r.low < c * r.unit k && c * r.unit k < r.scaled k r.high

theorem zpow_eq_div (b : ℚ) (n : Int) : b ^ n = b ^ n.toNat / b ^ (-n).toNat := by
  rcases le_total 0 n with h | h
  · obtain ⟨m,rfl⟩ := Int.eq_ofNat_of_zero_le h
    simp
  · obtain ⟨m,hm⟩ := Int.eq_ofNat_of_zero_le (neg_nonneg.2 h)
    obtain rfl : n = -m := by omega
    have hzero : (-(m : Int)).toNat = 0 := by omega
    simp [hzero]

/-- Comparing with a multiple of a power of ten takes natural numbers only. -/
theorem scaled_cmp (r : Rounding) (k : Int) (x c : Nat) :
    (r.scaled k x ≤ c * r.unit k ↔ (x : ℚ) * 2 ^ r.scale ≤ c * 10 ^ k) ∧
      (c * r.unit k ≤ r.scaled k x ↔ (c : ℚ) * 10 ^ k ≤ x * 2 ^ r.scale) := by
  have htwo : (0 : ℚ) < 2 ^ (-r.scale).toNat := by positivity
  have hten : (0 : ℚ) < 10 ^ (-k).toNat := by positivity
  have hscaled : ((r.scaled k x : Nat) : ℚ) =
      x * 2 ^ r.scale * (2 ^ (-r.scale).toNat * 10 ^ (-k).toNat) := by
    rw [zpow_eq_div 2,scaled]
    push_cast [Nat.pow_eq]
    field_simp
  have hunit : ((c * r.unit k : Nat) : ℚ) =
      c * 10 ^ k * (2 ^ (-r.scale).toNat * 10 ^ (-k).toNat) := by
    rw [zpow_eq_div 10,unit]
    push_cast [Nat.pow_eq]
    field_simp
  have hpos := mul_pos htwo hten
  constructor
  · rw [← Nat.cast_le (α := ℚ),hscaled,hunit,mul_le_mul_iff_left₀ hpos]
  · rw [← Nat.cast_le (α := ℚ),hscaled,hunit,mul_le_mul_iff_left₀ hpos]

theorem inside_iff : r.inside k c = true ↔ r.Holds (c * 10 ^ k) := by
  have hlow := scaled_cmp r k r.low c
  have hhigh := scaled_cmp r k r.high c
  simp only [inside,Holds,lowEnd,highEnd]
  split
  · simp only [Bool.and_eq_true,decide_eq_true_eq,hlow.1,hhigh.2]
  · simp only [Bool.and_eq_true,decide_eq_true_eq,← not_le,hlow.2,hhigh.1]

/-- The choice on a grid is between the two neighbours of the value. -/
theorem onGrid?_eq (r : Rounding) (k : Int) :
    r.onGrid? k =
      let below := r.scaled k r.value / r.unit k
      match r.inside k below,r.inside k (below + 1) with
      | false, false => none
      | true, false => some below
      | false, true => some (below + 1)
      | true, true =>
        match compare (2 * r.scaled k r.value) ((below + (below + 1)) * r.unit k) with
        | .lt => some below
        | .gt => some (below + 1)
        | .eq => some (if below % 2 = 0 then below else below + 1) := rfl

theorem onGrid?_holds (h : r.onGrid? k = some c) : r.Holds (c * 10 ^ k) := by
  apply inside_iff.1
  rw [onGrid?_eq] at h
  generalize r.scaled k r.value / r.unit k = below at h
  dsimp only at h
  grind

/-- A grid that is finer than the scale of the interval has a multiple in it. -/
theorem onGrid?_ne_none (hlow : r.low + 1 ≤ r.value) (hhigh : r.value < r.high)
    (hfine : (10 : ℚ) ^ k ≤ 2 ^ r.scale) : r.onGrid? k ≠ none := by
  have hunit : 0 < r.unit k :=
    Nat.mul_pos (Nat.pow_pos (by decide)) (Nat.pow_pos (by decide))
  let below := r.scaled k r.value / r.unit k
  have hle : (below : ℚ) * 10 ^ k ≤ r.value * 2 ^ r.scale :=
    (scaled_cmp r k r.value below).2.1 (Nat.div_mul_le_self _ _)
  have hlt : (r.value : ℚ) * 2 ^ r.scale < (below + 1 : Nat) * 10 ^ k := by
    rw [← not_le,← (scaled_cmp r k r.value (below + 1)).2,not_le]
    exact (Nat.div_lt_iff_lt_mul hunit).1 (Nat.lt_succ_self _)
  have hscale : (0 : ℚ) < 2 ^ r.scale := by positivity
  have hbelow : r.inside k below = true := by
    apply inside_iff.2
    apply Holds.of_lt
    · have hcast : (r.low : ℚ) + 1 ≤ r.value := by exact_mod_cast hlow
      have hstep : ((r.low : ℚ) + 1) * 2 ^ r.scale ≤ r.value * 2 ^ r.scale :=
        mul_le_mul_of_nonneg_right hcast hscale.le
      push_cast at hlt
      rw [lowEnd]
      linarith
    · have hcast : (r.value : ℚ) < r.high := by exact_mod_cast hhigh
      exact hle.trans_lt (mul_lt_mul_of_pos_right hcast hscale)
  rw [onGrid?_eq]
  dsimp only
  grind

/-- The walk ends in the interval if it gets to a grid that has a multiple there. -/
theorem refine_holds {steps : Nat} {k : Int} (h : ∃ i : Nat, i < steps ∧ r.onGrid? (k - i) ≠ none) :
    r.Holds ((r.refine steps k).1 * 10 ^ (r.refine steps k).2) := by
  induction steps generalizing k with
  | zero =>
    obtain ⟨i,hi,-⟩ := h
    omega
  | succ steps ih =>
    rw [refine]
    cases hgrid : r.onGrid? k with
    | some c => exact onGrid?_holds hgrid
    | none =>
      apply ih
      obtain ⟨i,hi,hsome⟩ := h
      cases i with
      | zero => simp [hgrid] at hsome
      | succ i =>
        refine ⟨i,by omega,?_⟩
        have hindex : k - 1 - (i : Int) = k - ((i + 1 : Nat) : Int) := by omega
        rwa [hindex]

end Rounding

/-! ## The intervals of the floats -/

section

/-- Three decimal places are fewer than ten binary ones. -/
theorem ten_pow_le_two_pow {m n : Nat} (h : 10 * m ≤ 3 * n) : 10 ^ m ≤ 2 ^ n := by
  apply le_of_pow_le_pow_left₀ three_ne_zero (Nat.zero_le _)
  calc (10 ^ m) ^ 3 = (10 ^ 3) ^ m := by rw [← pow_mul,← pow_mul,mul_comm]
    _ ≤ (2 ^ 10) ^ m := Nat.pow_le_pow_left (by norm_num) m
    _ = 2 ^ (10 * m) := (pow_mul 2 10 m).symm
    _ ≤ 2 ^ (3 * n) := Nat.pow_le_pow_right (by norm_num) h
    _ = (2 ^ n) ^ 3 := by rw [← pow_mul,mul_comm]

/-- Ten decimal places are more than thirty-three binary ones. -/
theorem two_pow_le_ten_pow {m n : Nat} (h : 10 * n ≤ 33 * m) : 2 ^ n ≤ 10 ^ m := by
  apply le_of_pow_le_pow_left₀ (by norm_num : 33 ≠ 0) (Nat.zero_le _)
  calc (2 ^ n) ^ 33 = (2 ^ 33) ^ n := by rw [← pow_mul,← pow_mul,mul_comm]
    _ ≤ (10 ^ 10) ^ n := Nat.pow_le_pow_left (by norm_num) n
    _ = 10 ^ (10 * n) := (pow_mul 10 10 n).symm
    _ ≤ 10 ^ (33 * m) := Nat.pow_le_pow_right (by norm_num) h
    _ = (10 ^ m) ^ 33 := by rw [← pow_mul,mul_comm]

theorem ten_zpow_le_two_zpow {k s : Int} (hup : 0 ≤ s → 10 * k ≤ 3 * s)
    (hdown : s < 0 → 33 * k ≤ 10 * s) : (10 : ℚ) ^ k ≤ 2 ^ s := by
  rcases lt_or_ge s 0 with hs | hs
  · obtain ⟨n,rfl⟩ : ∃ n : Nat, s = -n := ⟨s.natAbs,by omega⟩
    have hk := hdown hs
    obtain ⟨m,rfl⟩ : ∃ m : Nat, k = -m := ⟨k.natAbs,by omega⟩
    rw [zpow_neg,zpow_neg,zpow_natCast,zpow_natCast]
    apply inv_anti₀ (by positivity)
    exact_mod_cast two_pow_le_ten_pow (by omega)
  · obtain ⟨n,rfl⟩ := Int.eq_ofNat_of_zero_le hs
    have hk := hup hs
    rcases le_total 0 k with hk' | hk'
    · obtain ⟨m,rfl⟩ := Int.eq_ofNat_of_zero_le hk'
      rw [zpow_natCast,zpow_natCast]
      exact_mod_cast ten_pow_le_two_pow (by omega)
    · calc (10 : ℚ) ^ k ≤ 1 := zpow_le_one_of_nonpos₀ (by norm_num) hk'
        _ ≤ 2 ^ (n : Int) := one_le_zpow₀ (by norm_num) hs

end

namespace Rounding

/-- The interval of the float with the given bits, none of them the sign. -/
def ofBits (bits : Nat) : Rounding := ofFields (bits / Nat.pow 2 52) (bits % Nat.pow 2 52)

theorem closed_ofBits (bits : Nat) : (ofBits bits).closed = (bits % 2 == 0) := by
  have hpow : Nat.pow 2 52 = 4503599627370496 := rfl
  have hparity : ∀ {a b : Nat}, a % 2 = b % 2 → (a % 2 == 0) = (b % 2 == 0) := fun h => by rw [h]
  simp only [ofBits,ofFields,hpow]
  split
  · exact hparity (by omega)
  · exact hparity (by omega)

/-- The value of a float is near the middle of its interval. -/
theorem value_between {bits : Nat} (hpos : 0 < bits) :
    (ofBits bits).low + 1 ≤ (ofBits bits).value ∧ (ofBits bits).value < (ofBits bits).high := by
  have hpow : Nat.pow 2 52 = 4503599627370496 := rfl
  simp only [ofBits,ofFields,hpow]
  grind

theorem lowEnd_lt (bits : Nat) : (ofBits bits).lowEnd < (ofBits bits).highEnd := by
  have hlt : (ofBits bits).low < (ofBits bits).high := by
    simp only [ofBits,ofFields]
    grind
  have hcast : ((ofBits bits).low : ℚ) < (ofBits bits).high := by exact_mod_cast hlt
  exact mul_lt_mul_of_pos_right hcast (by positivity)

/-- The interval of a float begins where that of the one before ends. -/
theorem lowEnd_succ (bits : Nat) : (ofBits (bits + 1)).lowEnd = (ofBits bits).highEnd := by
  have hpow : Nat.pow 2 52 = 4503599627370496 := rfl
  simp only [lowEnd,highEnd,ofBits,hpow]
  have hfraction : bits % 4503599627370496 < 4503599627370496 := Nat.mod_lt _ (by decide)
  generalize hf : bits % 4503599627370496 = f at hfraction ⊢
  generalize he : bits / 4503599627370496 = e
  by_cases hlast : f + 1 = 4503599627370496
  · have hf' : (bits + 1) % 4503599627370496 = 0 := by omega
    have he' : (bits + 1) / 4503599627370496 = e + 1 := by omega
    rw [hf',he']
    obtain rfl : f = 4503599627370495 := by omega
    cases e with
    | zero => simp [ofFields]
    | succ e =>
      have hlow : (ofFields (e + 1 + 1) 0).low = 18014398509481983 := by simp [ofFields]
      have hhigh : (ofFields (e + 1) 4503599627370495).high = 36028797018963966 := by simp [ofFields]
      have hscale : (ofFields (e + 1 + 1) 0).scale =
          (ofFields (e + 1) 4503599627370495).scale + 1 := by
        simp [ofFields]
        omega
      rw [hscale,zpow_add_one₀ two_ne_zero,hlow,hhigh]
      push_cast
      ring
  · have hf' : (bits + 1) % 4503599627370496 = f + 1 := by omega
    have he' : (bits + 1) / 4503599627370496 = e := by omega
    have hlow : (ofFields e (f + 1)).low = (ofFields e f).high := by
      simp only [ofFields]
      grind
    rw [hf',he',hlow]
    rfl

/-- The shortest decimal of a float lies in its interval. -/
theorem shortest_holds {bits : Nat} (hpos : 0 < bits) (hfinite : bits / Nat.pow 2 52 < 2047) :
    (ofBits bits).Holds ((ofBits bits).shortest.1 * 10 ^ (ofBits bits).shortest.2) := by
  obtain ⟨hlow,hhigh⟩ := value_between hpos
  have hpow : Nat.pow 2 52 = 4503599627370496 := rfl
  have hlog : (ofBits bits).value.log2 < 55 := by
    apply (Nat.log2_lt (by omega)).2
    simp only [ofBits,ofFields,hpow]
    split <;> omega
  have hscale : -1076 ≤ (ofBits bits).scale ∧ (ofBits bits).scale ≤ 969 := by
    simp only [ofBits,ofFields,hpow] at hfinite ⊢
    split <;> omega
  refine refine_holds ⟨23,by decide,onGrid?_ne_none hlow hhigh (ten_zpow_le_two_zpow ?_ ?_)⟩
  · rw [coarsest]
    omega
  · rw [coarsest]
    omega

theorem highEnd_lt {bits bits' : Nat} (h : bits < bits') :
    (ofBits bits).highEnd < (ofBits bits').highEnd := by
  induction h with
  | refl => exact lowEnd_succ bits ▸ lowEnd_lt (bits + 1)
  | step h ih => exact ih.trans (lowEnd_succ _ ▸ lowEnd_lt _)

/-- No number lies in the intervals of two floats. -/
theorem Holds.unique {bits bits' : Nat} {x : ℚ} (h : (ofBits bits).Holds x)
    (h' : (ofBits bits').Holds x) : bits = bits' := by
  -- Two intervals can only meet in an end, and then only one of them has it.
  have hlt : ∀ {a b : Nat}, a < b → (ofBits a).Holds x → ¬ (ofBits b).Holds x := by
    intro a b hab ha hb
    obtain ⟨m,rfl⟩ : ∃ m, b = m + 1 := ⟨b - 1,by omega⟩
    have hupper := ha.le.2
    have hlower := hb.le.1
    rw [lowEnd_succ] at hlower
    rcases Nat.lt_or_ge a m with hfar | hnear
    · exact absurd (highEnd_lt hfar) (by linarith)
    · obtain rfl : a = m := by omega
      simp only [Holds,closed_ofBits,lowEnd_succ] at ha hb
      have hparity : (a % 2 == 0) = !((a + 1) % 2 == 0) := by grind
      rw [hparity] at ha
      cases hclosed : ((a + 1) % 2 == 0) with
      | true =>
        rw [hclosed] at ha
        exact absurd ha.2 (not_lt.2 hlower)
      | false =>
        rw [hclosed] at hb
        exact absurd hb.1 (not_lt.2 hupper)
  rcases Nat.lt_trichotomy bits bits' with hlt' | rfl | hgt
  · exact absurd h' (hlt hlt' h)
  · rfl
  · exact absurd h (hlt hgt h')

end Rounding

/-! ## The texts of floats -/

/-- A float that is a number, neither negative nor infinite. -/
def IsMagnitude (f : Float) : Prop := f.toBits.toNat < 2047 * 2 ^ 52

section

variable {f g : Float}

/-- The text of a float is a decimal in the interval of the float. -/
theorem IsMagnitude.exists_decimal (h : IsMagnitude f) :
    ∃ x, IsDecimal (floatText f) x ∧ (Rounding.ofBits f.toBits.toNat).Holds x := by
  have hpow : Nat.pow 2 52 = 4503599627370496 := rfl
  have hpow' : Nat.pow 2 63 = 9223372036854775808 := rfl
  have hpow'' : Nat.pow 2 11 = 2048 := rfl
  unfold IsMagnitude at h
  generalize hbits : f.toBits.toNat = bits at h
  have hexponent : bits / 4503599627370496 % 2048 = bits / 4503599627370496 := by omega
  simp only [floatText,hbits,hpow,hpow',hpow'',hexponent]
  rw [if_neg (by omega),if_neg (by omega)]
  by_cases hzero : bits = 0
  · subst hzero
    refine ⟨_,isDecimal_positional 0 0,?_⟩
    have hclosed : (Rounding.ofBits 0).closed = true := Rounding.closed_ofBits 0
    rw [Rounding.Holds,if_pos hclosed]
    simp [Rounding.lowEnd,Rounding.highEnd,Rounding.ofBits,Rounding.ofFields]
  · rw [if_neg (by omega)]
    have hfinite : bits / Nat.pow 2 52 < 2047 := by
      rw [hpow]
      omega
    exact ⟨_,isDecimal_positional _ _,Rounding.shortest_holds (Nat.pos_of_ne_zero hzero) hfinite⟩

theorem eq_of_toBits (h : f.toBits = g.toBits) : f = g := by
  obtain ⟨⟨bits,hbits⟩⟩ := f
  obtain ⟨⟨bits',hbits'⟩⟩ := g
  obtain rfl : bits = bits' := h
  rfl

/-- Floats that are written the same are the same. -/
theorem floatText_inj (hf : IsMagnitude f) (hg : IsMagnitude g) (h : floatText f = floatText g) :
    f = g := by
  obtain ⟨x,htext,hholds⟩ := hf.exists_decimal
  obtain ⟨y,htext',hholds'⟩ := hg.exists_decimal
  rw [h] at htext
  obtain rfl := htext.unique htext'
  exact eq_of_toBits (UInt64.toNat_inj.1 (hholds.unique hholds'))

end

/-! ## The floats of literals -/

section

open Float.Model (Format UnpackedFloat)
open Float.Model.UnpackedFloat

/-- A number from zero up to infinity. -/
def Upward : UnpackedFloat → Prop
  | .infinity sign | .zero sign | .finite sign _ _ _ => sign = .positive
  | .notANumber => False

/-- Whether a number is finite and more than zero. -/
def isPositive : UnpackedFloat → Bool
  | .finite .positive _ _ _ => true
  | _ => false

variable {u v : UnpackedFloat} (spec : Format)

theorem upward_round (m : Nat) (e : Int) (accuracy : Accuracy) :
    Upward (roundWithAccuracy spec .positive m e accuracy) := by
  simp only [roundWithAccuracy]
  split <;> rfl

theorem upward_ofNat (n : Nat) : Upward (UnpackedFloat.ofNat spec n) := by
  simp only [UnpackedFloat.ofNat,UnpackedFloat.ofInt,UnpackedFloat.normalize]
  split
  · next h =>
    rw [Int.compare_eq_lt] at h
    omega
  · rfl
  · exact upward_round spec _ _ _

theorem upward_div (hu : Upward u) (hv : isPositive v = true) : Upward (div spec u v) := by
  cases v with
  | finite sign m e hm =>
    cases sign with
    | negative => cases hv
    | positive =>
      cases u with
      | notANumber => exact hu.elim
      | infinity sign | zero sign =>
        cases hu
        rfl
      | finite sign m' e' hm' =>
        cases hu
        exact upward_round spec _ _ _
  | _ => cases hv

theorem upward_ofScientific (m : Nat) (e : Int) : Upward (UnpackedFloat.ofScientific spec m e) := by
  unfold UnpackedFloat.ofScientific
  split
  · rfl
  split
  · rfl
  split
  · rfl
  split <;> exact upward_round spec _ _ _

/-! Of the bits of such numbers those of infinity are the greatest. -/

theorem toNat_packComponents (e : BitVec 11) (m : BitVec 52) :
    (packComponents .binary64 .positive e m).toNat = e.toNat * 2 ^ 52 + m.toNat := by
  change ((0#1 ++ e) ++ m).toNat = _
  rw [BitVec.toNat_append,BitVec.toNat_append,← Nat.shiftLeft_add_eq_or_of_lt m.isLt,
    Nat.shiftLeft_eq]
  simp

theorem toNat_pack_le (h : Upward u) : (UnpackedFloat.pack .binary64 u).toNat ≤ 2047 * 2 ^ 52 := by
  cases u with
  | notANumber => exact h.elim
  | infinity sign | zero sign =>
    cases h
    decide
  | finite sign m e hm =>
    cases h
    simp only [UnpackedFloat.pack]
    split
    · decide
    split
    all_goals
      rw [toNat_packComponents,BitVec.toNat_ofNat,BitVec.toNat_ofNat]
      omega

theorem upward_unpack {b : BitVec 64} (h : b.toNat ≤ 2047 * 2 ^ 52) :
    Upward (UnpackedFloat.unpack .binary64 b) := by
  have hsign : @unpackSign .binary64 b = 0#1 := by
    apply BitVec.eq_of_toNat_eq
    change (b.toNat >>> 63) % 2 ^ 1 = 0
    rw [Nat.shiftRight_eq_div_pow]
    omega
  simp only [UnpackedFloat.unpack,hsign]
  split
  · next hexponent =>
    split
    · rfl
    · next hmantissa =>
      -- With all bits of the exponent set, a fraction would make it greater than infinity.
      have htop := congrArg BitVec.toNat hexponent
      change (b.toNat >>> 52) % 2 ^ 11 = 2047 at htop
      rw [Nat.shiftRight_eq_div_pow] at htop
      apply hmantissa
      apply BitVec.eq_of_toNat_eq
      change (b.toNat >>> 0) % 2 ^ 52 = 0
      rw [Nat.shiftRight_zero]
      omega
  · split
    · split <;> rfl
    · rfl

theorem isPositive_powersOfTen : ∀ f ∈ Float.exactlyRepresentablePowersOfTen.toList,
    isPositive f.toModel.unpack = true := by
  decide +kernel

theorem toNat_ofScientific_le (m e : Nat) :
    (Float.ofScientific m true e).toBits.toNat ≤ 2047 * 2 ^ 52 := by
  unfold Float.ofScientific
  split
  · next h =>
    have hbound : e < Float.exactlyRepresentablePowersOfTen.size := Nat.lt_succ_of_le h.2
    have hpower := isPositive_powersOfTen Float.exactlyRepresentablePowersOfTen[e]
      (Array.mem_toList_iff.2 (Array.getElem_mem hbound))
    have hvalue : Upward m.toUInt64.toFloat.toModel.unpack :=
      upward_unpack (toNat_pack_le (upward_ofNat _ _))
    exact toNat_pack_le (upward_div _ hvalue hpower)
  · exact toNat_pack_le (upward_ofScientific _ _ _)

/-- The float of a literal in range is a number, neither negative nor infinite. -/
theorem isMagnitude_decimalFloat {whole fraction : Bytes}
    (h : (decimalFloat whole fraction).isInf = false) : IsMagnitude (decimalFloat whole fraction) := by
  apply Nat.lt_of_le_of_ne (toNat_ofScientific_le _ _)
  intro hbits
  have htop : (decimalFloat whole fraction).toBits = 0x7ff0000000000000 := UInt64.toNat_inj.1 hbits
  change (UnpackedFloat.unpack .binary64 (decimalFloat whole fraction).toBits.toBitVec).isInf = false at h
  rw [htop] at h
  exact absurd h (by decide)

end

end Scriptlet
