import Mathlib.Data.Int.ModEq
import Scriptlet.Proofs.Writes

/-! # Arithmetic on integers

What the operators give for two integers of 64 bits, in terms of the integers without bounds. Sums,
differences and products wrap around, so they are exact up to multiples of `2 ^ 64`. A quotient drops
its fraction; it wraps around in one case only, and even then what it leaves over is the remainder.
Comparisons are those of the exact integers. No operator takes two integers for floats.
-/
namespace Scriptlet

/-! ## Wrapping around -/

section

variable (l r : Int64)

theorem bmod_modEq (x : Int) : x.bmod (2 ^ 64) ≡ x [ZMOD 2 ^ 64] := Int.bmod_emod

theorem toInt_add_modEq : (l + r).toInt ≡ l.toInt + r.toInt [ZMOD 2 ^ 64] := by
  rw [Int64.toInt_add]
  exact bmod_modEq _

theorem toInt_sub_modEq : (l - r).toInt ≡ l.toInt - r.toInt [ZMOD 2 ^ 64] := by
  rw [Int64.toInt_sub]
  exact bmod_modEq _

theorem toInt_mul_modEq : (l * r).toInt ≡ l.toInt * r.toInt [ZMOD 2 ^ 64] := by
  rw [Int64.toInt_mul]
  exact bmod_modEq _

/-- Integers of 64 bits that agree up to multiples of `2 ^ 64` are the same. -/
theorem eq_of_toInt_modEq {l r : Int64} (h : l.toInt ≡ r.toInt [ZMOD 2 ^ 64]) : l = r := by
  have hl := l.le_toInt
  have hl' := l.toInt_lt
  have hr := r.le_toInt
  have hr' := r.toInt_lt
  unfold Int.ModEq at h
  apply Int64.toInt_inj.1
  omega

/-- What a quotient leaves over is the remainder, also where the quotient wraps around. -/
theorem sub_div_mul : l - l / r * r = l % r := by
  have hquotient : (l / r).toInt ≡ l.toInt.tdiv r.toInt [ZMOD 2 ^ 64] := by
    rw [Int64.toInt_div]
    exact bmod_modEq _
  apply eq_of_toInt_modEq
  calc (l - l / r * r).toInt
    _ ≡ l.toInt - (l / r * r).toInt [ZMOD 2 ^ 64] := toInt_sub_modEq _ _
    _ ≡ l.toInt - (l / r).toInt * r.toInt [ZMOD 2 ^ 64] := (toInt_mul_modEq _ _).sub_left _
    _ ≡ l.toInt - l.toInt.tdiv r.toInt * r.toInt [ZMOD 2 ^ 64] := (hquotient.mul_right _).sub_left _
    _ = (l % r).toInt := by rw [Int64.toInt_mod,Int.tmod_def,Int.mul_comm]

theorem toInt_div_of_fits (h : ¬ (l = .minValue ∧ r = -1)) :
    (l / r).toInt = l.toInt.tdiv r.toInt := by
  rcases not_and_or.1 h with hl | hr
  · exact Int64.toInt_div_of_ne_left l r hl
  · exact Int64.toInt_div_of_ne_right l r hr

variable {r}

/-- The remainder is nearer to zero than the divisor, on the side of the dividend. -/
theorem toInt_sub_div_mul (h : r ≠ 0) : |(l - l / r * r).toInt| < |r.toInt| ∧
    ((l - l / r * r).toInt = 0 ∨ (l - l / r * r).toInt.sign = l.toInt.sign) := by
  rw [sub_div_mul,Int64.toInt_mod]
  constructor
  · have hr : r.toInt.natAbs ≠ 0 := by
      rw [ne_eq,Int.natAbs_eq_zero]
      exact fun hzero => h (Int64.toInt_inj.1 hzero)
    have hlt := Nat.mod_lt l.toInt.natAbs (Nat.pos_of_ne_zero hr)
    rw [Int.abs_eq_natAbs,Int.abs_eq_natAbs,Int.natAbs_tmod]
    exact Int.ofNat_lt.2 hlt
  · have hsign := Int.sign_tmod l.toInt r.toInt
    split at hsign
    · exact .inl (Int.sign_eq_zero_iff_zero.1 hsign)
    · exact .inr hsign

end

/-! ## Operators in expressions -/

section

variable {ctx : Context} {n : Nat} {token : Token} {left right : Expr} {m m₁ m₂ : Machine}
  {x y : Value} {op : BinaryOp}

theorem Eval.binary_of_ok (hleft : Eval.expr ctx n left m = .ok x m₁)
    (hright : Eval.expr ctx n right m₁ = .ok y m₂) {s : Scalar} (happly : op.apply x y = .ok s) :
    Eval.expr ctx (n + 1) (.binary op token left right) m = .ok (.scalar s) m₂ := by
  simp only [Eval.expr,Bind.bind,EStateM.bind,hleft,hright,happly]
  rfl

theorem Eval.binary_of_error (hleft : Eval.expr ctx n left m = .ok x m₁)
    (hright : Eval.expr ctx n right m₁ = .ok y m₂) {e : EvalError} (happly : op.apply x y = .error e) :
    Eval.expr ctx (n + 1) (.binary op token left right) m = .error (.fault e token) m₂ := by
  simp only [Eval.expr,Bind.bind,EStateM.bind,hleft,hright,happly]
  rfl

theorem Eval.unary_of_ok (hright : Eval.expr ctx n right m₁ = .ok y m₂) {op : UnaryOp} {s : Scalar}
    (happly : op.apply y = .ok s) :
    Eval.expr ctx (n + 1) (.unary op token right) m₁ = .ok (.scalar s) m₂ := by
  simp only [Eval.expr,Bind.bind,EStateM.bind,hright,happly]
  rfl

/-- An expression that has a value takes some budget. -/
theorem Eval.budget_of_ok {e : Expr} (h : Eval.expr ctx n e m = .ok x m₁) : ∃ k, n = k + 1 := by
  cases n with
  | zero => cases h
  | succ k => exact ⟨k,rfl⟩

/-- Two integers are combined as integers. -/
theorem BinaryOp.apply_ints (op : NumericOp) (l r : Int64) :
    (BinaryOp.numeric op).apply (.scalar (.int l) : Value) (.scalar (.int r)) = op.onInts l r := by
  cases op <;> rfl

theorem Eval.binary_ints {op : NumericOp} {l r : Int64} {s : Scalar}
    (hleft : Eval.expr ctx n left m = .ok (.scalar (.int l)) m₁)
    (hright : Eval.expr ctx n right m₁ = .ok (.scalar (.int r)) m₂) (happly : op.onInts l r = .ok s) :
    Eval.expr ctx (n + 1) (.binary (.numeric op) token left right) m = .ok (.scalar s) m₂ :=
  Eval.binary_of_ok hleft hright ((BinaryOp.apply_ints op l r).trans happly)

end

/-! ## Comparisons -/

section

variable (l r : Int64)

theorem decide_lt_iff : decide (l < r) = true ↔ l.toInt < r.toInt := by
  rw [decide_eq_true_iff,Int64.lt_iff_toInt_lt]

theorem beq_iff_toInt : (l == r) = true ↔ l.toInt = r.toInt := by
  rw [beq_iff_eq,Int64.toInt_inj]

theorem decide_le : decide (l ≤ r) = (decide (l < r) || l == r) := by
  rw [Bool.eq_iff_iff,Bool.or_eq_true,decide_lt_iff,beq_iff_toInt,decide_eq_true_iff,
    Int64.le_iff_toInt_le]
  exact Int.le_iff_lt_or_eq

/-- Just one of the three comparisons holds. -/
theorem comparison_mem : (decide (l < r),l == r,decide (r < l)) ∈
    [(true,false,false),(false,true,false),(false,false,true)] := by
  have hequal : (l == r) = decide (l.toInt = r.toInt) := by
    rw [Bool.eq_iff_iff,beq_iff_toInt,decide_eq_true_iff]
  simp only [Int64.lt_iff_toInt_lt,hequal]
  rcases Int.lt_trichotomy l.toInt r.toInt with h | h | h
  · simp [h,h.ne,h.not_gt]
  · simp [h]
  · simp [h,h.ne',h.not_gt]

end

/-- The operators on integers are exact. If both operands of an expression evaluate to integers, then
sums, differences and products are the integers of 64 bits that agree with the exact result up to
multiples of `2 ^ 64`. A division fails just for the divisor zero; otherwise it gives the quotient
without its fraction, but for the one quotient that is too large, and what it leaves over is smaller
than the divisor and has the sign of the dividend. Comparisons are those of the exact integers, and a
minus sign subtracts from zero. All results are integers or booleans. -/
theorem integer_arithmetic_exact (ctx : Context) (n : Nat) (token : Token) (left right : Expr)
    (m m₁ m₂ : Machine) (l r : Int64) (hleft : Eval.expr ctx n left m = .ok (.scalar (.int l)) m₁)
    (hright : Eval.expr ctx n right m₁ = .ok (.scalar (.int r)) m₂) :
    let value (op : BinaryOp) := Eval.expr ctx (n + 1) (.binary op token left right) m
    (value (.numeric .add) = .ok (.scalar (.int (l + r))) m₂ ∧
      (l + r).toInt ≡ l.toInt + r.toInt [ZMOD 2 ^ 64]) ∧
    (value (.numeric .subtract) = .ok (.scalar (.int (l - r))) m₂ ∧
      (l - r).toInt ≡ l.toInt - r.toInt [ZMOD 2 ^ 64]) ∧
    (value (.numeric .multiply) = .ok (.scalar (.int (l * r))) m₂ ∧
      (l * r).toInt ≡ l.toInt * r.toInt [ZMOD 2 ^ 64]) ∧
    (value (.numeric .divide) = .error (.fault .divideByZero token) m₂ ↔ r = 0) ∧
    EvalError.divideByZero.message = utf8 "Divide by zero error." ∧
    (r ≠ 0 → ∃ q, value (.numeric .divide) = .ok (.scalar (.int q)) m₂ ∧
      (¬ (l = .minValue ∧ r = -1) → q.toInt = l.toInt.tdiv r.toInt) ∧
      (l = .minValue → r = -1 → q = .minValue) ∧
      |(l - q * r).toInt| < |r.toInt| ∧
      ((l - q * r).toInt = 0 ∨ (l - q * r).toInt.sign = l.toInt.sign)) ∧
    (∃ less equal greater : Bool, value (.numeric .less) = .ok (.scalar (.bool less)) m₂ ∧
      value .equal = .ok (.scalar (.bool equal)) m₂ ∧
      value (.numeric .greater) = .ok (.scalar (.bool greater)) m₂ ∧
      value (.numeric .lessEqual) = .ok (.scalar (.bool (less || equal))) m₂ ∧
      value (.numeric .greaterEqual) = .ok (.scalar (.bool (greater || equal))) m₂ ∧
      value .unequal = .ok (.scalar (.bool (!equal))) m₂ ∧
      (less ↔ l.toInt < r.toInt) ∧ (equal ↔ l.toInt = r.toInt) ∧ (greater ↔ r.toInt < l.toInt) ∧
      (less,equal,greater) ∈ [(true,false,false),(false,true,false),(false,false,true)]) ∧
    (Eval.expr ctx (n + 1) (.unary .negate token right) m₁ = .ok (.scalar (.int (-r))) m₂ ∧
      Eval.expr ctx (n + 1) (.unary .negate token right) m₁ =
        Eval.expr ctx (n + 1) (.binary (.numeric .subtract) token (.literal (.int 0)) right) m₁) ∧
    Operands.of? (Value.scalar (.int l) : Value) (.scalar (.int r)) = some (.ints l r) ∧
    ∀ op, (∃ x, value op = .ok (.scalar (.int x)) m₂) ∨ (∃ b, value op = .ok (.scalar (.bool b)) m₂) ∨
      op = .numeric .divide ∧ r = 0 := by
  intro value
  have hvalue : ∀ op {s}, NumericOp.onInts l r op = .ok s →
      value (.numeric op) = .ok (.scalar s) m₂ := fun _ _ => Eval.binary_ints hleft hright
  have hequal : value .equal = .ok (.scalar (.bool (l == r))) m₂ := Eval.binary_of_ok hleft hright rfl
  have hunequal : value .unequal = .ok (.scalar (.bool (!(l == r)))) m₂ :=
    Eval.binary_of_ok hleft hright rfl
  have hzero : r = 0 → value (.numeric .divide) = .error (.fault .divideByZero token) m₂ := by
    rintro rfl
    exact Eval.binary_of_error hleft hright rfl
  have hdivide : r ≠ 0 → value (.numeric .divide) = .ok (.scalar (.int (l / r))) m₂ :=
    fun hr => hvalue .divide (if_neg hr)
  have hnegate : Eval.expr ctx (n + 1) (.unary .negate token right) m₁ = .ok (.scalar (.int (-r))) m₂ :=
    Eval.unary_of_ok hright rfl
  refine ⟨⟨hvalue .add rfl,toInt_add_modEq l r⟩,⟨hvalue .subtract rfl,toInt_sub_modEq l r⟩,
    ⟨hvalue .multiply rfl,toInt_mul_modEq l r⟩,⟨fun hfails => ?_,hzero⟩,rfl,?_,?_,⟨hnegate,?_⟩,rfl,?_⟩
  · by_contra hr
    rw [hdivide hr] at hfails
    cases hfails
  · intro hr
    refine ⟨l / r,hdivide hr,toInt_div_of_fits l r,?_,toInt_sub_div_mul l hr⟩
    rintro rfl rfl
    exact Int64.minValue_div_neg_one
  · refine ⟨l < r,l == r,r < l,hvalue .less rfl,hequal,hvalue .greater rfl,?_,?_,hunequal,
      decide_lt_iff l r,beq_iff_toInt l r,decide_lt_iff r l,comparison_mem l r⟩
    · rw [← decide_le]
      exact hvalue .lessEqual rfl
    · rw [Bool.beq_comm,← decide_le]
      exact hvalue .greaterEqual rfl
  · obtain ⟨k,rfl⟩ := Eval.budget_of_ok hright
    have hliteral : Eval.expr ctx (k + 1) (.literal (.int 0)) m₁ = .ok (.scalar (.int 0)) m₁ := rfl
    rw [hnegate,Eval.binary_ints hliteral hright rfl,Int64.zero_sub]
  · intro op
    cases op with
    | equal => exact .inr (.inl ⟨_,hequal⟩)
    | unequal => exact .inr (.inl ⟨_,hunequal⟩)
    | numeric op =>
      cases op with
      | add | subtract | multiply => exact .inl ⟨_,hvalue _ rfl⟩
      | greater | greaterEqual | less | lessEqual => exact .inr (.inl ⟨_,hvalue _ rfl⟩)
      | divide =>
        by_cases hr : r = 0
        · exact .inr (.inr ⟨rfl,hr⟩)
        · exact .inl ⟨_,hdivide hr⟩

/-- The one quotient that is too large wraps around to its dividend and leaves nothing over. The
product of the same operands wraps around to it as well. -/
theorem integer_arithmetic_exact_least :
    let token : Token := { kind := .symbol .slash, lexeme := utf8 "/", index := 0, line := 1 }
    let value (op : NumericOp) := Eval.expr {} 2
      (.binary (.numeric op) token (.literal (.int .minValue)) (.literal (.int (-1)))) (Machine.start {})
    value .divide = .ok (.scalar (.int .minValue)) (Machine.start {}) ∧
      value .multiply = .ok (.scalar (.int .minValue)) (Machine.start {}) ∧
      (Int64.minValue - Int64.minValue * -1).toInt = 0 := by
  intro token value
  obtain ⟨-,-,⟨hproduct,-⟩,-,-,hquotient,-⟩ := integer_arithmetic_exact {} 1 token
    (.literal (.int .minValue)) (.literal (.int (-1))) (Machine.start {}) _ _ .minValue (-1) rfl rfl
  obtain ⟨q,hvalue,-,hwraps,hnear,-⟩ := hquotient (by decide)
  obtain rfl := hwraps rfl rfl
  exact ⟨hvalue,hproduct,Int.abs_lt_one_iff.1 hnear⟩

end Scriptlet
