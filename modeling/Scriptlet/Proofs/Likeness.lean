import Scriptlet.Arithmetic

/-! # Values that operations can not tell apart

Operators, tests and printing look at scalars, at identities and at the names of functions and
classes. Two values that agree on these give the same results, whatever stands behind them.
-/
namespace Scriptlet

variable {κ κ' : Type}

/-- Values with the same scalar, identity and name. -/
inductive Value.Alike : Value κ → Value κ' → Prop
  | scalar (s : Scalar) : Alike (.scalar s) (.scalar s)
  | builtin (b : Builtin) : Alike (.builtin b) (.builtin b)
  | function (id : Nat) {f : Function κ} {g : Function κ'} :
      g.decl.name.lexeme = f.decl.name.lexeme → Alike (.function id f) (.function id g)
  | class_ {c : Class κ} {d : Class κ'} :
      d.own.id = c.own.id → d.own.name = c.own.name → Alike (.class_ c) (.class_ d)
  | object (id : Nat) {c : Class κ} {d : Class κ'} :
      d.own.name = c.own.name → Alike (.object c id) (.object d id)
  | uninitialized : Alike .uninitialized .uninitialized

namespace Value.Alike

variable {v w : Value κ} {v' w' : Value κ'}

theorem text (h : v.Alike v') : v'.text = v.text := by
  cases h <;> simp_all [Value.text]

theorem truthy (h : v.Alike v') : v'.truthy = v.truthy := by
  cases h <;> rfl

theorem typeName (h : v.Alike v') : v'.typeName = v.typeName := by
  cases h <;> rfl

theorem same (h : v.Alike v') (h' : w.Alike w') : v'.same w' = v.same w := by
  cases h <;> cases h' <;> simp_all [Value.same]

theorem toFloat? (h : v.Alike v') : v'.toFloat? = v.toFloat? := by
  cases h with
  | scalar s => cases s <;> rfl
  | _ => rfl

theorem operands (h : v.Alike v') (h' : w.Alike w') : Operands.of? v' w' = Operands.of? v w := by
  have hv := h.toFloat?
  have hw := h'.toFloat?
  cases h with
  | scalar s => cases h' with
    | scalar t => cases s <;> cases t <;> rfl
    | _ => cases s <;> simp_all [Operands.of?]
  | _ => simp_all [Operands.of?]

theorem binary (op : BinaryOp) (h : v.Alike v') (h' : w.Alike w') :
    op.apply v' w' = op.apply v w := by
  have hoperands := h.operands h'
  have htext : v'.text ++ w'.text = v.text ++ w.text := by rw [h.text,h'.text]
  cases op with
  | equal => simp [BinaryOp.apply,h.same h']
  | unequal => simp [BinaryOp.apply,h.same h']
  | numeric op =>
    cases op with
    | add =>
      cases h with
      | scalar s => cases h' with
        | scalar t => cases s <;> cases t <;> rfl
        | _ => cases s <;> simp_all [BinaryOp.apply]
      | _ => cases h' with
        | scalar t => cases t <;> simp_all [BinaryOp.apply]
        | _ => simp_all [BinaryOp.apply]
    | _ => simp [BinaryOp.apply,hoperands]

theorem unary (op : UnaryOp) (h : v.Alike v') : op.apply v' = op.apply v := by
  cases op with
  | not => simp [UnaryOp.apply,h.truthy]
  | negate =>
    cases h with
    | scalar s => cases s <;> rfl
    | _ => rfl

end Value.Alike

end Scriptlet
