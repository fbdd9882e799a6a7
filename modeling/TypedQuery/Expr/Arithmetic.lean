import TypedQuery.Error
import TypedQuery.Value.Compare

/-!
# Operators on values

What operators and connectives give, with SQL's treatment of NULL: an operator on NULL is
NULL, and the connectives have three truth values. Two integers are computed exactly or not
at all; other numbers are computed in floating point.
-/

namespace TypedQuery.Value

/-- Equality in a condition: as numbers or dates where the values are ordered, else as values. -/
def equals (a b : Value) : Bool := a.compare? b == some .eq || a == b

/-- Does an order relation hold for values ordered in the given way? -/
def orderHolds : BinaryOp → Ordering → Bool
  | .gt, o => o == .gt
  | .gte, o => o != .lt
  | .lt, o => o == .lt
  | _, o => o != .gt

def applyComparison (op : BinaryOp) (a b : Value) : Except EvaluationError Value :=
  match op with
  | .eq => .ok (bool (a.equals b))
  | .ne => .ok (bool (!a.equals b))
  | op =>
    match a.compare? b with
    | some o => .ok (bool (orderHolds op o))
    | none => .error (.notComparable a.typeName b.typeName)

/-- The exact result, if it is in range. -/
def exactly (a : Int64) (op : BinaryOp) (b : Int64) (n : Int) : Except EvaluationError Int64 :=
  match Number.word? n with
  | some w => .ok w
  | none => .error (.overflow a.toInt op b.toInt)

/-- Shifts by 0 to 63 places; a shift to the left drops the bits that leave the word. -/
def applyShift (op : BinaryOp) (a b : Int64) : Except EvaluationError Int64 :=
  if 0 ≤ b.toInt ∧ b.toInt < 64 then .ok (if op = .shiftLeft then a <<< b else a >>> b)
  else .error (.overflow a.toInt op b.toInt)

/-- Operations on two integers. Quotient and remainder are truncated toward zero. -/
def applyInteger (op : BinaryOp) (a b : Int64) : Except EvaluationError Int64 :=
  match op with
  | .add => exactly a op b (a.toInt + b.toInt)
  | .sub => exactly a op b (a.toInt - b.toInt)
  | .mul => exactly a op b (a.toInt * b.toInt)
  | .div =>
    if b = 0 then .error .divisionByZero else exactly a op b (a.toInt.tdiv b.toInt)
  | .rem =>
    if b = 0 then .error .divisionByZero
    else if a = Int64.minValue ∧ b = -1 then .error (.overflow a.toInt op b.toInt)
    else exactly a op b (a.toInt.tmod b.toInt)
  | .bitAnd => .ok (a &&& b)
  | .bitOr => .ok (a ||| b)
  | .bitXor => .ok (a ^^^ b)
  | .shiftLeft | .shiftRight => applyShift op a b
  | _ => .error (.overflow a.toInt op b.toInt)

/-- Operations on two floating-point numbers. -/
def applyFloat (op : BinaryOp) (x y : Double) : Except EvaluationError Double :=
  match op with
  | .add => .ok (x.add y)
  | .sub => .ok (x.sub y)
  | .mul => .ok (x.mul y)
  | .div => if y.isZero then .error .divisionByZero else .ok (x.div y)
  | _ => if y.isZero then .error .divisionByZero else .ok (x.rem y)

/-- An operator on two values that are not NULL and no comparison. -/
def applyArithmetic (op : BinaryOp) (a b : Value) : Except EvaluationError Value :=
  match a, b with
  | int m, int n => (applyInteger op m n).map int
  | a, b =>
    if op.isBitwise then .error (.notIntegers op a.typeName b.typeName)
    else match a.double?, b.double? with
      | some x, some y => (applyFloat op x y).map float
      | _, _ => .error (.notNumbers op a.typeName b.typeName)

/-- The value of an operator on two values. -/
def applyBinary (op : BinaryOp) (a b : Value) : Except EvaluationError Value :=
  if a.isNull || b.isNull then .ok null
  else if op.isComparison then applyComparison op a b
  else applyArithmetic op a b

@[simp] theorem applyBinary_null_left (op : BinaryOp) (b : Value) :
    applyBinary op null b = .ok null := rfl

@[simp] theorem applyBinary_null_right (op : BinaryOp) (a : Value) :
    applyBinary op a null = .ok null := by
  cases a <;> rfl

/-- A truth value; NULL is the unknown one. -/
def truth? (op : Connective) : Value → Except EvaluationError (Option Bool)
  | null => .ok none
  | bool b => .ok (some b)
  | v => .error (.notTruthValue op v.typeName)

/-- The value of a truth value. -/
def ofTruth : Option Bool → Value
  | none => null
  | some b => bool b

/-- The connectives on three truth values: a value that decides the result wins over one that
is unknown. -/
def connect : Connective → Option Bool → Option Bool → Option Bool
  | .and, some false, _ | .and, _, some false => some false
  | .and, some true, some true => some true
  | .or, some true, _ | .or, _, some true => some true
  | .or, some false, some false => some false
  | _, _, _ => none

/-- The value of a connective on two values. -/
def applyConnective (op : Connective) (a b : Value) : Except EvaluationError Value := do
  let p ← truth? op a
  let q ← truth? op b
  .ok (ofTruth (connect op p q))

mutual

/-- The value that a document stands for. An object stays a document. -/
def ofJson : Json → Value
  | .null => null
  | .bool b => bool b
  | .number (.whole n) =>
    match Number.word? n with
    | some w => int w
    | none => float (Double.ofInt n)
  | .number (.real x) => float x
  | .text s => text s
  | .array items => list (ofJsonItems items)
  | .object fields => json (.object fields)
termination_by structural j => j

def ofJsonItems : List Json → List Value
  | [] => []
  | j :: js => ofJson j :: ofJsonItems js
termination_by structural js => js

end

/-- A member of a document's object; NULL has every member, and it is NULL. -/
def member (v : Value) (name : String) : Except EvaluationError Value :=
  match v with
  | null => .ok null
  | json (.object fields) =>
    match fields.lookup name with
    | some j => .ok (ofJson j)
    | none => .error (.noMember name)
  | v => .error (.notObject name v.typeName)

end TypedQuery.Value
