import StackTemplate.Evaluation.Scope
import StackTemplate.Text.Numeral

/-!
# Evaluation of operands

Evaluation is lazy: a conditional runs the selected branch only, and conjunctions and disjunctions
stop at the first operand that decides them. It carries a state, which failures keep; only the
argument `decideCondition`, the way in which a condition is decided, may use it.

- `Call.evaluate` combines the evaluations of the operands of a call.
- `Operand.evaluate` is the evaluation of an operand, a fold over its structure.
-/

namespace StackTemplate

/-- Computations that keep a state, also when they fail. -/
abbrev Eval (σ : Type) := ExceptT EvalError (StateM σ)

variable {σ : Type}

/-- A look-up that does not use the state. -/
def Eval.ofExcept {α : Type} : Except EvalError α → Eval σ α
  | .ok a => pure a
  | .error e => throw e

namespace Value

def expectBool (function : Intrinsic) (v : Value) : Except EvalError Bool :=
  match v.bool? with
  | some b => .ok b
  | none => .error (.typeMismatch function .boolean v.kind)

def expectText (function : Intrinsic) (v : Value) : Except EvalError String :=
  match v.text? with
  | some t => .ok t
  | none => .error (.typeMismatch function .string v.kind)

/-- The integer that a value denotes: an integer of 64 bits as such, as a floating-point number
without fractional part, or as a numeral between blanks. -/
def integer? : Value → Option Int
  | .scalar (.int i) => some i
  | .scalar (.float x) =>
    match x.toInt? with
    | some i => if Scalar.inIntegerRange i then some i else none
    | none => none
  | .scalar (.string s) =>
    match Text.readSigned? (Text.trim s) with
    | some i => if Scalar.inIntegerRange i then some i else none
    | none => none
  | _ => none

def expectInteger (function : Intrinsic) (v : Value) : Except EvalError Int :=
  match v.integer? with
  | some i => .ok i
  | none => .error (.typeMismatch function .integer v.kind)

def expectList (function : Intrinsic) (v : Value) : Except EvalError (List Value) :=
  match v.items? with
  | some items => .ok items
  | none => .error (.typeMismatch function .list v.kind)

/-- The item of a list at an index. -/
def select (items : List Value) (index : Int) : Except EvalError Value :=
  match (if index < 0 then none else items[index.toNat]?) with
  | some v => .ok v
  | none => .error (.indexOutOfRange index items.length)

/-- The texts of the members of a list that is to be joined. -/
def joinTexts : List Value → Except EvalError (List String)
  | [] => .ok []
  | v :: vs =>
    match v.text? with
    | none => .error (.nonScalarJoin v.kind)
    | some t => (joinTexts vs).map (t :: ·)

def subnets (block : String) (count bits : Int) : Except EvalError Value :=
  match Network.subnets block count bits with
  | .ok texts => .ok (.list (texts.map .string))
  | .error fault => .error (.invalidCidr block fault)

end Value

/-- Whether all computations give true, up to the first that does not. -/
def evaluateAll (function : Intrinsic) : List (Eval σ Value) → Eval σ Bool
  | [] => pure true
  | x :: xs => do
    let b ← Eval.ofExcept ((← x).expectBool function)
    if b then evaluateAll function xs else pure false

/-- Whether some computation gives true, up to the first that does. -/
def evaluateAny (function : Intrinsic) : List (Eval σ Value) → Eval σ Bool
  | [] => pure false
  | x :: xs => do
    let b ← Eval.ofExcept ((← x).expectBool function)
    if b then pure true else evaluateAny function xs

def evaluateText (function : Intrinsic) (x : Eval σ Value) : Eval σ String := do
  Eval.ofExcept ((← x).expectText function)

def evaluateInteger (function : Intrinsic) (x : Eval σ Value) : Eval σ Int := do
  Eval.ofExcept ((← x).expectInteger function)

/-- The list of values of a list of computations, up to the first that fails. -/
def evaluateItems : List (Eval σ Value) → Eval σ (List Value)
  | [] => pure []
  | x :: xs => do
    let v ← x
    let vs ← evaluateItems xs
    pure (v :: vs)

/-- The entries of a list of computed entries, up to the first that fails. -/
def evaluateEntries : List (String × Eval σ Value) → Eval σ (List (String × Value))
  | [] => pure []
  | (k, x) :: es => do
    let v ← x
    let vs ← evaluateEntries es
    pure ((k, v) :: vs)

/-- The value of a placeholder: the variable of its name, else what the scope gives. -/
def evaluatePlaceholder (s : Scope) (bindings : List (String × Eval σ Value)) (key : String)
    (otherwise : Scope → Except EvalError Value) : Eval σ String :=
  evaluateText .sub (match Entries.find? bindings key with
    | some x => x
    | none => Eval.ofExcept (otherwise s))

/-- The text of one segment of a substitution. -/
def evaluateSegment (s : Scope) (bindings : List (String × Eval σ Value)) :
    Segment → Eval σ String
  | .literal text => pure text
  | .ref name => evaluatePlaceholder s bindings name fun s => s.ref name
  | .getAtt resource name =>
    evaluatePlaceholder s bindings (resource ++ "." ++ name) fun s => s.attributeValue resource name

/-- The text of the segments of a substitution. -/
def evaluateSegments (s : Scope) (bindings : List (String × Eval σ Value)) :
    List Segment → Eval σ String
  | [] => pure ""
  | segment :: segments => do
    let text ← evaluateSegment s bindings segment
    let rest ← evaluateSegments s bindings segments
    pure (text ++ rest)

/-- The value of a call, given how conditions are decided and how its operands are computed. -/
def Call.evaluate (s : Scope) (decideCondition : String → Eval σ Bool) :
    Call (Eval σ Value) → Eval σ Value
  | .and xs => return .bool (← evaluateAll .and xs)
  | .or xs => return .bool (← evaluateAny .or xs)
  | .not x => do
    let b ← Eval.ofExcept ((← x).expectBool .not)
    return .bool (!b)
  | .equals x y => do
    let left ← x
    let right ← y
    return .bool (left.looselyEquals right)
  | .ref name => Eval.ofExcept (s.ref name)
  | .condition name => return .bool (← decideCondition name)
  | .getAtt resource x => do
    let name ← evaluateText .getAtt x
    Eval.ofExcept (s.attributeValue resource name)
  | .importValue x => return s.importValue (← evaluateText .importValue x)
  | .findInMap x y z => do
    let map ← evaluateText .findInMap x
    let topKey ← evaluateText .findInMap y
    let secondKey ← evaluateText .findInMap z
    Eval.ofExcept (s.findInMap map topKey secondKey)
  | .getAZs x => return s.availabilityZones (← evaluateText .getAZs x)
  | .cidr x y z => do
    let block ← evaluateText .cidr x
    let count ← evaluateInteger .cidr y
    let bits ← evaluateInteger .cidr z
    Eval.ofExcept (Value.subnets block count bits)
  | .select x y => do
    let index ← evaluateInteger .select x
    let items ← Eval.ofExcept ((← y).expectList .select)
    Eval.ofExcept (Value.select items index)
  | .split x y => do
    let delimiter ← evaluateText .split x
    let source ← evaluateText .split y
    return .list ((Text.split delimiter source).map .string)
  | .join x y => do
    let delimiter ← evaluateText .join x
    let items ← Eval.ofExcept ((← y).expectList .join)
    let texts ← Eval.ofExcept (Value.joinTexts items)
    return .string (String.intercalate delimiter texts)
  | .sub template bindings =>
    return .string (← evaluateSegments s bindings (Segment.parse template))
  | .base64 x => return .string (Text.base64 (← evaluateText .base64 x))
  | .ifElse name x y => do
    if ← decideCondition name then x else y

/-- The value of an operand, given how conditions are decided. -/
def Operand.evaluate (s : Scope) (decideCondition : String → Eval σ Bool) :
    Operand → Eval σ Value :=
  Operand.fold
    { scalar := fun x => pure (.scalar x)
      list := fun items => return .list (← evaluateItems items)
      map := fun entries => return .map (← evaluateEntries entries)
      call := fun _ c => c.evaluate s decideCondition
      pending := fun id => throw (.unresolvedPlaceholder id) }

end StackTemplate
