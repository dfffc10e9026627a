import StackTemplate.Template

/-!
# Agreement of templates

Two templates agree when they are equal with floating-point numbers compared by value: zeros of both
signs agree, and a not-a-number agrees with nothing, so a template that holds one does not even
agree with itself.
-/

namespace StackTemplate

/-- Whether each test of a list holds of the member of another list at the same place. -/
def agreeAll {α : Type} : List (α → Bool) → List α → Bool
  | [], [] => true
  | f :: fs, x :: xs => f x && agreeAll fs xs
  | _, _ => false

/-- Whether two values are both absent or both present and pass a test. -/
def agreeOption {α : Type} (f : α → α → Bool) : Option α → Option α → Bool
  | none, none => true
  | some a, some b => f a b
  | _, _ => false

/-- Whether two dictionaries have the same keys in the same order and their values pass a test. -/
def Dict.agrees {α : Type} (f : α → α → Bool) (d e : Dict α) : Bool :=
  d.keys = e.keys && agreeAll (d.values.map f) e.values

namespace Value

mutual

def agrees : Value → Value → Bool
  | .scalar a, .scalar b => a.agrees b
  | .list as, .list bs => itemsAgree as bs
  | .map as, .map bs => entriesAgree as bs
  | _, _ => false

def itemsAgree : List Value → List Value → Bool
  | [], [] => true
  | a :: as, b :: bs => a.agrees b && itemsAgree as bs
  | _, _ => false

def entriesAgree : List (String × Value) → List (String × Value) → Bool
  | [], [] => true
  | (k, a) :: as, (l, b) :: bs => k = l && a.agrees b && entriesAgree as bs
  | _, _ => false

end

end Value

/-- Agreement of operands: calls agree when they agree apart from their operands, and so do their
operands one by one. -/
def Operand.agrees : Operand → Operand → Bool :=
  Operand.fold
    { scalar := fun a o =>
        match o with
        | .scalar b => a.agrees b
        | _ => false
      list := fun tests o =>
        match o with
        | .list items => agreeAll tests items
        | _ => false
      map := fun tests o =>
        match o with
        | .map entries =>
          Entries.keys tests = Entries.keys entries &&
            agreeAll (Entries.values tests) (Entries.values entries)
        | _ => false
      call := fun c tests o =>
        match o with
        | .call d =>
          c.map (fun _ => ()) = d.map (fun _ => ()) && agreeAll tests.operands d.operands
        | _ => false
      pending := fun i o =>
        match o with
        | .pending j => i = j
        | _ => false }

def Parameter.agrees (p q : Parameter) : Bool :=
  p.type = q.type && agreeOption Scalar.agrees p.default q.default &&
    p.description = q.description &&
    agreeAll (p.allowedValues.map Scalar.agrees) q.allowedValues && p.noEcho = q.noEcho

def Mapping.agrees (m n : Mapping) : Bool :=
  Dict.agrees (Dict.agrees Value.agrees) m n

def Resource.agrees (r s : Resource) : Bool :=
  r.type = s.type && r.properties.agrees Operand.agrees s.properties &&
    r.condition = s.condition && r.dependsOn = s.dependsOn &&
    r.deletionPolicy = s.deletionPolicy && r.updateReplacePolicy = s.updateReplacePolicy &&
    agreeOption Operand.agrees r.metadata s.metadata &&
    agreeOption Operand.agrees r.creationPolicy s.creationPolicy &&
    agreeOption Operand.agrees r.updatePolicy s.updatePolicy

def Output.agrees (o p : Output) : Bool :=
  o.value.agrees p.value && o.description = p.description &&
    agreeOption Operand.agrees o.exportName p.exportName && o.condition = p.condition

/-- Agreement of templates. -/
def Template.agrees (t u : Template) : Bool :=
  t.formatVersion = u.formatVersion && t.description = u.description &&
    t.parameters.agrees Parameter.agrees u.parameters &&
    t.mappings.agrees Mapping.agrees u.mappings &&
    t.conditions.agrees Operand.agrees u.conditions &&
    t.resources.agrees Resource.agrees u.resources &&
    t.outputs.agrees Output.agrees u.outputs

end StackTemplate
