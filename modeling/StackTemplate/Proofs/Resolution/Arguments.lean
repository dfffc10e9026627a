import StackTemplate.Proofs.Resolution.CallKey

/-!
# Arguments of written calls

A call is written as a mapping with the long name of its function and an argument node. Where the
function may be called, the mapping is recognised as the call; where the call is well-formed, its
argument node is read back to it.

* `Call.WellFormed` : the number of operands and the names of a call are admitted.
* `Call.call?_toNode` : a written call is recognised.
* `Arguments.ofNode_argumentsNode` : the written arguments of a call are read as the call.
-/

namespace StackTemplate

variable {α β : Type}

/-! ## Well-formed calls -/

/-- The number of operands and the literal names of a call are admitted, and no variable of a
substitution is given twice. -/
def Call.WellFormed : Call α → Prop
  | .and xs | .or xs => 2 ≤ xs.length ∧ xs.length ≤ 10
  | .ref n | .condition n | .getAtt n _ | .ifElse n _ _ => n ≠ ""
  | .sub _ bindings => (Entries.keys bindings).Nodup
  | _ => True

namespace Arguments

/-- The items of an argument list are as many as the function takes. -/
theorem length_of_items {least most : Nat} {args : Node} {xs : List Node}
    (h : items least most args = .ok xs) : least ≤ xs.length ∧ xs.length ≤ most := by
  unfold items at h
  split at h
  · split at h
    · next hlength =>
      cases h
      exact hlength
    · cases h
  · cases h

/-- A logical name that was read is not empty. -/
theorem ne_empty_of_logicalName {node : Node} {name : String} (h : logicalName node = .ok name) :
    name ≠ "" := by
  unfold logicalName at h
  split at h
  · split at h
    · cases h
    · next hne =>
      cases h
      exact hne
  · cases h

/-- The call that arguments are read as is well-formed. -/
theorem wellFormed_of_ofNode {f : Intrinsic} {args : Node} {c : Call Node}
    (h : ofNode f args = .ok (.call c)) : c.WellFormed := by
  cases f <;>
    simp only [ofNode, one, two, three, ofSubstitution, attributePath, bind, Except.bind, pure,
      Except.pure] at h <;>
    grind [Call.WellFormed, length_of_items, ne_empty_of_logicalName]

/-- A literal call names an attribute of a resource or leaves its region out. -/
theorem literal_of_ofNode {f : Intrinsic} {args : Node} {c : Call Operand}
    (h : ofNode f args = .ok (.literal c)) :
    (f = .getAtt ∧ ∃ resource name, resource ≠ "" ∧ c = .getAtt resource (.string name)) ∨
      (f = .getAZs ∧ c = .getAZs (.string "")) := by
  cases f <;>
    simp only [ofNode, one, two, three, ofSubstitution, attributePath, bind, Except.bind, pure,
      Except.pure] at h <;>
    grind

/-- A region that is given is not null. -/
theorem ne_null_of_ofNode {f : Intrinsic} {args x : Node}
    (h : ofNode f args = .ok (.call (.getAZs x))) : x ≠ .null := by
  obtain rfl : Intrinsic.getAZs = f := function_of_ofNode h
  rintro rfl
  simp only [ofNode] at h
  split at h
  · cases h
  · -- The null was read as a region left out, which is a literal call.
    next hne =>
    cases h
    exact hne rfl

end Arguments

/-! ## Written calls -/

namespace Call

theorem ofName?_longName (f : Intrinsic) : Intrinsic.ofName? f.longName = some f := by
  cases f <;> decide

/-- Where a function may be called, the key that it is written with is read. -/
theorem readsCall_of_allowed {area : Section} {f : Intrinsic} {owner : Option Intrinsic}
    (h : area.restriction? f owner = none) : area.readsCall owner f.longName = true := by
  cases f with
  | condition =>
    cases area <;> simp_all [Section.restriction?, Section.readsCall, Section.readsConditionKey] <;>
      decide
  | _ => rfl

/-- A mapping with the long name of a function as its key is a call, where the key is read. -/
theorem call?_longName {ctx : Context} {f : Intrinsic} (x : Node)
    (h : ctx.area.readsCall ctx.owner f.longName = true) :
    (Node.map [(.string f.longName, x)]).call? ctx = .ok (some (f, x)) := by
  simp only [Section.readsCall, Bool.and_eq_true, Bool.or_eq_true, decide_eq_true_eq] at h
  -- `Fn::Transform` looks like a call, but no function has it as its name.
  have htransform : f.longName ≠ "Fn::Transform" := by cases f <;> decide
  unfold Node.call?
  dsimp only
  rw [ofName?_longName, if_neg (by simp [h.1]), if_neg (by grind), if_neg htransform]

/-- A written call is recognised where its function may be called. -/
theorem call?_toNode {ctx : Context} {c : Call Node}
    (h : ctx.area.restriction? c.function ctx.owner = none) :
    c.toNode.call? ctx = .ok (some (c.function, c.argumentsNode)) :=
  call?_longName c.argumentsNode (readsCall_of_allowed h)

end Call

namespace Arguments

theorem logicalName_string {name : String} (h : name ≠ "") :
    logicalName (.string name) = .ok name := by
  rw [logicalName, if_neg h]

theorem items_seq {least most : Nat} {xs : List Node} (hleast : least ≤ xs.length)
    (hmost : xs.length ≤ most) : items least most (.seq xs) = .ok xs := by
  rw [items, if_pos ⟨hleast, hmost⟩]

/-- The arguments that are written for a call are read as the call. -/
theorem ofNode_argumentsNode {c : Call Node} (h : c.WellFormed) (hsub : c.function ≠ .sub)
    (hregion : c ≠ .getAZs .null) : ofNode c.function c.argumentsNode = .ok (.call c) := by
  cases c with
  | and xs | or xs =>
    rw [Call.function, Call.argumentsNode, ofNode, items_seq h.1 h.2]
    rfl
  | sub t bindings => exact absurd rfl hsub
  | ref n | condition n =>
    rw [Call.function, Call.argumentsNode, ofNode, logicalName_string h]
    rfl
  | getAtt r x =>
    change (logicalName (.string r) >>= fun n => pure (Call.getAtt n x)) >>=
      (fun c => pure (call c)) = _
    rw [logicalName_string h]
    rfl
  | ifElse n x y =>
    change (logicalName (.string n) >>= fun n => pure (Call.ifElse n x y)) >>=
      (fun c => pure (call c)) = _
    rw [logicalName_string h]
    rfl
  -- A null would be read as a region left out, so it is ruled out by the hypothesis.
  | getAZs x =>
    cases x with
    | null => exact absurd rfl hregion
    | _ => rfl
  | _ => rfl

/-- The arguments that are written for a substitution are read as its text and variables. -/
theorem ofNode_sub (template : String) (bindings : List (String × Node)) :
    ofNode .sub (Call.sub template bindings).argumentsNode =
      .ok (.substitution template (bindings.map fun e => (.string e.1, e.2))) := by
  cases bindings with
  | nil => rfl
  | cons e bindings => rfl

end Arguments

end StackTemplate
