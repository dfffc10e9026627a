import StackTemplate.Proofs.Evaluation.Calls
import StackTemplate.Proofs.Resolution.Writing

/-!
# Calls that were read

Every call is checked where it stands. Which functions may be called depends on the section and on
the function whose operand the call is: a list or a mapping between two calls ends the first one.
The checks reach every level of a node, so they hold of every call in the operand that it denotes,
however deep the call is nested and however it was written.

* `Operand.Occurs` : an operand stands at some depth in another one, as an operand of a function.
* `Node.admitted_of_denotes` : every call in what a node denotes is permitted and well-formed.
-/

namespace StackTemplate

/-! ## Occurrences -/

/-- The logical name that a call gives literally. -/
def Call.name? {α : Type} : Call α → Option String
  | .ref name | .condition name | .getAtt name _ | .ifElse name _ _ => some name
  | _ => none

/-- The function that an operand calls, absent where it is no call. -/
def Operand.function? (o : Operand) : Option Intrinsic := o.call?.map Call.function

/-- The operand `x` stands at some depth in an operand, where it is an operand of a call of `owner`;
the operand itself stands in the given place. Members of a list or a mapping are operands of no
call. -/
inductive Operand.Occurs (x : Operand) (owner : Option Intrinsic) :
    Option Intrinsic → Operand → Prop
  | here : Occurs x owner owner x
  | inside {place : Option Intrinsic} {o part : Operand} (hpart : part ∈ o.parts)
      (h : Occurs x owner o.function? part) : Occurs x owner place o

/-- A function that is called in an operand is called by a call that stands somewhere in it. -/
theorem Operand.Calls.exists_occurs {f : Intrinsic} {o : Operand} (h : o.Calls f)
    (place : Option Intrinsic) :
    ∃ c owner, Occurs (.call c) owner place o ∧ c.function = f := by
  induction h generalizing place with
  | here hfunction => exact ⟨_, place, .here, hfunction⟩
  | @inside x o hpart _ ih =>
    rcases ih o.function? with ⟨c, owner, hoccurs, hfunction⟩
    exact ⟨c, owner, .inside hpart hoccurs, hfunction⟩

/-! ## Layers -/

namespace Node

variable {ctx : Context} {node : Node} {l : Layer Node} {ys : List Operand} {o : Operand}
  {c : Call Operand} {owner : Option Intrinsic}

/-- A call that a layer builds is permitted where its node is. -/
theorem HasLayer.permitted (h : node.HasLayer ctx l)
    (hbuild : (l.refill ys).build = .call c) :
    ctx.area.restriction? c.function ctx.owner = none := by
  cases h with
  | literal _ hallowed harguments =>
    obtain rfl := Operand.call.inj hbuild
    rcases Arguments.literal_of_ofNode harguments with ⟨rfl, _, _, -, rfl⟩ | ⟨rfl, rfl⟩
    · exact hallowed
    · exact hallowed
  | @call f args c _ hallowed harguments =>
    obtain rfl := Arguments.function_of_ofNode harguments
    have hsub := Arguments.function_ne_sub_of_ofNode harguments
    rw [Layer.refill, Layer.build_call (by simpa using hsub)] at hbuild
    obtain rfl := Operand.call.inj hbuild
    rwa [Call.function_refill]
  -- Tidying the variables does not change what is called.
  | substitution _ hallowed harguments _ =>
    obtain rfl := Arguments.eq_sub_of_ofNode harguments
    obtain rfl := Operand.call.inj hbuild
    exact hallowed
  | list _ => cases hbuild
  | map _ _ _ => cases hbuild
  | scalar _ => cases hbuild

/-- The parts of what a layer builds are its children, apart from texts in its own arguments. -/
theorem HasLayer.mem_of_mem_parts (h : node.HasLayer ctx l)
    (hlength : ys.length = l.children.length) {x : Operand}
    (hx : x ∈ (l.refill ys).build.parts) : x ∈ ys ∨ ∃ text, x = .string text := by
  cases h with
  -- A literal call has no children; its one operand is a text that it was built with.
  | literal _ _ harguments =>
    rcases Arguments.literal_of_ofNode harguments with ⟨-, _, name, -, rfl⟩ | ⟨-, rfl⟩
    · exact .inr ⟨name, List.mem_singleton.1 hx⟩
    · exact .inr ⟨"", List.mem_singleton.1 hx⟩
  | @call f args c _ _ harguments =>
    have hsub := Arguments.function_ne_sub_of_ofNode harguments
    have hoperands : ys.length = c.operands.length := by simpa [Layer.children] using hlength
    rw [Layer.refill, Layer.build_call (by simpa using hsub), Operand.parts,
      Call.operands_refill hoperands] at hx
    exact .inl hx
  | substitution _ _ _ _ => exact .inl (Entries.mem_of_mem_values_ofList_zip hx)
  | list _ => exact .inl hx
  | map _ _ _ => exact .inl (Entries.mem_of_mem_values_ofList_zip hx)
  | scalar _ => cases hx

/-- A call that a layer builds is well-formed. -/
theorem HasLayer.wellFormed (h : node.HasLayer ctx l) (hlength : ys.length = l.children.length)
    (hbuild : (l.refill ys).build = .call c) : c.WellFormed := by
  cases h with
  | literal _ _ harguments =>
    obtain rfl := Operand.call.inj hbuild
    rcases Arguments.literal_of_ofNode harguments with ⟨-, _, _, hname, rfl⟩ | ⟨-, rfl⟩
    · exact hname
    · trivial
  | @call f args c' _ _ harguments =>
    have hsub := Arguments.function_ne_sub_of_ofNode harguments
    have hoperands : ys.length = c'.operands.length := by simpa [Layer.children] using hlength
    rw [Layer.refill, Layer.build_call (by simpa using hsub)] at hbuild
    rw [← Operand.call.inj hbuild]
    exact Call.wellFormed_refill (Arguments.wellFormed_of_ofNode harguments) hsub hoperands
  | substitution _ _ _ _ =>
    obtain rfl := Operand.call.inj hbuild
    exact Entries.nodup_keys_ofList _
  | list _ => cases hbuild
  | map _ _ _ => cases hbuild
  | scalar _ => cases hbuild

/-- The children of a layer are operands of the call that the layer builds. -/
theorem HasLayer.function?_build (h : node.HasLayer ctx l) (hlength : ys.length = l.children.length)
    (hys : ys ≠ []) : (l.refill ys).build.function? = l.owner? := by
  cases h with
  | literal _ _ _ => exact absurd (List.length_eq_zero_iff.1 hlength) hys
  | call _ _ harguments =>
    have hsub := Arguments.function_ne_sub_of_ofNode harguments
    rw [Layer.refill, Layer.build_call (by simpa using hsub)]
    simp [Operand.function?, Operand.call?, Layer.owner?]
  | substitution _ _ _ _ => rfl
  | list _ => rfl
  | map _ _ _ => rfl
  | scalar _ => rfl

/-- No call stands in a text. -/
theorem not_occurs_text {text : String} {place : Option Intrinsic} :
    ¬ Operand.Occurs (.call c) owner place (.string text) := by
  intro h
  cases h with
  | inside hpart _ => cases hpart

/-! ## Operands that were read -/

/-- Every call in the operand that a node denotes is permitted where it stands, and well-formed. -/
theorem admitted_of_denotes (h : node.Denotes ctx o)
    (hoccurs : Operand.Occurs (.call c) owner ctx.owner o) :
    ctx.area.restriction? c.function owner = none ∧ c.WellFormed := by
  -- The call is built from the layer of the node or comes from a child.
  induction node using Node.induction generalizing ctx o with
  | step node ih =>
    rcases denotes_iff.1 h with ⟨l, ys, hlayer, hchildren, rfl⟩
    have hlength := hchildren.length_eq.symm
    have hhas := layer?_eq_some_iff.1 hlayer
    generalize hbuild : (l.refill ys).build = built at hoccurs
    cases hoccurs with
    | here => exact ⟨hhas.permitted hbuild, hhas.wellFormed hlength hbuild⟩
    | @inside _ _ part hpart hinside =>
      subst hbuild
      -- What is inside comes from a child, where the hypothesis applies, or is a text.
      rcases hhas.mem_of_mem_parts hlength hpart with hmem | ⟨text, rfl⟩
      · rcases exists_mem_of_forall₂ hchildren hmem with ⟨⟨slot, x⟩, hx, hdenotes⟩
        rw [hhas.function?_build hlength (List.ne_nil_of_mem hmem),
          ← Context.owner_inside ctx l.owner? slot] at hinside
        have hadmitted := ih x (within_of_layer hlayer hx) hdenotes hinside
        rwa [Context.inside_eq] at hadmitted
      · exact absurd hinside not_occurs_text

end Node

end StackTemplate
