import StackTemplate.Proofs.Elaboration.Attributes
import StackTemplate.Proofs.Elaboration.Declaration

/-!
# Operands and the nodes they are read from

Every operand of a resource or an output is what a node within the body of the entity denotes
outside of any call. What such nodes bring thus holds of all operands, attribute after attribute.

* `Node.Yields` : what nodes of a kind denote has a property.
* `Resource.every_of_ofNode`, `Output.every_of_ofNode` : the property of all operands that were
  read.
-/

namespace StackTemplate

/-- Nodes of a kind, which their members are of as well, denote operands with a property outside of
any call in a section. -/
structure Node.Yields (area : Section) (Q : Node → Prop) (P : Operand → Prop) : Prop where
  members : ∀ {x y : Node}, x ∈ y.members → Q y → Q x
  operands : ∀ {node : Node} {path : String} {o : Operand}, Q node →
    node.Denotes (.root area path) o → P o

variable {Q : Node → Prop} {P : Operand → Prop} {name path : String} {node body : Node}

/-! ## Resources -/

namespace Resource

/-- A property holds of every operand of a resource. -/
structure Every (P : Operand → Prop) (r : Resource) : Prop where
  properties : ∀ o ∈ r.properties.values, P o
  metadata : ∀ o, r.metadata = some o → P o
  creationPolicy : ∀ o, r.creationPolicy = some o → P o
  updatePolicy : ∀ o, r.updatePolicy = some o → P o

variable {r r' : Resource}

/-- The operands of a resource are those of its properties, metadata and policies. -/
theorem every_iff : r.Every P ↔ ∀ e ∈ r.operands, P e.2 := by
  constructor
  · intro h e he
    simp only [operands, List.mem_append, List.mem_map, Option.mem_toList] at he
    rcases he with ((⟨b, hb, rfl⟩ | ⟨o, ho, rfl⟩) | ⟨o, ho, rfl⟩) | ⟨o, ho, rfl⟩
    · exact h.properties b.2 (List.mem_map_of_mem hb)
    · exact h.metadata o ho
    · exact h.creationPolicy o ho
    · exact h.updatePolicy o ho
  · intro h
    constructor
    · rintro o ho
      rcases List.mem_map.1 ho with ⟨b, hb, rfl⟩
      exact h ("Properties." ++ b.1, b.2) (by simp [operands, hb])
    · exact fun o ho => h ("Metadata", o) (by simp [operands, ho])
    · exact fun o ho => h ("CreationPolicy", o) (by simp [operands, ho])
    · exact fun o ho => h ("UpdatePolicy", o) (by simp [operands, ho])

theorem every_ofType (type : String) : (ofType type).Every P :=
  ⟨by rintro _ ⟨⟩, by rintro _ ⟨⟩, by rintro _ ⟨⟩, by rintro _ ⟨⟩⟩

variable (hyields : Node.Yields .resources Q P)

include hyields

/-- Each property is what its node denotes. -/
theorem forall_of_propertiesOfEntries {es : List (String × Node)} {os : List (String × Operand)}
    (hes : ∀ e ∈ es, Q e.2)
    (h : (propertiesOfEntries Staging.none (.root .resources path) es).attempt () = some (os, ())) :
    ∀ e ∈ os, P e.2 := by
  rw [attempt_propertiesOfEntries, Attempt.mapM_eq_some_iff] at h
  intro e he
  rcases exists_mem_of_forall₂ h he with ⟨b, hb, hread⟩
  rcases Attempt.map_eq_some.1 hread with ⟨o, ho, rfl⟩
  exact hyields.operands (hes b hb) ho

/-- One more attribute brings operands from its own node at most. -/
theorem every_of_withAttribute {st st' : Unit} (hnode : Q node) (h : r.Every P)
    (hread : (r.withAttribute Staging.none path name node).attempt st = some (r', st')) :
    r'.Every P := by
  have hoperand {path : String} {o : Operand} {st st' : Unit}
      (ho : (node.resolve Staging.none (.root .resources path)).attempt st = some (o, st')) : P o :=
    hyields.operands hnode ho
  rw [attempt_withAttribute] at hread
  -- Properties, metadata and policies bring operands; the other attributes bring none.
  split_ifs at hread
  · cases hread
    exact h
  · cases hread
    exact h
  · rcases Attempt.bind_eq_some.1 hread with ⟨entries, st₁, hentries, hread⟩
    rcases Attempt.bind_eq_some.1 hread with ⟨os, st₂, hos, hread⟩
    rcases Resolution.attempt_ofExcept_eq_some.1 hentries with ⟨hentries, -⟩
    cases hread
    refine { h with properties := fun o ho => ?_ }
    rcases List.mem_map.1 (Entries.mem_values_of_mem_values_ofList ho) with ⟨e, he, rfl⟩
    -- The nodes of properties are members of the node of the attribute.
    refine forall_of_propertiesOfEntries hyields (fun b hb => ?_) hos e he
    exact hyields.members (Entry.mem_members_of_attributes hentries hb) hnode
  · rcases Attempt.bind_eq_some.1 hread with ⟨condition, st₁, -, hread⟩
    cases hread
    exact { h with }
  · rcases Attempt.bind_eq_some.1 hread with ⟨names, st₁, -, hread⟩
    cases hread
    exact { h with }
  · rcases Attempt.bind_eq_some.1 hread with ⟨policy, st₁, -, hread⟩
    cases hread
    exact { h with }
  · rcases Attempt.bind_eq_some.1 hread with ⟨policy, st₁, -, hread⟩
    cases hread
    exact { h with }
  · rcases Attempt.bind_eq_some.1 hread with ⟨o, st₁, ho, hread⟩
    cases hread
    exact { h with metadata := fun _ heq => Option.some.inj heq ▸ hoperand ho }
  · rcases Attempt.bind_eq_some.1 hread with ⟨o, st₁, ho, hread⟩
    cases hread
    exact { h with creationPolicy := fun _ heq => Option.some.inj heq ▸ hoperand ho }
  · rcases Attempt.bind_eq_some.1 hread with ⟨o, st₁, ho, hread⟩
    cases hread
    exact { h with updatePolicy := fun _ heq => Option.some.inj heq ▸ hoperand ho }
  · cases hread

/-- What the nodes in the body of a resource bring holds of every operand that is read. -/
theorem every_of_ofNode (hbody : Q body)
    (h : (ofNode Staging.none name body).attempt () = some (r, ())) : r.Every P := by
  rw [attempt_ofNode] at h
  rcases Attempt.bind_eq_some.1 h with ⟨attributes, st₁, hattributes, h⟩
  rcases Attempt.bind_eq_some.1 h with ⟨type, st₂, -, h⟩
  rcases Resolution.attempt_ofExcept_eq_some.1 hattributes with ⟨hattributes, -⟩
  refine Attempt.of_foldlM_eq_some h (every_ofType type) fun e he r r' st st' hr hread => ?_
  have hmember := hyields.members (Entry.mem_members_of_attributes hattributes he) hbody
  exact every_of_withAttribute hyields hmember hr hread

end Resource

/-! ## Outputs -/

namespace Output

/-- A property holds of every operand of an output. -/
structure Every (P : Operand → Prop) (out : Output) : Prop where
  value : P out.value
  exportName : ∀ o, out.exportName = some o → P o

variable {out out' : Output}

/-- The operands of an output are its value and the name of its export. -/
theorem every_iff : out.Every P ↔ ∀ e ∈ out.operands, P e.2 := by
  constructor
  · intro h e he
    simp only [operands, List.mem_cons, List.mem_map, Option.mem_toList] at he
    rcases he with rfl | ⟨o, ho, rfl⟩
    · exact h.value
    · exact h.exportName o ho
  · intro h
    constructor
    · exact h ("Value", out.value) List.mem_cons_self
    · exact fun o ho => h ("Export.Name", o) (by simp [operands, ho])

variable (hyields : Node.Yields .outputs Q P)

include hyields

/-- One more attribute brings at most the name of an export. -/
theorem every_of_withAttribute {st st' : Unit} (hnode : Q node) (h : out.Every P)
    (hread : (out.withAttribute Staging.none path name node).attempt st = some (out', st')) :
    out'.Every P := by
  rw [attempt_withAttribute] at hread
  split_ifs at hread
  · cases hread
    exact h
  · rcases Attempt.bind_eq_some.1 hread with ⟨text, st₁, -, hread⟩
    cases hread
    exact { h with }
  · rcases Attempt.bind_eq_some.1 hread with ⟨text, st₁, -, hread⟩
    cases hread
    exact { h with }
  · rcases Attempt.bind_eq_some.1 hread with ⟨exportNode, st₁, hexport, hread⟩
    rcases Attempt.bind_eq_some.1 hread with ⟨o, st₂, ho, hread⟩
    cases hread
    have hmember := required_mem_members (Resolution.attempt_ofExcept_eq_some.1 hexport).1
    have hoperand := hyields.operands (hyields.members hmember hnode) ho
    exact { h with exportName := fun _ heq => Option.some.inj heq ▸ hoperand }
  · cases hread

/-- What the nodes in the body of an output bring holds of every operand that is read. -/
theorem every_of_ofNode (hbody : Q body)
    (h : (ofNode Staging.none name body).attempt () = some (out, ())) : out.Every P := by
  rw [attempt_ofNode] at h
  rcases Attempt.bind_eq_some.1 h with ⟨attributes, st₁, hattributes, h⟩
  rcases Attempt.bind_eq_some.1 h with ⟨valueNode, st₂, hvalueNode, h⟩
  rcases Attempt.bind_eq_some.1 h with ⟨value, st₃, hvalue, h⟩
  rcases Resolution.attempt_ofExcept_eq_some.1 hattributes with ⟨hattributes, -⟩
  rcases Resolution.attempt_ofExcept_eq_some.1 hvalueNode with ⟨hvalueNode, -⟩
  have hmember {e : String × Node} (he : e ∈ attributes) : Q e.2 :=
    hyields.members (Entry.mem_members_of_attributes hattributes he) hbody
  have hfind := Entries.mem_of_find?_eq_some (Entry.find?_of_required hvalueNode)
  -- The value is there before any attribute is read.
  have hofValue : (ofValue value).Every P :=
    ⟨hyields.operands (hmember hfind) hvalue, by rintro _ ⟨⟩⟩
  refine Attempt.of_foldlM_eq_some h hofValue fun e he out out' st st' hout hread => ?_
  exact every_of_withAttribute hyields (hmember he) hout hread

end Output

end StackTemplate
