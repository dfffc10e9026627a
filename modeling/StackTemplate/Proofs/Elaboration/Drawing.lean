import Mathlib.Data.List.Nodup
import StackTemplate.Proofs.Elaboration.Declaration
import StackTemplate.Proofs.Resolution.Drawing

/-!
# Collections that elaboration stages

Elaborating a document while operands are staged records placeholders for different ones of the
collections in the document. Every entity draws from its own body, and the bodies lie apart: of
attributes with one text only the last counts, and no entry of the document is read as two sections.

* `Resource.draws_ofNode`, `Output.draws_ofNode` : an entity draws from its body.
* `Document.drawsFrom_readSection` : a section draws from the entry that it is read from.
* `Template.drawsFrom_elaborate` : a document is drawn from.
-/

namespace StackTemplate

variable {α β : Type}

open Resolution (Draws)
open Placeholders (DrawsFrom)

/-- A check records nothing, so what follows it may rely on what it gives. -/
theorem Resolution.Draws.check {nodes : List Node} {x : Except Fault α}
    {f : α → Resolution Placeholders β} (h : ∀ a, x = .ok a → (f a).Draws nodes) :
    (Resolution.ofExcept x >>= f).Draws nodes := by
  cases x with
  | error e => exact .throw nodes e
  | ok a => exact h a rfl

/-- Outside of any call, what is in a node is drawn, and never the node itself. -/
theorem Node.draws_operand (node : Node) (ctx : Context) :
    Draws node.everyCollection (node.resolve Placeholder.staging ctx) :=
  (node.draws_resolve ctx).mono node.remains_within

/-! ## Entities -/

/-- The attributes of a body are some of its values, each at most once. -/
theorem Entry.remains_attributes {path : String} {body : Node} {attributes : List (String × Node)}
    (h : Entry.attributes path body = .ok attributes) :
    Remains False (attributes.flatMap fun e => e.2.everyCollection) body.everyCollection := by
  obtain ⟨entries, bs, rfl, hbs, rfl⟩ := exists_of_attributes h
  -- Under one text the last value replaces the others.
  have hlast : Remains False (Entries.ofList bs) bs := Entries.remains_ofList False.elim
  have hvalues : (bs.flatMap fun e => e.2.everyCollection) =
      (Node.map entries).members.flatMap Node.everyCollection := by
    rw [Node.members, ← (keyTexts?_eq_some hbs).2, Entries.values, List.flatMap_map]
  have hattributes := hlast.flatMap fun e => e.2.everyCollection
  rw [hvalues] at hattributes
  exact (hattributes.trans (Node.remains_members _)).trans (Node.remains_within _)

namespace Resource

/-- Properties are drawn from one after the other. -/
theorem draws_properties (ctx : Context) (es : List (String × Node)) :
    Draws (es.flatMap fun e => e.2.everyCollection)
      (propertiesOfEntries Placeholder.staging ctx es) := by
  induction es with
  | nil => exact .pure _ []
  | cons e es ih =>
    obtain ⟨name, node⟩ := e
    rw [propertiesOfEntries, List.flatMap_cons]
    exact (node.draws_operand _).bind fun o => ih.bind_pure

/-- An attribute of a resource draws from its own node. -/
theorem draws_withAttribute (path : String) (r : Resource) (name : String) (node : Node) :
    Draws node.everyCollection (r.withAttribute Placeholder.staging path name node) := by
  unfold withAttribute
  dsimp only
  refine .ite (fun _ => .pure _ r) fun _ => ?_
  refine .ite (fun _ => .ite (fun _ => .pure _ r) fun _ => ?_) fun _ => ?_
  · refine .check fun entries hentries => ?_
    exact (draws_properties _ entries).bind_pure.mono (Entry.remains_attributes hentries)
  refine .ite (fun _ => .check fun _ _ => .pure _ _) fun _ => ?_
  refine .ite (fun _ => .check fun _ _ => .pure _ _) fun _ => ?_
  refine .ite (fun _ => .check fun _ _ => .pure _ _) fun _ => ?_
  refine .ite (fun _ => .check fun _ _ => .pure _ _) fun _ => ?_
  refine .ite (fun _ => (node.draws_operand _).bind_pure) fun _ => ?_
  refine .ite (fun _ => (node.draws_operand _).bind_pure) fun _ => ?_
  exact .ite (fun _ => (node.draws_operand _).bind_pure) fun _ => .throw _ _

/-- A resource draws from its body. -/
theorem draws_ofNode (name : String) (body : Node) :
    Draws body.everyCollection (ofNode Placeholder.staging name body) := by
  unfold ofNode
  dsimp only
  refine .check fun attributes hattributes => .check fun type _ => ?_
  exact (Draws.foldlM (fun r e _ => draws_withAttribute _ r e.1 e.2) _).mono
    (Entry.remains_attributes hattributes)

end Resource

namespace Output

/-- What an attribute of an output adds; the value is none of these. -/
theorem draws_withAttribute (path : String) (out : Output) (name : String) (node : Node) :
    Draws (if name = "Value" then [] else node.everyCollection)
      (out.withAttribute Placeholder.staging path name node) := by
  unfold withAttribute
  dsimp only
  refine .ite (fun _ => .pure _ out) fun hname => ?_
  rw [if_neg hname]
  refine .ite (fun _ => .check fun _ _ => .pure _ _) fun _ => ?_
  refine .ite (fun _ => .check fun _ _ => .pure _ _) fun _ => ?_
  refine .ite (fun _ => .check fun exportNode hexport => ?_) fun _ => .throw _ _
  exact (exportNode.draws_operand _).bind_pure.mono
    ((Node.remains_of_mem_members (required_mem_members hexport)).trans node.remains_within)

/-- The value is resolved before the other attributes, wherever it stands among them. -/
theorem remains_value {attributes : List (String × Node)} {value : Node}
    (h : ("Value", value) ∈ attributes) :
    Remains False
      (value.everyCollection ++
        attributes.flatMap fun e => if e.1 = "Value" then [] else e.2.everyCollection)
      (attributes.flatMap fun e => e.2.everyCollection) := by
  obtain ⟨before, after, rfl⟩ := List.append_of_mem h
  -- Moving the value to the front changes the order only.
  have hperm : (before ++ ("Value", value) :: after).Perm (("Value", value) :: (before ++ after)) :=
    List.perm_middle
  -- The value is skipped when its turn comes among the attributes.
  have hothers : Remains False
      ((before ++ after).flatMap fun e => if e.1 = "Value" then [] else e.2.everyCollection)
      ((before ++ after).flatMap fun e => e.2.everyCollection) := by
    refine .flatMap_of_forall fun e _ => ?_
    split
    · exact .of_sublist (List.nil_sublist _)
    · exact .refl _
  have hskipped := hperm.flatMap_right fun e => if e.1 = "Value" then [] else e.2.everyCollection
  have hall := hperm.symm.flatMap_right fun e => e.2.everyCollection
  have hrest := (Remains.of_perm hskipped).trans hothers
  exact ((Remains.refl value.everyCollection).append hrest).trans (.of_perm hall)

/-- An output draws from its body. -/
theorem draws_ofNode (name : String) (body : Node) :
    Draws body.everyCollection (ofNode Placeholder.staging name body) := by
  unfold ofNode
  dsimp only
  refine .check fun attributes hattributes => .check fun value hvalue => ?_
  have hvalue := Entries.mem_of_find?_eq_some (Entry.find?_of_required hvalue)
  refine .mono (.bind (value.draws_operand _) fun o => ?_)
    ((remains_value hvalue).trans (Entry.remains_attributes hattributes))
  exact .foldlM (fun out e _ => draws_withAttribute _ out e.1 e.2) (ofValue o)

end Output

/-! ## Sections -/

theorem Section.ofKey?_key (area : Section) : ofKey? area.key = some area := by
  cases area <;> rfl

/-- Different sections have different keys. -/
theorem Section.key_injective : Function.Injective Section.key := by
  intro area area' h
  have hsome := congrArg ofKey? h
  rw [ofKey?_key, ofKey?_key] at hsome
  exact Option.some.inj hsome

namespace Document

/-- Entities that draw, read one after the other. -/
theorem drawsFrom_readEntities {read : String → Node → Resolution Placeholders α}
    {nodes : Node → List Node} (h : ∀ name body, (read name body).Draws (nodes body))
    (es : List (String × Node)) (table : Placeholders) :
    DrawsFrom (es.flatMap fun e => nodes e.2) table (readEntities read es table).2 := by
  induction es generalizing table with
  | nil => exact .refl _ table
  | cons e es ih =>
    obtain ⟨name, body⟩ := e
    have hfirst := h name body table
    rw [List.flatMap_cons]
    -- A faulty entity has drawn too, and what it has recorded stays.
    rcases hread : (read name body).run table with ⟨fault | x, after⟩ <;> rw [hread] at hfirst
    · rw [readEntities_cons_error hread]
      exact hfirst.append (ih after)
    · rw [readEntities_cons_ok hread]
      exact hfirst.append (ih after)

/-- The bodies of entities are some of the values of the section. -/
theorem sublist_entities (area : Section) (content : Node) :
    ((entities area (some content)).map Prod.snd).Sublist content.members := by
  cases content with
  | map entries =>
    rw [Node.members, entities]
    induction entries with
    | nil => exact .slnil
    | cons e entries ih =>
      obtain ⟨key, body⟩ := e
      cases hname : logicalName area key with
      -- A body without a proper name is not read.
      | error fault =>
        simpa [hname] using ih.cons body
      | ok name =>
        simpa [hname] using ih.cons_cons body
  | _ => exact List.nil_sublist _

/-- Reading a section draws from the entry of the document that it is read from. -/
theorem drawsFrom_readSection {read : String → Node → Resolution Placeholders α}
    (h : ∀ name body, (read name body).Draws body.everyCollection) {root : List (Node × Node)}
    {area : Section} {table after : Placeholders} {answer : List Fault × Dict α}
    (hread : readSection root area read table = (answer, after)) :
    DrawsFrom ((section? root area).toList.flatMap Node.everyCollection) table after := by
  obtain rfl : (readEntities read (entities area (section? root area)) table).2 = after :=
    congrArg Prod.snd hread
  refine (drawsFrom_readEntities h _ table).mono ?_
  cases section? root area with
  | none => exact .refl []
  | some content =>
    have hbodies := Node.remains_of_sublist_members (sublist_entities area content)
    rw [List.flatMap_map] at hbodies
    rw [Option.toList_some, List.flatMap_singleton]
    exact hbodies.trans content.remains_within

/-- A section of literal entities is read without any recording. -/
theorem drawsFrom_literalSection {read : String → Node → Except Fault α} {root : List (Node × Node)}
    {area : Section} {table after : Placeholders} {answer : List Fault × Dict α}
    (hread : readSection root area (fun name body => Resolution.ofExcept (read name body)) table =
      (answer, after)) : DrawsFrom [] table after := by
  obtain rfl := congrArg Prod.snd hread
  -- Reading a literal entity is a single check.
  have hchecks (name : String) (body : Node) :
      (Resolution.ofExcept (read name body) : Resolution Placeholders α).Draws [] := by
    rw [← bind_pure (Resolution.ofExcept _)]
    exact .check fun a _ => .pure [] a
  have hdraws := drawsFrom_readEntities hchecks (entities area (section? root area)) table
  exact hdraws.mono (.of_perm (by simp))

/-- No entry of a document is read as two sections. -/
theorem remains_sections (root : List (Node × Node)) {areas : List Section} (h : areas.Nodup) :
    Remains False (areas.flatMap fun area => (section? root area).toList) (root.map Prod.snd) := by
  -- A section is read from the last entry with its key.
  have hentries : areas.flatMap (fun area => (section? root area).toList) =
      (areas.filterMap fun area => root.reverse.find? fun e => e.1.string? = some area.key).map
        Prod.snd := by
    rw [List.map_filterMap, List.filterMap_eq_flatMap_toList]
    rfl
  rw [hentries]
  refine (Remains.of_nodup (List.Nodup.filterMap (fun area area' e he he' => ?_) h) ?_).map Prod.snd
  · -- The key of the entry is the key of both sections.
    have hkey := List.find?_some he
    have hkey' := List.find?_some he'
    simp only [decide_eq_true_eq] at hkey hkey'
    exact Section.key_injective (Option.some.inj (hkey.symm.trans hkey'))
  · intro e he
    obtain ⟨area, -, he⟩ := List.mem_filterMap.1 he
    exact List.mem_reverse.1 (List.mem_of_find?_eq_some he)

end Document

/-! ## Documents -/

namespace Template

open Document

/-- Elaborating a document draws from the collections in the document. -/
theorem drawsFrom_elaborate (document : Node) (table : Placeholders) :
    DrawsFrom document.everyCollection table
      (elaborate Placeholder.staging document table).2 := by
  cases document with
  | map root =>
    rcases exists_sections Placeholder.staging root table with ⟨f₁, d₁, t₁, hparameters, f₂, d₂, t₂,
      hmappings, f₃, d₃, t₃, hconditions, f₄, d₄, t₄, hresources, f₅, d₅, t₅, houtputs⟩
    -- Literal sections draw nothing, and the other three draw from different entries.
    have hliteral :=
      (drawsFrom_literalSection hparameters).append (drawsFrom_literalSection hmappings)
    have hexpressions := drawsFrom_readSection (fun name body => body.draws_operand _) hconditions
    have hentities := (drawsFrom_readSection Resource.draws_ofNode hresources).append
      (drawsFrom_readSection Output.draws_ofNode houtputs)
    have hdraws := hliteral.append (hexpressions.append hentities)
    have hareas : [Section.conditions, .resources, .outputs].Nodup := by decide
    have hsections := (remains_sections root hareas).flatMap Node.everyCollection
    have hroot := (Node.map root).remains_members.trans (Node.map root).remains_within
    have hall : DrawsFrom (Node.map root).everyCollection table t₅ := by
      refine hdraws.mono (.trans (.of_perm (.of_eq ?_)) (hsections.trans hroot))
      simp
    rw [elaborate_of_sections hparameters hmappings hconditions hresources houtputs]
    -- Whatever is reported in the end, the table is the one that the sections left.
    split_ifs
    · exact hall
    · exact hall
    · exact .refl _ table
  | _ => exact .refl _ table

end Template

end StackTemplate
