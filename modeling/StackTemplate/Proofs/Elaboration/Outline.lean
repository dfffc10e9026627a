import StackTemplate.Proofs.Elaboration.Transparency
import StackTemplate.Proofs.Resolution.Spelling

/-!
# Outlines

An outline says where the expressions of a document stand: under which keys, in the value of which
attribute, in which section. Everything else in a document is literal data, down to the names of
attributes. Two documents agree in an outline if they are equal but for their expressions; what
elaboration makes of a document depends on what its expressions resolve to, and on nothing else in
them.

* `Outline.template` : where the expressions of a template document stand.
* `Outline.Agree` : documents that are equal but for their expressions, which are related.
* `Outline.operands` : the expressions of a document.
* `Template.ofDocumentDirectly_congr` : documents whose expressions are resolved alike are read
  alike.
-/

namespace StackTemplate

variable {α β γ : Type}

/-! ## Outlines -/

/-- What a part of a document is: literal data, an expression in a section, or a mapping whose keys
say what stands under them. -/
inductive Outline where
  | literal
  | operand (area : Section)
  | mapping (part : Node → Outline)

namespace Outline

/-- A mapping in which the texts of the keys say what stands under them. -/
def attributes (part : String → Outline) : Outline :=
  .mapping fun key => ((Scalar.keyText? key).map part).getD .literal

def resourceAttribute (name : String) : Outline :=
  if name = "Properties" then .mapping fun _ => .operand .resources
  else if name = "Metadata" ∨ name = "CreationPolicy" ∨ name = "UpdatePolicy" then
    .operand .resources
  else .literal

def exportAttribute (name : String) : Outline :=
  if name = "Name" then .operand .outputs else .literal

def outputAttribute (name : String) : Outline :=
  if name = "Value" then .operand .outputs
  else if name = "Export" then attributes exportAttribute
  else .literal

def entity : Section → Outline
  | .conditions => .operand .conditions
  | .resources => attributes resourceAttribute
  | .outputs => attributes outputAttribute
  | _ => .literal

/-- The content of a section. -/
def content (area : Section) : Outline := .mapping fun _ => entity area

/-- A document; the keys of sections are read through tags. -/
def template : Outline :=
  .mapping fun key => ((key.string?.bind Section.ofKey?).map content).getD .literal

/-- Two documents are equal but for their expressions, which are related. -/
def Agree (R : Section → Node → Node → Prop) : Outline → Node → Node → Prop
  | .literal, x, y => x = y
  | .operand area, x, y => R area x y
  | .mapping part, .map es, .map fs =>
    List.Forall₂ (fun e f => e.1 = f.1 ∧ (part e.1).Agree R e.2 f.2) es fs
  | .mapping _, x, y => x = y

/-- The expressions of a document, with their sections. -/
def operands : Outline → Node → List (Section × Node)
  | .literal, _ => []
  | .operand area, x => [(area, x)]
  | .mapping part, .map es => es.flatMap fun e => (part e.1).operands e.2
  | .mapping _, _ => []

variable {R S : Section → Node → Node → Prop} {part : Node → Outline} {x y : Node}

/-- Mappings that agree are both mappings with the same keys, or equal. -/
theorem agree_mapping_iff : (mapping part).Agree R x y ↔
    (∃ es fs, x = .map es ∧ y = .map fs ∧
      List.Forall₂ (fun e f => e.1 = f.1 ∧ (part e.1).Agree R e.2 f.2) es fs) ∨
    x = y ∧ ∀ es, x ≠ .map es := by
  constructor
  · intro h
    cases x with
    | map es =>
      cases y with
      | map fs => exact .inl ⟨es, fs, rfl, rfl, h⟩
      | _ => cases h
    | _ => exact .inr ⟨h, nofun⟩
  · rintro (⟨es, fs, rfl, rfl, h⟩ | ⟨rfl, hmap⟩)
    · exact h
    · cases x with
      | map es => exact absurd rfl (hmap es)
      | _ => rfl

/-- Expressions that are related in one way may be related in another one. -/
theorem Agree.mono {o : Outline} (h : o.Agree R x y)
    (hRS : ∀ e ∈ o.operands x, ∀ y, R e.1 e.2 y → S e.1 e.2 y) : o.Agree S x y := by
  induction o generalizing x y with
  | literal => exact h
  | operand area => exact hRS (area, x) List.mem_cons_self y h
  | mapping part ih =>
    rw [agree_mapping_iff] at h ⊢
    rcases h with ⟨es, fs, rfl, rfl, hes⟩ | h
    · refine .inl ⟨es, fs, rfl, rfl, ?_⟩
      -- An expression of an entry is one of the mapping, to which the hypothesis applies.
      have hall := (List.forall₂_and_left _ _).2 ⟨fun e he => he, hes⟩
      refine hall.imp fun e f ⟨he, hkey, hvalue⟩ => ⟨hkey, ih e.1 hvalue fun e' he' => ?_⟩
      exact hRS e' (List.mem_flatMap.2 ⟨e, he, he'⟩)
    · exact .inr h

/-- Mappings of literal data that agree are equal. -/
theorem eq_of_agree_literal (h : (mapping fun _ => literal).Agree R x y) : x = y := by
  rcases agree_mapping_iff.1 h with ⟨es, fs, rfl, rfl, hes⟩ | ⟨rfl, -⟩
  · have hsame : List.Forall₂ Eq es fs := hes.imp fun e f hef => Prod.ext hef.1 hef.2
    rw [List.forall₂_eq_eq_eq] at hsame
    rw [hsame]
  · rfl

/-- No mapping in a document has two keys with the same text, where none has in one that agrees and
the expressions keep that. -/
theorem Agree.textsDiffer {o : Outline} (h : o.Agree R x y)
    (hR : ∀ area x y, R area x y → x.textsDiffer = true → y.textsDiffer = true)
    (hx : x.textsDiffer = true) : y.textsDiffer = true := by
  induction o generalizing x y with
  | literal =>
    obtain rfl : x = y := h
    exact hx
  | operand area => exact hR area x y h hx
  | mapping part ih =>
    rcases agree_mapping_iff.1 h with ⟨es, fs, rfl, rfl, hes⟩ | ⟨rfl, -⟩
    · have hkeys := Node.keyTexts_eq_of_forall₂
        (hes.imp fun _ _ hef => congrArg Scalar.keyText? hef.1)
      rw [Node.textsDiffer, Node.everyMapping, Bool.and_eq_true, Node.everyMappingOfEntries_iff]
        at hx ⊢
      -- Keys are the same on both sides, at the top and inside.
      refine ⟨hkeys ▸ hx.1, fun f hf => ?_⟩
      obtain ⟨e, he, hkey, hvalue⟩ := exists_mem_of_forall₂ hes hf
      exact ⟨hkey ▸ (hx.2 e he).1, ih e.1 hvalue (hx.2 e he).2⟩
    · exact hx

end Outline

/-! ## Attributes -/

/-- Checks that are alike are followed alike. -/
theorem Resolution.attempt_ofExcept_congr {σ : Type} {R : α → β → Prop} {x : Except Fault α}
    {y : Except Fault β} {f : α → Attempt σ γ} {g : β → Attempt σ γ} (h : Except.Alike R x y)
    (hfg : ∀ a b, R a b → f a = g b) :
    (ofExcept x : Resolution σ α).attempt >>= f = (ofExcept y : Resolution σ β).attempt >>= g := by
  cases h with
  | error e e' => rfl
  | ok hab => exact hfg _ _ hab

namespace Entries

variable {R : String → α → β → Prop} {es : List (String × α)} {fs : List (String × β)}

/-- What stands under a key in related entries is related as the key says. -/
theorem find?_relatedAt (h : List.Forall₂ (RelatedAt R) es fs) (key : String) :
    Option.Rel (R key) (find? es key) (find? fs key) := by
  induction h with
  | nil => exact .none
  | @cons e f es fs hef _ ih =>
    obtain ⟨k, x⟩ := e
    obtain ⟨l, y⟩ := f
    obtain ⟨rfl, hxy⟩ : k = l ∧ R k x y := hef
    unfold find?
    by_cases hk : k = key
    · -- The first entry is the one that is found, on both sides.
      subst hk
      rw [if_pos rfl, if_pos rfl]
      exact .some hxy
    · rw [if_neg hk, if_neg hk]
      exact ih

end Entries

/-- Steps that run alike on the members of two lists. -/
theorem foldlM_eq_of_forall₂ {m : Type → Type} [Monad m] {f : γ → α → m γ} {g : γ → β → m γ}
    {xs : List α} {ys : List β} (h : List.Forall₂ (fun x y => ∀ c, f c x = g c y) xs ys) (c : γ) :
    xs.foldlM f c = ys.foldlM g c := by
  induction h generalizing c with
  | nil => rfl
  | cons hxy _ ih =>
    rw [List.foldlM_cons, List.foldlM_cons, hxy c]
    exact bind_congr ih

namespace Outline

variable {R : Section → Node → Node → Prop} {x y : Node}

/-- The attributes of mappings that agree are the same, with values that agree. -/
theorem attributes_agree {part : Node → Outline} {under : String → Outline}
    (h : (mapping part).Agree R x y)
    (hpart : ∀ key k, Scalar.keyText? key = some k → part key = under k) (path : String) :
    Except.Alike (List.Forall₂ (Entries.RelatedAt fun k => (under k).Agree R))
      (Entry.attributes path x) (Entry.attributes path y) := by
  rcases agree_mapping_iff.1 h with ⟨es, fs, rfl, rfl, hes⟩ | ⟨rfl, hmap⟩
  · have htexts := keyTexts?_related (R := fun k => (under k).Agree R) <| hes.imp
      fun e f ⟨hkey, hvalue⟩ => ⟨congrArg Scalar.keyText? hkey, fun k hk => hpart _ k hk ▸ hvalue⟩
    rw [Entry.attributes_map, Entry.attributes_map]
    generalize keyTexts? es = bs, keyTexts? fs = bs' at htexts
    cases htexts with
    | none => exact .error _ _
    | some hbs => exact .ok (Entries.forall₂_ofList_at hbs)
  · cases x with
    | map es => exact absurd rfl (hmap es)
    | _ => exact .error _ _

/-- Under a required name agreeing attributes have nodes that agree. -/
theorem required_agree {under : String → Outline} {es fs : List (String × Node)}
    (h : List.Forall₂ (Entries.RelatedAt fun k => (under k).Agree R) es fs)
    (path field : String) :
    Except.Alike ((under field).Agree R) (Entry.required path field es)
      (Entry.required path field fs) := by
  have hfind := Entries.find?_relatedAt h field
  unfold Entry.required
  generalize Entries.find? es field = a, Entries.find? fs field = b at hfind
  cases hfind with
  | none => exact .error _ _
  | some hab => exact .ok hab

/-- What stands under a key depends on its text. -/
theorem part_attributes {under : String → Outline} (key : Node) (k : String)
    (hk : Scalar.keyText? key = some k) :
    ((Scalar.keyText? key).map under).getD .literal = under k := by
  rw [hk]
  rfl

end Outline

/-! ## Entities -/

/-- Two expressions are resolved alike, wherever in their section. -/
def Node.ResolvedAlike (area : Section) (x y : Node) : Prop :=
  ∀ path, (x.resolve Staging.none (.root area path) : Resolution Unit Operand).attempt =
    (y.resolve Staging.none (.root area path)).attempt

namespace Resource

open Outline

/-- Properties that agree are resolved alike. -/
theorem attempt_properties_congr {es fs : List (String × Node)}
    (h : List.Forall₂ (Entries.RelatedAt fun _ => (Outline.operand .resources).Agree
      Node.ResolvedAlike) es fs) (path : String) :
    (propertiesOfEntries (Staging.none : Staging Unit) (.root .resources path) es).attempt =
      (propertiesOfEntries Staging.none (.root .resources path) fs).attempt := by
  rw [attempt_propertiesOfEntries, attempt_propertiesOfEntries]
  refine mapM_eq_of_forall₂ (h.imp fun e f ⟨hkey, hvalue⟩ => ?_)
  have hresolve := hvalue (path ++ (Slot.key e.1).segment)
  rw [← hkey]
  exact congrArg (fun a => (fun o => (e.1, o)) <$> a) hresolve

/-- Attributes of a resource that agree are read alike. -/
theorem attempt_withAttribute_congr {name : String} {x y : Node}
    (h : (resourceAttribute name).Agree Node.ResolvedAlike x y) (path : String) (r : Resource) :
    (r.withAttribute (Staging.none : Staging Unit) path name x).attempt =
      (r.withAttribute Staging.none path name y).attempt := by
  rw [attempt_withAttribute, attempt_withAttribute]
  unfold resourceAttribute at h
  split_ifs at h with hproperties hoperand
  · -- Properties are a mapping of expressions, unless they are null.
    subst hproperties
    have hnull : x.isNull = y.isNull := by
      rcases agree_mapping_iff.1 h with ⟨es, fs, rfl, rfl, -⟩ | ⟨rfl, -⟩ <;> rfl
    have hattributes : Except.Alike (List.Forall₂ (Entries.RelatedAt fun _ =>
          (Outline.operand .resources).Agree Node.ResolvedAlike))
        (Entry.attributes (path ++ "." ++ "Properties") x)
        (Entry.attributes (path ++ "." ++ "Properties") y) :=
      attributes_agree h (fun _ _ _ => rfl) _
    have hread := Resolution.attempt_ofExcept_congr (σ := Unit) hattributes fun es fs hes =>
      congrArg (fun a => a >>= fun properties =>
        pure { r with properties := Dict.ofList properties })
        (attempt_properties_congr hes (path ++ "." ++ "Properties"))
    simp only [hnull, hread, String.reduceEq, reduceIte]
  · -- Metadata and the policies are single expressions.
    have hresolve (path : String) :
        (x.resolve Staging.none (.root .resources path) : Resolution Unit Operand).attempt =
          (y.resolve Staging.none (.root .resources path)).attempt :=
      h path
    rcases hoperand with rfl | rfl | rfl <;> simp only [hresolve, String.reduceEq, reduceIte]
  · obtain rfl : x = y := h
    rfl

/-- Resources that agree are read alike. -/
theorem attempt_ofNode_congr {x y : Node}
    (h : (Outline.entity .resources).Agree Node.ResolvedAlike x y) (name : String) :
    (ofNode (Staging.none : Staging Unit) name x).attempt =
      (ofNode Staging.none name y).attempt := by
  rw [attempt_ofNode, attempt_ofNode]
  refine Resolution.attempt_ofExcept_congr (attributes_agree h part_attributes _)
    fun es fs hes => ?_
  -- The type is literal, so it is the same text.
  have htype : Except.Alike Eq
      (Entry.required (Section.resources.key ++ "." ++ name) "Type" es >>=
        Entry.text (Section.resources.key ++ "." ++ name ++ ".Type"))
      (Entry.required (Section.resources.key ++ "." ++ name) "Type" fs >>=
        Entry.text (Section.resources.key ++ "." ++ name ++ ".Type")) := by
    refine (required_agree hes _ "Type").bind fun a b _ hab => ?_
    obtain rfl : a = b := hab
    exact .refl (fun _ => rfl) _
  refine Resolution.attempt_ofExcept_congr htype fun type type' htype' => ?_
  subst htype'
  refine foldlM_eq_of_forall₂ (hes.imp fun e f ⟨hkey, hvalue⟩ r => ?_) _
  rw [← hkey]
  exact attempt_withAttribute_congr hvalue _ r

end Resource

namespace Output

open Outline

/-- Attributes of an output that agree are read alike; its value is not read among them. -/
theorem attempt_withAttribute_congr {name : String} {x y : Node}
    (h : (outputAttribute name).Agree Node.ResolvedAlike x y) (path : String) (out : Output) :
    (out.withAttribute (Staging.none : Staging Unit) path name x).attempt =
      (out.withAttribute Staging.none path name y).attempt := by
  rw [attempt_withAttribute, attempt_withAttribute]
  unfold outputAttribute at h
  split_ifs at h with hvalue hexport
  · subst hvalue
    rfl
  · subst hexport
    -- The name of an export is an expression below two mappings.
    have hname : Except.Alike ((Outline.operand .outputs).Agree Node.ResolvedAlike)
        (Entry.attributes (path ++ "." ++ "Export") x >>=
          Entry.required (path ++ "." ++ "Export") "Name")
        (Entry.attributes (path ++ "." ++ "Export") y >>=
          Entry.required (path ++ "." ++ "Export") "Name") :=
      (attributes_agree h part_attributes _).bind fun es fs _ hes => required_agree hes _ "Name"
    have hread := Resolution.attempt_ofExcept_congr (σ := Unit) hname fun a b hab =>
      congrArg (fun a => a >>= fun exportName => pure { out with exportName := some exportName })
        (hab (path ++ "." ++ "Export" ++ ".Name"))
    simp only [hread, String.reduceEq, reduceIte]
  · obtain rfl : x = y := h
    rfl

/-- Outputs that agree are read alike. -/
theorem attempt_ofNode_congr {x y : Node}
    (h : (Outline.entity .outputs).Agree Node.ResolvedAlike x y) (name : String) :
    (ofNode (Staging.none : Staging Unit) name x).attempt =
      (ofNode Staging.none name y).attempt := by
  rw [attempt_ofNode, attempt_ofNode]
  refine Resolution.attempt_ofExcept_congr (attributes_agree h part_attributes _)
    fun es fs hes => ?_
  refine Resolution.attempt_ofExcept_congr (required_agree hes _ "Value") fun a b hab => ?_
  have hresolve : (a.resolve Staging.none _ : Resolution Unit Operand).attempt =
    (b.resolve Staging.none _).attempt := hab (Section.outputs.key ++ "." ++ name ++ ".Value")
  rw [hresolve]
  refine bind_congr fun value => ?_
  refine foldlM_eq_of_forall₂ (hes.imp fun e f ⟨hkey, hvalue⟩ out => ?_) _
  rw [← hkey]
  exact attempt_withAttribute_congr hvalue _ out

end Output

/-! ## Sections -/

/-- The first members with a property are related. -/
theorem find?_of_forall₂ {R : α → β → Prop} {p : α → Bool} {q : β → Bool} {xs : List α}
    {ys : List β} (h : List.Forall₂ R xs ys) (hpq : ∀ x y, R x y → p x = q y) :
    Option.Rel (fun x y => R x y ∧ p x = true) (xs.find? p) (ys.find? q) := by
  induction h with
  | nil => exact .none
  | @cons x y xs ys hxy _ ih =>
    rw [List.find?_cons, List.find?_cons, ← hpq x y hxy]
    cases hp : p x with
    | true => exact .some ⟨hxy, hp⟩
    | false => exact ih

theorem map_fst_eq_of_forall₂ {es : List (α × β)} {fs : List (α × γ)}
    (h : List.Forall₂ (fun e f => e.1 = f.1) es fs) : es.map Prod.fst = fs.map Prod.fst := by
  induction h with
  | nil => rfl
  | cons hef _ ih => rw [List.map_cons, List.map_cons, hef, ih]

namespace Document

open Outline

variable {R : Section → Node → Node → Prop} {root root' : List (Node × Node)} {area : Section}

/-- The sections of documents that agree do so as well. -/
theorem section?_agree (h : Outline.template.Agree R (.map root) (.map root')) (area : Section) :
    Option.Rel ((content area).Agree R) (section? root area) (section? root' area) := by
  have hkey : Section.ofKey? area.key = some area := by cases area <;> decide
  have hfind := find?_of_forall₂ (p := fun e => decide (e.1.string? = some area.key))
    (q := fun e => decide (e.1.string? = some area.key)) (List.forall₂_reverse_iff.2 h)
    fun e f hef => by rw [hef.1]
  unfold section?
  generalize root.reverse.find? _ = e, root'.reverse.find? _ = f at hfind
  cases hfind with
  | none => exact .none
  | @some e f hef =>
    obtain ⟨⟨-, hvalue⟩, hname⟩ := hef
    dsimp only at hvalue
    -- The entry that was found has the key of the section, so its content is that of the section.
    rw [of_decide_eq_true hname, Option.bind_some, hkey] at hvalue
    exact .some hvalue

/-- A section without expressions is the same in documents that agree. -/
theorem section?_eq_of_literal (h : Outline.template.Agree R (.map root) (.map root'))
    (harea : entity area = .literal) : section? root area = section? root' area := by
  have hsection := section?_agree h area
  unfold content at hsection
  rw [harea] at hsection
  generalize section? root area = c, section? root' area = c' at hsection
  cases hsection with
  | none => rfl
  | some hc => rw [eq_of_agree_literal hc]

/-- Sections that agree have the same faults as a whole. -/
theorem sectionFaults_agree {c c' : Option Node} (h : Option.Rel ((content area).Agree R) c c') :
    sectionFaults area c = sectionFaults area c' := by
  cases h with
  | none => rfl
  | some hc =>
    rcases agree_mapping_iff.1 hc with ⟨es, fs, rfl, rfl, hes⟩ | ⟨rfl, -⟩
    · -- The faults of names depend on the keys only.
      unfold sectionFaults
      clear hc
      induction hes with
      | nil => rfl
      | @cons e f es fs hef _ ih =>
        simp only at ih ⊢
        rw [List.filterMap_cons, List.filterMap_cons, hef.1, ih]
    · rfl

/-- The entities of sections that agree have the same names, and bodies that agree. -/
theorem entities_agree {c c' : Option Node} (h : Option.Rel ((content area).Agree R) c c') :
    List.Forall₂ (Entries.Related ((entity area).Agree R)) (entities area c)
      (entities area c') := by
  cases h with
  | none => exact .nil
  | some hc =>
    rcases agree_mapping_iff.1 hc with ⟨es, fs, rfl, rfl, hes⟩ | ⟨rfl, hmap⟩
    · unfold entities
      clear hc
      induction hes with
      | nil => exact .nil
      | @cons e f es fs hef _ ih =>
        obtain ⟨key, body⟩ := e
        obtain ⟨key', body'⟩ := f
        obtain ⟨rfl, hbody⟩ : key = key' ∧ (entity area).Agree R body body' := hef
        simp only [List.filterMap_cons]
        -- Names are read off the keys, which are the same.
        cases logicalName area key with
        | error e => exact ih
        | ok name => exact .cons ⟨rfl, hbody⟩ ih
    · rename_i x
      cases x with
      | map es => exact absurd rfl (hmap es)
      | _ => exact .nil

/-- A section is read alike in documents that agree, where bodies that agree are. -/
theorem attemptSection_congr {read : String → Node → Resolution Unit α}
    (h : Outline.template.Agree R (.map root) (.map root'))
    (hread : ∀ name x y, (entity area).Agree R x y →
      (read name x).attempt = (read name y).attempt) :
    attemptSection root area read = attemptSection root' area read := by
  have hsection := section?_agree h area
  have hentities : attemptEntities read (entities area (section? root area)) =
      attemptEntities read (entities area (section? root' area)) := by
    refine mapM_eq_of_forall₂ ((entities_agree hsection).imp fun e f ⟨hname, hbody⟩ => ?_)
    rw [← hname, hread e.1 e.2 f.2 hbody]
  rw [attemptSection, attemptSection, sectionFaults_agree hsection, hentities]

end Document

/-! ## Templates -/

namespace Template

open Document Outline

variable {R : Section → Node → Node → Prop} {root root' : List (Node × Node)}
  {document document' : Node}

/-- Documents that agree have the same faults outside of their entities. -/
theorem plainFaults_agree (h : Outline.template.Agree R (.map root) (.map root')) :
    plainFaults root = plainFaults root' := by
  have hkeys (root : List (Node × Node)) : (root.filterMap fun e => keyFault? e.1) =
      (root.map Prod.fst).filterMap keyFault? := by
    rw [List.filterMap_map]
    rfl
  have hroot : root.map Prod.fst = root'.map Prod.fst :=
    map_fst_eq_of_forall₂ (List.Forall₂.imp (fun _ _ hef => hef.1) h)
  -- Resources are missing from both documents or from none.
  have habsent : (section? root .resources).isNone = (section? root' .resources).isNone := by
    have hsection := section?_agree h .resources
    generalize section? root .resources = c, section? root' .resources = c' at hsection
    cases hsection <;> rfl
  have hliteral (area : Section) (harea : entity area = .literal) := section?_eq_of_literal h harea
  unfold plainFaults readText metadataFaults
  rw [hkeys, hkeys, hroot, habsent, hliteral .formatVersion rfl, hliteral .description rfl,
    hliteral .metadata rfl]

/-- Documents whose expressions are resolved alike have the same sections. -/
theorem attemptSections_congr
    (h : Outline.template.Agree Node.ResolvedAlike (.map root) (.map root')) :
    attemptSections (Staging.none : Staging Unit) root = attemptSections Staging.none root' := by
  have hliteral (area : Section) (harea : entity area = .literal) := section?_eq_of_literal h harea
  have hconditions :
      attemptSection root .conditions (conditionOfNode (Staging.none : Staging Unit)) =
        attemptSection root' .conditions (conditionOfNode Staging.none) :=
    attemptSection_congr h fun name x y hxy => hxy (Section.conditions.key ++ "." ++ name)
  have hresources : attemptSection root .resources (Resource.ofNode (Staging.none : Staging Unit)) =
      attemptSection root' .resources (Resource.ofNode Staging.none) :=
    attemptSection_congr h fun name x y hxy => Resource.attempt_ofNode_congr hxy name
  have houtputs : attemptSection root .outputs (Output.ofNode (Staging.none : Staging Unit)) =
      attemptSection root' .outputs (Output.ofNode Staging.none) :=
    attemptSection_congr h fun name x y hxy => Output.attempt_ofNode_congr hxy name
  -- The other sections hold no expressions and are thus the same in both documents.
  have hparameters : attemptSection root .parameters
        (fun name body => (Resolution.ofExcept (Parameter.ofNode name body) : Resolution Unit _)) =
      attemptSection root' .parameters fun name body =>
        Resolution.ofExcept (Parameter.ofNode name body) := by
    rw [attemptSection, attemptSection, hliteral .parameters rfl]
  have hmappings : attemptSection root .mappings
        (fun name body => (Resolution.ofExcept (Mapping.ofNode name body) : Resolution Unit _)) =
      attemptSection root' .mappings fun name body =>
        Resolution.ofExcept (Mapping.ofNode name body) := by
    rw [attemptSection, attemptSection, hliteral .mappings rfl]
  unfold attemptSections readText
  rw [hparameters, hmappings, hconditions, hresources, houtputs, hliteral .formatVersion rfl,
    hliteral .description rfl]

/-- One pass reads documents alike whose expressions are resolved alike. -/
theorem ofDocumentDirectly_congr
    (h : Outline.template.Agree Node.ResolvedAlike document document') (t : Template) :
    ofDocumentDirectly document = .ok t ↔ ofDocumentDirectly document' = .ok t := by
  rcases agree_mapping_iff.1 h with ⟨root, root', rfl, rfl, hroot⟩ | ⟨rfl, -⟩
  · rw [ofDocumentDirectly_eq_ok, ofDocumentDirectly_eq_ok, plainFaults_agree h,
      attemptSections_congr h]
  · exact Iff.rfl

/-- Documents that agree declare the same names. -/
theorem namesDiffer_of_agree (h : Outline.template.Agree R document document')
    (hnames : document.NamesDiffer) : document'.NamesDiffer := by
  rcases agree_mapping_iff.1 h with ⟨root, root', rfl, rfl, hroot⟩ | ⟨rfl, -⟩
  · intro area harea
    rw [← Entries.keys_eq_of_related (entities_agree (section?_agree h area))]
    exact hnames area harea
  · exact hnames

end Template

end StackTemplate
