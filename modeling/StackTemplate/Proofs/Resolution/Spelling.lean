import StackTemplate.Proofs.Resolution.Writing

/-!
# Short and long spellings

A call can be written with a local tag or as a mapping whose single key is the long name of its
function. Resolution recognises both, so a node keeps its meaning when some of its tags, at any
depth, are written as mappings. It inspects arguments before it resolves them, for names, texts and
the number of items, but nothing that it looks for is a tag or a mapping with a single key, apart
from the variables of a substitution: these have to be a mapping, not a tag. And the key `Condition`
is read as a call only where conditions may be named, while the tag always is one.

* `Node.Respelled` : a node with some tags written as mappings.
* `Node.conforms` : what is asked of the nodes that resolution comes to.
* `Node.layer?_respelled` : respelled nodes have the same layer, with respelled children.
* `Node.attempt_resolve_respelled` : respelled nodes are resolved alike.
-/

namespace StackTemplate

variable {ε α β γ δ : Type}

/-- An action run on the members of two lists that run alike one by one. -/
theorem mapM_eq_of_forall₂ {m : Type → Type} [Monad m] [LawfulMonad m] {f : α → m γ} {g : β → m γ}
    {xs : List α} {ys : List β} (h : List.Forall₂ (fun x y => f x = g y) xs ys) :
    xs.mapM f = ys.mapM g := by
  induction h with
  | nil => rfl
  | cons hxy _ ih => rw [List.mapM_cons, List.mapM_cons, hxy, ih]

/-- Keys with the same texts, and values that are related as the texts say. -/
theorem keyTexts?_related {R : String → Node → Node → Prop} {es fs : List (Node × Node)}
    (h : List.Forall₂ (fun e f => Scalar.keyText? e.1 = Scalar.keyText? f.1 ∧
      ∀ k, Scalar.keyText? e.1 = some k → R k e.2 f.2) es fs) :
    Option.Rel (List.Forall₂ (Entries.RelatedAt R)) (keyTexts? es) (keyTexts? fs) := by
  induction h with
  | nil => exact .some .nil
  | @cons e f es fs hef _ ih =>
    rw [keyTexts?_cons, keyTexts?_cons, ← hef.1]
    cases hk : Scalar.keyText? e.1 with
    | none => exact .none
    | some k =>
      rw [Option.bind_some, Option.bind_some]
      generalize keyTexts? es = bs, keyTexts? fs = bs' at ih
      cases ih with
      | none => exact .none
      | some hbs => exact .some (.cons ⟨rfl, hef.2 k hk⟩ hbs)

/-- Mappings whose keys have the same texts one by one have the same texts of keys. -/
theorem Node.keyTexts_eq_of_forall₂ {es fs : List (Node × Node)}
    (h : List.Forall₂ (fun e f => Scalar.keyText? e.1 = Scalar.keyText? f.1) es fs) :
    keyTexts es = keyTexts fs := by
  induction h with
  | nil => rfl
  | @cons e f es fs hef _ ih =>
    rw [keyTexts] at ih ⊢
    rw [keyTexts, List.filterMap_cons, List.filterMap_cons, hef, ih]
    rfl

/-! ## Respelled nodes -/

/-- The second node is the first one with some local tags, at any depth, written as mappings with
the long name of the function that they name. -/
inductive Node.Respelled : Node → Node → Prop
  | refl (x : Node) : Respelled x x
  | seq {xs ys : List Node} (h : List.Forall₂ Respelled xs ys) : Respelled (.seq xs) (.seq ys)
  | map {es fs : List (Node × Node)}
      (hkeys : List.Forall₂ Respelled (es.map Prod.fst) (fs.map Prod.fst))
      (hvalues : List.Forall₂ Respelled (es.map Prod.snd) (fs.map Prod.snd)) :
      Respelled (.map es) (.map fs)
  | tagged (name : String) {x y : Node} (h : Respelled x y) :
      Respelled (.tagged name x) (.tagged name y)
  | call {name : String} {f : Intrinsic} {x y : Node}
      (hname : Intrinsic.ofName? (Node.tagText name) = some f) (h : Respelled x y) :
      Respelled (.tagged name x) (.map [(.string f.longName, y)])

/-- Two mappings with respelled keys and values. -/
abbrev Node.RespelledEntries : List (Node × Node) → List (Node × Node) → Prop :=
  List.Forall₂ fun e f => e.1.Respelled f.1 ∧ e.2.Respelled f.2

namespace Node

theorem respelledEntries {es fs : List (Node × Node)}
    (hkeys : List.Forall₂ Respelled (es.map Prod.fst) (fs.map Prod.fst))
    (hvalues : List.Forall₂ Respelled (es.map Prod.snd) (fs.map Prod.snd)) :
    RespelledEntries es fs := by
  rw [List.forall₂_map_left_iff, List.forall₂_map_right_iff] at hkeys hvalues
  exact List.Forall₂.mp (fun e f hkey hvalue => ⟨hkey, hvalue⟩) hkeys hvalues

theorem RespelledEntries.refl (es : List (Node × Node)) : RespelledEntries es es :=
  List.forall₂_same.2 fun e _ => ⟨.refl e.1, .refl e.2⟩

/-- A tag with a known name may be written as a mapping with the long name as its key. -/
theorem Respelled.of_key {name key : String} {f : Intrinsic} {x y : Node}
    (hname : Intrinsic.ofName? (tagText name) = some f) (hkey : f.longName = key)
    (h : x.Respelled y) : (Node.tagged name x).Respelled (.map [(.string key, y)]) :=
  hkey ▸ .call hname h

/-- A tag has no text, and neither has the mapping that is written for it. -/
theorem Respelled.keyText?_eq {x y : Node} (h : x.Respelled y) :
    Scalar.keyText? x = Scalar.keyText? y := by
  cases h <;> rfl

/-- The texts of the keys are the same, with respelled values. -/
theorem keyTexts?_respelled {es fs : List (Node × Node)} (h : RespelledEntries es fs) :
    Option.Rel (List.Forall₂ (Entries.Related Respelled)) (keyTexts? es) (keyTexts? fs) :=
  keyTexts?_related (R := fun _ => Respelled) <| h.imp fun _ _ hef =>
    ⟨hef.1.keyText?_eq, fun _ _ => hef.2⟩

/-- A mapping that is written for a tag has a single key, so the texts of keys still differ. -/
theorem Respelled.textsDiffer {x y : Node} (h : x.Respelled y) (hx : x.textsDiffer = true) :
    y.textsDiffer = true := by
  -- The induction is on the size of the first node.
  induction hn : sizeOf x using Nat.strongRecOn generalizing x y with
  | ind n ih =>
    subst hn
    cases h with
    | refl => exact hx
    | @seq xs ys h =>
      rw [textsDiffer_seq] at hx ⊢
      intro y hy
      rcases exists_mem_of_forall₂ h hy with ⟨x, hmem, hxy⟩
      exact ih _ (sizeOf_lt_of_mem_members hmem) hxy (hx x hmem) rfl
    | @map es fs hkeys hvalues =>
      have hentries := respelledEntries hkeys hvalues
      rw [Node.textsDiffer, everyMapping, Bool.and_eq_true, everyMappingOfEntries_iff] at hx ⊢
      have hkeys := keyTexts_eq_of_forall₂ (hentries.imp fun _ _ hef => hef.1.keyText?_eq)
      refine ⟨hkeys ▸ hx.1, fun f hf => ?_⟩
      rcases exists_mem_of_forall₂ hentries hf with ⟨e, he, hkey, hvalue⟩
      -- An entry is smaller than the mapping, and its key and value than the entry.
      have hsize := List.sizeOf_lt_of_mem he
      obtain ⟨key, value⟩ := e
      simp only [Prod.mk.sizeOf_spec] at hsize
      refine ⟨ih _ ?_ hkey (hx.2 _ he).1 rfl, ih _ ?_ hvalue (hx.2 _ he).2 rfl⟩
      · simp only [Node.map.sizeOf_spec]
        omega
      · simp only [Node.map.sizeOf_spec]
        omega
    | @tagged name x y h =>
      have hcontent : x.textsDiffer = true := hx
      have hy := ih _ (by simp only [Node.tagged.sizeOf_spec]; omega) h hcontent rfl
      exact hy
    | @call name f x y hname h =>
      have hcontent : x.textsDiffer = true := hx
      have hy := ih _ (by simp only [Node.tagged.sizeOf_spec]; omega) h hcontent rfl
      -- The mapping has one key, so only its value counts.
      have hmap : (Node.map ([(f.longName, y)].map fun e => (.string e.1, e.2))).textsDiffer =
          true := by
        refine textsDiffer_map.2 ⟨by simp, fun z hz => ?_⟩
        obtain rfl := List.mem_singleton.1 hz
        exact hy
      exact hmap

end Node

/-! ## Results that are alike -/

/-- Two results are failures, or successes with related values. -/
inductive Except.Alike (R : α → β → Prop) : Except ε α → Except ε β → Prop
  | error (e e' : ε) : Alike R (.error e) (.error e')
  | ok {a : α} {b : β} (h : R a b) : Alike R (.ok a) (.ok b)

namespace Except.Alike

theorem refl {R : α → α → Prop} (h : ∀ a, R a a) (x : Except ε α) : Alike R x x := by
  cases x with
  | error e => exact .error e e
  | ok a => exact .ok (h a)

theorem bind {R : α → β → Prop} {S : γ → δ → Prop} {x : Except ε α} {y : Except ε β}
    {f : α → Except ε γ} {g : β → Except ε δ} (h : Alike R x y)
    (hfg : ∀ a b, x = .ok a → R a b → Alike S (f a) (g b)) : Alike S (x >>= f) (y >>= g) := by
  cases h with
  | error e e' => exact .error e e'
  | ok hab => exact hfg _ _ rfl hab

end Except.Alike

/-! ## Layers that are alike -/

/-- Two layers have the same form, and respelled children in the same slots. -/
structure Layer.Alike (l l' : Layer Node) : Prop where
  owner : l.owner? = l'.owner?
  refill : ∀ ys : List Operand, l.refill ys = l'.refill ys
  children : List.Forall₂ (fun e e' => e.1 = e'.1 ∧ e.2.Respelled e'.2) l.children l'.children

namespace Layer.Alike

open Node (Respelled)

theorem refl (l : Layer Node) : Alike l l :=
  ⟨rfl, fun _ => rfl, List.forall₂_same.2 fun e _ => ⟨rfl, .refl e.2⟩⟩

/-- Respelled items stand in the same slots. -/
theorem indexed {xs ys : List Node} (h : List.Forall₂ Respelled xs ys) :
    List.Forall₂ (fun e e' => e.1 = e'.1 ∧ e.2.Respelled e'.2) (Call.indexed xs)
      (Call.indexed ys) := by
  -- The induction needs any first index.
  have hfrom (i : Nat) : List.Forall₂ (fun e e' : Slot × Node => e.1 = e'.1 ∧ e.2.Respelled e'.2)
      ((xs.zipIdx i).map fun (x, j) => (.index j, x))
      ((ys.zipIdx i).map fun (y, j) => (.index j, y)) := by
    induction h generalizing i with
    | nil => exact .nil
    | cons hxy _ ih => exact .cons ⟨rfl, hxy⟩ (ih (i + 1))
  exact hfrom 0

theorem keyed {es fs : List (String × Node)}
    (h : List.Forall₂ (Entries.Related Respelled) es fs) :
    List.Forall₂ (fun e e' => e.1 = e'.1 ∧ e.2.Respelled e'.2) (Call.keyed es)
      (Call.keyed fs) := by
  rw [Call.keyed, Call.keyed, List.forall₂_map_left_iff, List.forall₂_map_right_iff]
  exact h.imp fun e f hef => ⟨congrArg Slot.key hef.1, hef.2⟩

theorem list {xs ys : List Node} (h : List.Forall₂ Respelled xs ys) :
    Alike (.list xs) (.list ys) :=
  ⟨rfl, fun _ => rfl, indexed h⟩

theorem map {es fs : List (String × Node)}
    (h : List.Forall₂ (Entries.Related Respelled) es fs) : Alike (.map es) (.map fs) := by
  refine ⟨rfl, fun zs => ?_, keyed h⟩
  rw [Layer.refill, Layer.refill, Entries.keys_eq_of_related h]

theorem sub (template : String) {es fs : List (String × Node)}
    (h : List.Forall₂ (Entries.Related Respelled) es fs) :
    Alike (.call (.sub template es)) (.call (.sub template fs)) := by
  refine ⟨rfl, fun zs => ?_, keyed h⟩
  simp only [Layer.refill, Call.refill, Entries.keys_eq_of_related h]

end Layer.Alike

/-! ## Arguments -/

abbrev Call.Alike (c c' : Call Node) : Prop := Layer.Alike (.call c) (.call c')

/-- Arguments in the same form, with respelled operands. -/
inductive Arguments.Alike : Arguments → Arguments → Prop
  | call {c c' : Call Node} (h : c.Alike c') : Alike (.call c) (.call c')
  | literal (c : Call Operand) : Alike (.literal c) (.literal c)
  | substitution (template : String) {es fs : List (Node × Node)}
      (h : Node.RespelledEntries es fs) :
      Alike (.substitution template es) (.substitution template fs)

/-- Whether the variables of a substitution are no tag. -/
def Node.variablesUntagged : Node → Bool
  | .seq (_ :: .tagged _ _ :: _) => false
  | _ => true

namespace Arguments

open Node (Respelled)

variable {args args' : Node}

theorem Alike.refl : ∀ a : Arguments, Alike a a
  | .call c => .call (.refl (.call c))
  | .literal c => .literal c
  | .substitution template es => .substitution template (.refl es)

/-- Items are counted in sequences only, which remain sequences of the same length. -/
theorem items_respelled (least most : Nat) (h : Respelled args args') :
    Except.Alike (List.Forall₂ Respelled) (items least most args) (items least most args') := by
  cases h with
  | refl => exact .refl (fun xs => List.forall₂_same.2 fun x _ => .refl x) _
  | @seq xs ys h =>
    simp only [items, h.length_eq]
    split
    · exact .ok h
    · exact .error _ _
  | _ => exact .error _ _

/-- A logical name is a string, which is never respelled. -/
theorem logicalName_respelled (h : Respelled args args') :
    Except.Alike Eq (logicalName args) (logicalName args') := by
  cases h with
  | refl => exact .refl (fun _ => rfl) _
  | _ => exact .error _ _

/-- Arguments of one item are read alike. -/
theorem one_respelled {make : Node → Call Node} (h : Respelled args args')
    (hmake : ∀ x y, Respelled x y → (make x).Alike (make y)) :
    Except.Alike Alike (one make args) (one make args') := by
  refine (items_respelled 1 1 h).bind fun xs ys _ hxs => ?_
  match hxs with
  | .nil => exact .error _ _
  | .cons hx .nil => exact .ok (.call (hmake _ _ hx))
  | .cons _ (.cons _ _) => exact .error _ _

/-- Arguments of two items are read alike. -/
theorem two_respelled {make : Node → Node → Except CallFault (Call Node)}
    (h : Respelled args args') (hmake : ∀ x₁ y₁ x₂ y₂, Respelled x₁ y₁ → Respelled x₂ y₂ →
      Except.Alike Call.Alike (make x₁ x₂) (make y₁ y₂)) :
    Except.Alike Alike (two make args) (two make args') := by
  refine (items_respelled 2 2 h).bind fun xs ys _ hxs => ?_
  match hxs with
  | .nil => exact .error _ _
  | .cons _ .nil => exact .error _ _
  | .cons hx₁ (.cons hx₂ .nil) =>
    exact (hmake _ _ _ _ hx₁ hx₂).bind fun c c' _ hc => .ok (.call hc)
  | .cons _ (.cons _ (.cons _ _)) => exact .error _ _

/-- Arguments of three items are read alike. -/
theorem three_respelled {make : Node → Node → Node → Except CallFault (Call Node)}
    (h : Respelled args args') (hmake : ∀ x₁ y₁ x₂ y₂ x₃ y₃, Respelled x₁ y₁ → Respelled x₂ y₂ →
      Respelled x₃ y₃ → Except.Alike Call.Alike (make x₁ x₂ x₃) (make y₁ y₂ y₃)) :
    Except.Alike Alike (three make args) (three make args') := by
  refine (items_respelled 3 3 h).bind fun xs ys _ hxs => ?_
  match hxs with
  | .nil => exact .error _ _
  | .cons _ .nil => exact .error _ _
  | .cons _ (.cons _ .nil) => exact .error _ _
  | .cons hx₁ (.cons hx₂ (.cons hx₃ .nil)) =>
    exact (hmake _ _ _ _ _ _ hx₁ hx₂ hx₃).bind fun c c' _ hc => .ok (.call hc)
  | .cons _ (.cons _ (.cons _ (.cons _ _))) => exact .error _ _

/-- A tag in the place of the variables is refused, but the mapping that is written for it would be
read as the variables. -/
theorem ofSubstitution_respelled (h : Respelled args args')
    (hvariables : args.variablesUntagged = true) :
    Except.Alike Alike (ofSubstitution args) (ofSubstitution args') := by
  cases h with
  | refl => exact .refl Alike.refl _
  | seq h =>
    refine (items_respelled 1 2 (.seq h)).bind fun xs ys hitems hxs => ?_
    rw [eq_seq_of_items hitems] at hvariables
    cases hxs with
    | nil => exact .error _ _
    | @cons text _ _ _ htext hrest =>
      -- The text is a string in both spellings, or both are refused.
      cases htext with
      | refl =>
        cases text with
        | string template =>
          cases hrest with
          | nil => exact .ok (.substitution template .nil)
          | @cons values _ _ _ hvalues _ =>
            cases hvalues with
            | refl =>
              cases values with
              | map es => exact .ok (.substitution template (.refl es))
              | _ => exact .error _ _
            | map hkeys hvalues =>
              exact .ok (.substitution template (Node.respelledEntries hkeys hvalues))
            | seq _ => exact .error _ _
            -- Only where the variables are spelled as a call do the two spellings differ.
            | tagged _ _ => cases hvariables
            | call _ _ => cases hvariables
        | _ => exact .error _ _
      | _ => exact .error _ _
  | _ => exact .error _ _

/-- The arguments of a call are read alike, for they are inspected for texts and lengths only. -/
theorem ofNode_respelled (f : Intrinsic) (h : Respelled args args')
    (hvariables : f = .sub → args.variablesUntagged = true) :
    Except.Alike Alike (ofNode f args) (ofNode f args') := by
  cases f with
  | and | or =>
    exact (items_respelled 2 10 h).bind fun xs ys _ hxs =>
      .ok (.call ⟨rfl, fun _ => rfl, Layer.Alike.indexed hxs⟩)
  | not => exact one_respelled h fun x y hxy => ⟨rfl, fun _ => rfl, .cons ⟨rfl, hxy⟩ .nil⟩
  | equals | select | split | join =>
    exact two_respelled h fun _ _ _ _ h₁ h₂ =>
      .ok ⟨rfl, fun _ => rfl, .cons ⟨rfl, h₁⟩ (.cons ⟨rfl, h₂⟩ .nil)⟩
  | findInMap | cidr =>
    exact three_respelled h fun _ _ _ _ _ _ h₁ h₂ h₃ =>
      .ok ⟨rfl, fun _ => rfl, .cons ⟨rfl, h₁⟩ (.cons ⟨rfl, h₂⟩ (.cons ⟨rfl, h₃⟩ .nil))⟩
  | ref | condition =>
    refine (logicalName_respelled h).bind fun n n' _ hn => ?_
    subst hn
    exact .ok (.call (.refl _))
  | ifElse =>
    refine three_respelled h fun _ _ _ _ _ _ h₁ h₂ h₃ => ?_
    refine (logicalName_respelled h₁).bind fun n n' _ hn => ?_
    subst hn
    exact .ok ⟨rfl, fun _ => rfl, .cons ⟨rfl, h₂⟩ (.cons ⟨rfl, h₃⟩ .nil)⟩
  | getAtt =>
    have htwo : Except.Alike Alike
        (two (fun x y => return .getAtt (← logicalName x) y) args)
        (two (fun x y => return .getAtt (← logicalName x) y) args') := by
      refine two_respelled h fun _ _ _ _ h₁ h₂ => ?_
      refine (logicalName_respelled h₁).bind fun n n' _ hn => ?_
      subst hn
      exact .ok ⟨rfl, fun _ => rfl, .cons ⟨rfl, h₂⟩ .nil⟩
    -- Only a string is read as a path, and strings stay as they are.
    cases h with
    | refl => exact .refl Alike.refl _
    | _ => exact htwo
  | getAZs =>
    have hregion : Call.Alike (.getAZs args) (.getAZs args') :=
      ⟨rfl, fun _ => rfl, .cons ⟨rfl, h⟩ .nil⟩
    -- Only null is read as no region, and null stays as it is.
    cases h with
    | refl => exact .refl Alike.refl _
    | _ => exact .ok (.call hregion)
  | importValue | base64 => exact .ok (.call ⟨rfl, fun _ => rfl, .cons ⟨rfl, h⟩ .nil⟩)
  | sub => exact ofSubstitution_respelled h (hvariables rfl)

end Arguments

/-! ## Calls -/

namespace Node

variable {x y : Node} {ctx : Context}

/-- Whether a tag that names the function `Condition` stands where conditions may be named. -/
def conditionAllowed (area : Section) (owner : Option Intrinsic) : Node → Bool
  | .tagged name _ =>
    Intrinsic.ofName? (tagText name) ≠ some .condition ||
      area.restriction? .condition owner = none
  | _ => true

/-- Whether the variables of a substitution are no tag, where the node calls one. -/
def variablesAllowed (area : Section) (owner : Option Intrinsic) (node : Node) : Bool :=
  match node.call? ⟨area, "", owner⟩ with
  | .ok (some (.sub, args)) => args.variablesUntagged
  | _ => true

/-- Where a substitution is called, what is asked of its variables holds. -/
theorem untagged_of_variablesAllowed {args : Node}
    (h : x.variablesAllowed ctx.area ctx.owner = true)
    (hcall : x.call? ctx = .ok (some (.sub, args))) : args.variablesUntagged = true := by
  have hplain : x.call? ⟨ctx.area, "", ctx.owner⟩ = .ok (some (.sub, args)) :=
    call?_of_path hcall ""
  rwa [variablesAllowed, hplain] at h

/-- The key of a mapping with a single entry stays as it is, if it is a string. -/
theorem call?_map_respelled {es fs : List (Node × Node)} (h : RespelledEntries es fs)
    (ctx : Context) :
    Except.Alike (Option.Rel fun c c' => c.1 = c'.1 ∧ c.2.Respelled c'.2)
      ((map es).call? ctx) ((map fs).call? ctx) := by
  match es, fs, h with
  | [], [], .nil => exact .ok .none
  | [(key, x)], [(key', y)], .cons hxy .nil =>
    obtain ⟨hkey, hvalue⟩ := hxy
    cases hkey with
    | refl =>
      cases key with
      | string key =>
        unfold call?
        dsimp only
        split_ifs
        · exact .ok .none
        · exact .ok .none
        · exact .error _ _
        · cases Intrinsic.ofName? key with
          | none => exact .error _ _
          | some f => exact .ok (.some ⟨rfl, hvalue⟩)
      | _ => exact .ok .none
    | _ => exact .ok .none
  -- Mappings of several entries are no calls, and they keep all entries.
  | (key, _) :: _ :: _, (key', _) :: _ :: _, _ =>
    cases key <;> cases key' <;> exact .ok .none

/-- Respelled nodes call the same function, with respelled arguments. -/
theorem call?_respelled (h : x.Respelled y)
    (hcondition : x.conditionAllowed ctx.area ctx.owner = true) :
    Except.Alike (Option.Rel fun c c' => c.1 = c'.1 ∧ c.2.Respelled c'.2) (x.call? ctx)
      (y.call? ctx) := by
  cases h with
  | refl =>
    refine .refl (fun c => ?_) _
    cases c with
    | none => exact .none
    | some c => exact .some ⟨rfl, .refl c.2⟩
  | seq h => exact .ok .none
  | map hkeys hvalues => exact call?_map_respelled (respelledEntries hkeys hvalues) ctx
  | tagged name h =>
    unfold call?
    dsimp only
    cases Intrinsic.ofName? (tagText name) with
    | none => exact .error _ _
    | some f => exact .ok (.some ⟨rfl, h⟩)
  | @call name f x y hname h =>
    -- A key calls a function wherever it stands, but for the name of a condition.
    have hreads : ctx.area.readsCall ctx.owner f.longName = true := by
      by_cases hf : f = .condition
      · subst hf
        exact Call.readsCall_of_allowed (by simpa [conditionAllowed, hname] using hcondition)
      · cases f with
        | condition => exact absurd rfl hf
        | _ => rfl
    rw [Call.call?_longName y hreads]
    unfold call?
    dsimp only
    rw [hname]
    exact .ok (.some ⟨rfl, h⟩)

/-- Respelled mappings that are no calls are read as maps. -/
theorem layer_map_respelled {es fs : List (Node × Node)} (h : RespelledEntries es fs) :
    Option.Rel Layer.Alike ((keyTexts? es).map .map) ((keyTexts? fs).map .map) := by
  have htexts := keyTexts?_respelled h
  generalize keyTexts? es = bs, keyTexts? fs = bs' at htexts
  cases htexts with
  | none => exact .none
  | some hbs => exact .some (.map hbs)

/-- Respelled nodes have layers in the same form, with respelled children. -/
theorem layer?_respelled (h : x.Respelled y)
    (hcondition : x.conditionAllowed ctx.area ctx.owner = true)
    (hvariables : x.variablesAllowed ctx.area ctx.owner = true) :
    Option.Rel Layer.Alike (x.layer? ctx) (y.layer? ctx) := by
  have hcall := call?_respelled h hcondition
  unfold layer?
  generalize hx : x.call? ctx = answer, hy : y.call? ctx = answer' at hcall
  cases hcall with
  | error e e' => exact .none
  | ok hcall =>
    cases hcall with
    | none =>
      -- Neither node is a call, so neither is a tag.
      cases h with
      | refl =>
        cases x with
        | map es => exact layer_map_respelled (.refl es)
        | _ => exact .some (.refl _)
      | seq h => exact .some (.list h)
      | map hkeys hvalues => exact layer_map_respelled (respelledEntries hkeys hvalues)
      | tagged name h => exact absurd hx (call?_tagged_ne ctx name _)
      | @call name _ _ _ hname h => exact absurd hx (call?_tagged_ne ctx name _)
    | @some c c' hcall =>
      obtain ⟨f, args⟩ := c
      obtain ⟨f', args'⟩ := c'
      obtain ⟨rfl, hargs⟩ : f = f' ∧ args.Respelled args' := hcall
      dsimp only
      -- Both call one function, so both may or neither.
      cases ctx.area.restriction? f ctx.owner with
      | some r => exact .none
      | none =>
        have hread := Arguments.ofNode_respelled f hargs fun hf => by
          subst hf
          exact untagged_of_variablesAllowed hvariables hx
        dsimp only
        generalize Arguments.ofNode f args = a, Arguments.ofNode f args' = a' at hread
        cases hread with
        | error _ _ => exact .none
        | ok ha =>
          cases ha with
          | call hc => exact .some hc
          | literal c => exact .some (.refl _)
          | @substitution template es fs hentries =>
            have htexts := keyTexts?_respelled hentries
            dsimp only
            generalize keyTexts? es = bs, keyTexts? fs = bs' at htexts
            cases htexts with
            | none => exact .none
            | some hbs => exact .some (.sub template hbs)

/-! ## Resolution -/

/-- What a node calls, and so its layer, does not depend on its path. -/
theorem layer?_of_path (area : Section) (owner : Option Intrinsic) (path path' : String)
    (node : Node) : node.layer? ⟨area, path, owner⟩ = node.layer? ⟨area, path', owner⟩ := by
  have hlayer (path path' : String) (l : Layer Node)
      (h : node.HasLayer ⟨area, path, owner⟩ l) : node.HasLayer ⟨area, path', owner⟩ l := by
    cases h with
    | literal hcall hallowed harguments =>
      exact .literal (call?_of_path hcall path') hallowed harguments
    | call hcall hallowed harguments =>
      exact .call (call?_of_path hcall path') hallowed harguments
    | substitution hcall hallowed harguments hbs =>
      exact .substitution (call?_of_path hcall path') hallowed harguments hbs
    | list hnode => exact .list hnode
    | map hnode hcall hbs => exact .map hnode (call?_of_path hcall path') hbs
    | scalar hs => exact .scalar hs
  refine Option.ext fun l => ?_
  rw [layer?_eq_some_iff, layer?_eq_some_iff]
  exact ⟨hlayer path path' l, hlayer path' path l⟩

/-- Whether, in a node and in all nodes that resolution comes to from there, conditions are allowed
where a tag names them and the variables of substitutions are no tags. The node is read as an
operand of a call of `owner`. -/
def conforms (area : Section) (owner : Option Intrinsic) (node : Node) : Bool :=
  node.conditionAllowed area owner && node.variablesAllowed area owner &&
    match _ : node.layer? ⟨area, "", owner⟩ with
    | none => true
    | some l => l.children.attach.all fun e => e.1.2.conforms area l.owner?
termination_by sizeOf node
decreasing_by exact (within_of_layer ‹_› e.2).sizeOf_lt

/-- The children of a node that conforms do so in its layer. -/
theorem conforms_of_layer {l : Layer Node} (h : x.conforms ctx.area ctx.owner = true)
    (hlayer : x.layer? ctx = some l) {e : Slot × Node} (he : e ∈ l.children) :
    e.2.conforms ctx.area l.owner? = true := by
  rw [conforms, Bool.and_eq_true] at h
  -- Whether a node conforms is said for the empty path.
  have hplain : x.layer? ⟨ctx.area, "", ctx.owner⟩ = some l :=
    (layer?_of_path ctx.area ctx.owner "" ctx.path x).trans hlayer
  have hchildren := h.2
  split at hchildren
  · next hnone =>
    rw [hplain] at hnone
    cases hnone
  · next l' hsome =>
    rw [hplain] at hsome
    cases hsome
    exact List.all_eq_true.1 hchildren ⟨e, he⟩ (List.mem_attach _ _)

/-- Respelled nodes are resolved alike. -/
theorem attempt_resolve_respelled (h : x.Respelled y)
    (hconforms : x.conforms ctx.area ctx.owner = true) :
    (x.resolve Staging.none ctx : Resolution Unit Operand).attempt =
      (y.resolve Staging.none ctx).attempt := by
  -- The induction is along the layers of the first node.
  induction x using Node.induction generalizing y ctx with
  | step x ih =>
    have hhere : x.conditionAllowed ctx.area ctx.owner = true ∧
        x.variablesAllowed ctx.area ctx.owner = true := by
      rw [conforms, Bool.and_eq_true, Bool.and_eq_true] at hconforms
      exact hconforms.1
    have hlayers := layer?_respelled h hhere.1 hhere.2
    rw [attempt_resolve Staging.callsOnly_none, attempt_resolve Staging.callsOnly_none]
    generalize hx : x.layer? ctx = lx, hy : y.layer? ctx = ly at hlayers
    cases hlayers with
    | none => rfl
    | @some l l' hl =>
      -- The children of the layer conform as well, so they are resolved alike.
      have hchildren : attemptChildren (Staging.none : Staging Unit) ctx l =
          attemptChildren Staging.none ctx l' := by
        have hall := (List.forall₂_and_left _ _).2 ⟨fun e he => he, hl.children⟩
        refine mapM_eq_of_forall₂ (hall.imp ?_)
        rintro ⟨slot, a⟩ ⟨slot', b⟩ ⟨he, hslot, hab⟩
        obtain rfl : slot = slot' := hslot
        rw [← hl.owner]
        refine ih a (within_of_layer hx he) hab ?_
        rw [Context.inside_eq]
        exact conforms_of_layer hconforms hx he
      simp only [hchildren, hl.refill]

end Node

end StackTemplate
