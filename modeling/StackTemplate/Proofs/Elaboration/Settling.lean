import StackTemplate.Proofs.Elaboration.Sections
import StackTemplate.Proofs.Resolution.Ready

/-!
# Settled templates

Settling a template settles its operands one after the other. If it succeeds, every placeholder has
a meaning, and every operand is what the staged operand stood for. Where the placeholders of the
template occur once and are ready, the faults that it meets on the way are genuine; where these are
all the placeholders of the table, it fails with a genuine fault only.

* `Template.related_of_settle` : what settling a template leaves.
* `Template.Ready` : the templates that elaboration leaves to be settled.
* `Template.exists_settle` : when settling a template succeeds.
* `Template.faults_of_settle` : the faults where it fails.
-/

namespace StackTemplate

variable {kept : Prop}

/-- A settled operand holds no placeholder and is what the staged operand stands for. -/
structure Operand.SettledAs (later : Placeholders) (staged settled : Operand) : Prop where
  finished : settled.hasPending = false
  eq_of_expands : ∀ b, staged.Expands later b → b = settled

namespace Template

/-! ## What settling leaves -/

/-- How the table and the faults may go on: where there are no faults, there were none. -/
def Continues (s s' : Placeholders × List Fault) : Prop :=
  s'.2 = [] → s.2 = [] ∧ s'.1.Extends s.1 ∧ (s.1.Accounted → s'.1.Accounted)

/-- A settled operand of a template, as long as there are no faults. -/
def SettledIn (depth : Nat) (s : Placeholders × List Fault) (o settled : Operand) : Prop :=
  s.2 = [] → (∀ id, o ≠ .pending id) → ∀ later : Placeholders, later.Extends s.1 →
    later.Meaningful → Operand.Stands depth later none (.index 0) o settled

/-- What one operand leaves holds on while the others are settled. -/
theorem settledIn_law (depth : Nat) : StateLaw Continues (SettledIn depth) := by
  constructor
  · exact fun s hs => ⟨hs, .refl s.1, id⟩
  · -- No faults at the end means none in between.
    intro s₁ s₂ s₃ h h' hs
    obtain ⟨hs₂, hextends', haccounted'⟩ := h' hs
    obtain ⟨hs₁, hextends, haccounted⟩ := h hs₂
    exact ⟨hs₁, hextends'.trans hextends, fun ha => haccounted' (haccounted ha)⟩
  · intro s s' o settled h h' hs hne later hlater hmeaningful
    obtain ⟨hs₀, hextends, -⟩ := h' hs
    exact h hs₀ hne later (hlater.trans hextends) hmeaningful

/-- An operand that is settled takes the place of the staged one. -/
theorem settleOperand_ok {depth : Nat} {path : String} {o settled : Operand}
    {table after : Placeholders} (h : (o.settle depth path).run table = (.ok settled, after))
    (faults : List Fault) :
    settleOperand depth path o (table, faults) = (settled, (after, faults)) := by
  have hget : (get : StateM (Placeholders × List Fault) (Placeholders × List Fault)) (table, faults) =
      ((table, faults), (table, faults)) := rfl
  rw [settleOperand, run_bind hget]
  simp only [h]
  rfl

/-- An operand with a fault stays, and its fault is added. -/
theorem settleOperand_error {depth : Nat} {path : String} {o : Operand} {e : Fault}
    {table after : Placeholders} (h : (o.settle depth path).run table = (.error e, after))
    (faults : List Fault) :
    settleOperand depth path o (table, faults) = (o, (after, faults ++ [e])) := by
  have hget : (get : StateM (Placeholders × List Fault) (Placeholders × List Fault)) (table, faults) =
      ((table, faults), (table, faults)) := rfl
  rw [settleOperand, run_bind hget]
  simp only [h]
  rfl

/-- Settling one operand keeps the law. -/
theorem keeps_settleOperand (depth : Nat) (path : String) (o : Operand)
    (s : Placeholders × List Fault) :
    Keeps Continues (SettledIn depth) o (settleOperand depth path o) s := by
  obtain ⟨table, faults⟩ := s
  unfold Keeps
  rcases hrun : (o.settle depth path).run table with ⟨e | settled, after⟩
  · -- There is a fault from here on, so nothing more is claimed.
    rw [settleOperand_error hrun]
    exact ⟨fun hnil => absurd hnil (by simp), fun hnil => absurd hnil (by simp)⟩
  · rw [settleOperand_ok hrun]
    have hattempt := Resolution.attempt_eq_some.2 hrun
    rcases o.pending_or_ne with ⟨id, rfl⟩ | hne
    · rw [Operand.attempt_settle] at hattempt
      -- A placeholder of its own is left as it is, and is outside of the law.
      cases hattempt
      exact ⟨(settledIn_law depth).refl _, fun _ hne => absurd rfl (hne id)⟩
    · have hsettles := Operand.settles_of_settle depth hne path none (.index 0) hattempt
      exact ⟨fun hnil => ⟨hnil, hsettles.extends_before, hsettles.accounted⟩,
        fun _ _ => hsettles.stands⟩

/-- The bound of settling is above the depth of every collection in the table. -/
theorem depth_lt_settlingDepth {table : Placeholders} {p : Placeholder} (h : p ∈ table) :
    p.node.depth < settlingDepth table := by
  unfold settlingDepth
  induction table with
  | nil => cases h
  | cons q table ih =>
    rw [List.map_cons, List.foldr_cons]
    rcases List.mem_cons.1 h with rfl | h
    · omega
    · have := ih h
      omega

/-- An operand that stands for what a finished one expands to is settled as the latter. -/
theorem settledAs_of_finished {later : Placeholders} {o settled : Operand}
    (hfinished : settled.hasPending = false)
    (h : ∀ b, o.Expands later b → settled.Expands later b) : o.SettledAs later settled := by
  refine ⟨hfinished, fun b hb => ?_⟩
  have hexpand := h b hb
  rw [Operand.Expands, Operand.expand_of_hasPending hfinished] at hexpand
  exact (Option.some.inj hexpand).symm

/-- An operand whose placeholders are in the table is settled to what it stands for. -/
theorem settledAs_of_stands {table later : Placeholders} (hlater : later.Extends table)
    {o settled : Operand} (hfits : ∀ e ∈ o.occurrences none (.index 0), e.Fits table)
    (hstands : Operand.Stands (settlingDepth table) later none (.index 0) o settled) :
    o.SettledAs later settled := by
  -- Each placeholder was resolved within the bound, so none is left in the operand.
  have hfinished : settled.hasPending = false := by
    refine hstands.finished fun e he => ?_
    obtain ⟨p, hp, -, -⟩ := hfits e he
    obtain ⟨q, hq, -, -, hnode⟩ := hlater.getElem? hp
    refine ⟨q, hq, ?_⟩
    rw [hnode]
    exact depth_lt_settlingDepth (List.mem_of_getElem? hp)
  exact settledAs_of_finished hfinished hstands.expands

/-- An operand without placeholders is settled as it is. -/
theorem settledAs_self {o : Operand} (later : Placeholders)
    (hfits : ∀ e ∈ o.occurrences none (.index 0), e.Fits []) : o.SettledAs later o := by
  have hnone : o.occurrences none (.index 0) = [] := by
    refine List.eq_nil_iff_forall_not_mem.2 fun e he => ?_
    obtain ⟨p, hp, -⟩ := hfits e he
    simp at hp
  exact settledAs_of_finished (Operand.hasPending_of_occurrences hnone) fun _ hb => hb

/-- What settling a template leaves: a table in which every placeholder has a meaning, and operands
that are what those of the template stand for. -/
theorem related_of_settle {t t' : Template} {table : Placeholders} {ids : List Nat}
    (haccounted : table.Accounted)
    (hgathered : Operand.Gathered kept table ids (t.operands.map Prod.snd))
    (h : t.settle table = .ok t') :
    ∃ later : Placeholders, later.Extends table ∧ later.Meaningful ∧
      Related (Operand.SettledAs later) t t' := by
  unfold settle at h
  split at h
  · next hempty =>
    obtain rfl := List.isEmpty_iff.1 hempty
    cases h
    refine ⟨[], .refl [], fun p hp => absurd hp (by simp), ?_⟩
    have hself := (Related.refl (fun _ => rfl) t).and_left hgathered.fits
    refine hself.mono fun o settled ⟨hfits, hsame⟩ => ?_
    subst hsame
    exact settledAs_self [] hfits
  · -- The law of settling one operand is carried through the template, from no faults at all.
    have hkeeps := (settledIn_law (settlingDepth table)).mapOperands
      (fun path o s => keeps_settleOperand (settlingDepth table) path o s) t (table, [])
    rcases hrun : t.mapOperands (settleOperand (settlingDepth table)) (table, []) with
      ⟨settled, later, faults⟩
    rw [hrun] at h
    obtain ⟨hcontinues, hrelated⟩ := hkeeps
    rw [hrun] at hcontinues hrelated
    simp only at h
    split at h
    · next hnil =>
      cases h
      simp only [List.isEmpty_iff, List.append_eq_nil_iff] at hnil
      obtain ⟨hfaults, hunresolved⟩ := hnil
      obtain ⟨-, hextends, hlater⟩ := hcontinues hfaults
      -- No fault is left, so every placeholder was resolved and has a meaning.
      have hresolved : ∀ p ∈ later, p.resolved = true := by
        simpa [unresolvedFaults, List.filter_eq_nil_iff] using hunresolved
      have hmeaningful := (hlater haccounted).meaningful hresolved
      have hheld : ∀ o ∈ t.operands.map Prod.snd, (∀ id, o ≠ .pending id) ∧
          ∀ e ∈ o.occurrences none (.index 0), e.Fits table :=
        fun o ho => ⟨hgathered.plain o ho, hgathered.fits o ho⟩
      refine ⟨later, hextends, hmeaningful, (hrelated.and_left hheld).mono fun o settled ho => ?_⟩
      obtain ⟨⟨hne, hfits⟩, hsettled⟩ := ho
      exact settledAs_of_stands hextends hfits
        (hsettled hfaults hne later (.refl later) hmeaningful)
    · cases h

/-! ## What settling meets -/

/-- The numbers of the placeholders in the operands of a template. -/
def heldIds (t : Template) : List Nat := t.operands.flatMap fun e => e.2.heldIds

/-- A template whose placeholders are ready to be resolved, each of them once; where all is kept,
it holds all that wait. -/
structure Ready (kept : Prop) (table : Placeholders) (t : Template) : Prop where
  plain : ∀ e ∈ t.operands, ∀ id, e.2 ≠ .pending id
  nodup : t.heldIds.Nodup
  ready : ∀ e ∈ t.operands, ∀ occ ∈ e.2.occurrences none (.index 0),
    occ.Ready kept table (settlingDepth table)
  held : kept → ∀ id, table.Waiting id → id ∈ t.heldIds

/-- The template that elaboration leaves is ready. -/
theorem ready_of_gathered {t : Template} {table : Placeholders}
    (hrecorded : ∀ p ∈ table, p.Recorded kept)
    (hgathered : Operand.Gathered kept table (List.range table.length) (t.operands.map Prod.snd)) :
    t.Ready kept table := by
  have hheld : Remains kept t.heldIds (List.range table.length) := by
    have hremains := hgathered.remains
    rwa [List.flatMap_map] at hremains
  refine ⟨fun e he => hgathered.plain e.2 (List.mem_map.2 ⟨e, he, rfl⟩),
    hheld.nodup List.nodup_range, fun e he occ hocc => ?_, fun hk id hwaiting => ?_⟩
  · -- The placeholder was recorded for the place where it occurs.
    obtain ⟨p, hp, howner, hslot⟩ := hgathered.fits e.2 (List.mem_map.2 ⟨e, he, rfl⟩) occ hocc
    have hmem := List.mem_of_getElem? hp
    have hp' := hrecorded p hmem
    exact ⟨p, hp, hp'.waiting, howner, hslot, hp'.texts, hp'.collection,
      depth_lt_settlingDepth hmem⟩
  · obtain ⟨p, hp, -⟩ := hwaiting
    exact (hheld.perm hk).mem_iff.2 (List.mem_range.2 (List.getElem?_eq_some_iff.1 hp).1)

/-- Settling an operand adds the fault that it meets. -/
theorem settleOperand_state (depth : Nat) (path : String) (o : Operand) (table : Placeholders)
    (faults : List Fault) :
    (settleOperand depth path o (table, faults)).2 =
      (((o.settle depth path).run table).2, faults ++ (o.settle depth path).faults table) := by
  rcases hrun : (o.settle depth path).run table with ⟨e | settled, after⟩
  · rw [settleOperand_error hrun, Resolution.faults_of_error hrun]
  · rw [settleOperand_ok hrun, Resolution.faults_of_ok hrun, List.append_nil]

/-- Operands whose placeholders occur once and are ready are settled one after the other. -/
theorem outcome_settleOperands (depth : Nat) {es : List (String × Operand)}
    (hplain : ∀ e ∈ es, ∀ id, e.2 ≠ .pending id) {table : Placeholders}
    (hnodup : (es.flatMap fun e => e.2.heldIds).Nodup)
    (hready : ∀ e ∈ es, ∀ occ ∈ e.2.occurrences none (.index 0), occ.Ready kept table depth)
    (faults : List Fault) :
    ∃ after new,
      es.foldl (fun s e => (settleOperand depth e.1 e.2 s).2) (table, faults) =
          (after, faults ++ new) ∧
        Placeholders.Outcome kept table (es.flatMap fun e => e.2.heldIds) new after := by
  -- The induction is on the operands; settling one leaves a table in which the others are ready.
  induction es generalizing table faults with
  | nil => exact ⟨table, [], by rw [List.foldl_nil, List.append_nil], .refl table⟩
  | cons e es ih =>
    rw [List.flatMap_cons, List.nodup_append] at hnodup
    obtain ⟨hfirst, hrest, hdisjoint⟩ := hnodup
    have hsettling := Operand.settling_settle depth (hplain e List.mem_cons_self) e.1 none
      (.index 0) hfirst (hready e List.mem_cons_self)
    -- No placeholder occurs twice, so those of the other operands stay ready.
    have hstill : ∀ f ∈ es, ∀ occ ∈ f.2.occurrences none (.index 0),
        occ.Ready kept ((e.2.settle depth e.1).run table).2 depth := by
      intro f hf occ hocc
      refine (hready f (List.mem_cons_of_mem e hf) occ hocc).of_outcome hsettling fun hid => ?_
      have hlater : occ.id ∈ es.flatMap fun e => e.2.heldIds :=
        List.mem_flatMap.2 ⟨f, hf, List.mem_map.2 ⟨occ, hocc, rfl⟩⟩
      exact hdisjoint occ.id hid occ.id hlater rfl
    obtain ⟨after, new, hafter, houtcome⟩ :=
      ih (fun f hf => hplain f (List.mem_cons_of_mem e hf)) hrest hstill
        (faults ++ (e.2.settle depth e.1).faults table)
    refine ⟨after, _, ?_, hsettling.append houtcome⟩
    rw [List.foldl_cons, settleOperand_state, hafter, List.append_assoc]

/-- What settling the operands of a template that is ready leaves. -/
theorem Ready.outcome {t : Template} {table : Placeholders} (h : t.Ready kept table) :
    ∃ settled after faults, t.mapOperands (settleOperand (settlingDepth table)) (table, []) =
        (settled, (after, faults)) ∧ Placeholders.Outcome kept table t.heldIds faults after := by
  obtain ⟨after, faults, hafter, houtcome⟩ :=
    outcome_settleOperands (settlingDepth table) h.plain h.nodup h.ready []
  have hstate := mapOperands_state (settleOperand (settlingDepth table)) t (table, [])
  rw [hafter] at hstate
  exact ⟨(t.mapOperands (settleOperand (settlingDepth table)) (table, [])).1, after, faults,
    Prod.ext rfl hstate, houtcome⟩

/-- Nothing is left to be reported if no placeholder waits. -/
theorem unresolvedFaults_eq_nil {table : Placeholders} :
    unresolvedFaults table = [] ↔ ∀ id, ¬table.Waiting id := by
  rw [unresolvedFaults, List.map_eq_nil_iff, List.filter_eq_nil_iff]
  constructor
  · rintro h id ⟨p, hp, hwaiting⟩
    exact h p (List.mem_of_getElem? hp) (by simp [hwaiting])
  · intro h p hp hwaiting
    obtain ⟨id, hid⟩ := List.mem_iff_getElem?.1 hp
    exact h id ⟨p, hid, by simpa using hwaiting⟩

/-- Where all is kept and no fault was met, every placeholder was resolved. -/
theorem Ready.unresolvedFaults_of_outcome {t : Template} {table after : Placeholders}
    (h : t.Ready kept table) (hk : kept)
    (houtcome : Placeholders.Outcome kept table t.heldIds [] after) :
    unresolvedFaults after = [] := by
  refine unresolvedFaults_eq_nil.2 fun id hwaiting => ?_
  -- What still waits waited before, so the template held it and settling has resolved it.
  obtain ⟨hbefore, hout⟩ := ((houtcome.resolves hk rfl).waiting id).1 hwaiting
  exact hout (h.held hk id hbefore)

/-- Settling a template that is ready succeeds where every placeholder has a meaning. -/
theorem exists_settle {t : Template} {table : Placeholders} (h : t.Ready True table)
    (hmeaningful : table.Meaningful) : ∃ t', t.settle table = .ok t' := by
  obtain ⟨settled, after, faults, hrun, houtcome⟩ := h.outcome
  -- With a meaning for each placeholder no fault is met.
  obtain ⟨rfl, -⟩ := houtcome.succeeds hmeaningful
  have hresolved := h.unresolvedFaults_of_outcome trivial houtcome
  unfold settle
  split
  · exact ⟨t, rfl⟩
  · exact ⟨settled, by simp [hrun, hresolved]⟩

/-- Where settling a template that is ready fails, the faults that it meets are genuine, and the
placeholders that are left follow; where all is kept, there is a genuine fault. -/
theorem faults_of_settle {t : Template} {table : Placeholders} (h : t.Ready kept table)
    {faults : List Fault} (hsettle : t.settle table = .error faults) :
    ∃ met after, faults = met ++ unresolvedFaults after ∧
      (∀ e ∈ met, e.isBookkeeping = false) ∧ (kept → met ≠ []) := by
  obtain ⟨settled, after, met, hrun, houtcome⟩ := h.outcome
  unfold settle at hsettle
  split at hsettle
  · cases hsettle
  · rw [hrun] at hsettle
    simp only at hsettle
    split at hsettle
    · cases hsettle
    · next hsome =>
      cases hsettle
      refine ⟨met, after, rfl, houtcome.genuine, ?_⟩
      -- Without a fault on the way nothing is left, so there would be no fault at all.
      rintro hk rfl
      refine hsome ?_
      rw [h.unresolvedFaults_of_outcome hk houtcome]
      rfl

/-- A template without placeholders has nothing to settle, so those that wait are reported. -/
theorem settle_of_hasPending {t : Template} {table : Placeholders}
    (hpending : ∀ e ∈ t.operands, e.2.hasPending = false) {id : Nat} (hwaiting : table.Waiting id) :
    t.settle table = .error (unresolvedFaults table) := by
  have hnone : ∀ e ∈ t.operands, e.2.occurrences none (.index 0) = [] := fun e he =>
    Operand.occurrences_of_hasPending (hpending e he) none (.index 0)
  have hheld : t.heldIds = [] := List.flatMap_eq_nil_iff.2 fun e he => by
    rw [Operand.heldIds, Operand.ids, hnone e he, List.map_nil]
  have hready : t.Ready False table :=
    ⟨fun e he => Operand.ne_pending_of_hasPending (hpending e he), hheld ▸ List.nodup_nil,
      fun e he occ hocc => by simp [hnone e he] at hocc, False.elim⟩
  obtain ⟨settled, after, faults, hrun, houtcome⟩ := hready.outcome
  -- There is nothing to be resolved, so the table stays as it is.
  obtain ⟨rfl, rfl⟩ := houtcome.idle hheld
  have hleft : unresolvedFaults after ≠ [] := fun hnil => unresolvedFaults_eq_nil.1 hnil id hwaiting
  have hnonempty : after.isEmpty = false := by
    obtain ⟨p, hp, -⟩ := hwaiting
    exact List.isEmpty_eq_false_iff.2 (List.ne_nil_of_mem (List.mem_of_getElem? hp))
  simp [settle, hnonempty, hrun, hleft]

/-- A placeholder that is recorded but does not occur is never resolved: where a template without
placeholders is left with some in the table, settling it fails. -/
theorem settle_ne_ok {t t' : Template} {table : Placeholders}
    (hpending : ∀ e ∈ t.operands, e.2.hasPending = false) {id : Nat} (hwaiting : table.Waiting id) :
    t.settle table ≠ .ok t' := by
  rw [settle_of_hasPending hpending hwaiting]
  exact nofun

end Template

end StackTemplate
