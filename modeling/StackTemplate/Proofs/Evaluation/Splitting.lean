import StackTemplate.Proofs.Evaluation.Calls
import StackTemplate.Proofs.Evaluation.Recalling
import StackTemplate.Proofs.Text.Cut

/-!
# Splitting and joining

From every state of an evaluator an answer is one evaluation without a state. So an operand that is
evaluated twice in one expression has the same value both times, whatever the evaluation of others
leaves in the memo, and splitting and joining are inverse as they are on texts.

* `Operand.answer_split`, `Operand.answer_join` : what the two functions give without a state.
* `Evaluator.HasText` : an operand is evaluated to a scalar with a text.
* `Evaluator.split_join` : splitting and joining are inverse.
-/

namespace StackTemplate

/-! ## Splitting and joining without a memo -/

namespace Operand

variable {s : Scope} {decide : String → Eval Unit Bool} {d o : Operand} {v w : Value}
  {delimiter source : String}

/-- A value with a text is read as the text. -/
theorem answer_evaluateText {function : Intrinsic} {x : Eval Unit Value} {text : String}
    (hx : x.answer () = (.ok v, ())) (htext : v.text? = some text) :
    (evaluateText function x).answer () = (.ok text, ()) := by
  rw [evaluateText, Eval.answer_bind, hx]
  simp [Value.expectText, htext]

/-- A text is split at a delimiter, both being the texts of their operands. -/
theorem answer_split (hd : (d.evaluate s decide).answer () = (.ok v, ()))
    (hdelimiter : v.text? = some delimiter) (ho : (o.evaluate s decide).answer () = (.ok w, ()))
    (hsource : w.text? = some source) :
    ((call (.split d o)).evaluate s decide).answer () =
      (.ok (.list ((Text.split delimiter source).map .string)), ()) := by
  rw [evaluate_call, Call.map, Call.evaluate,
    Eval.answer_bind_of_ok (answer_evaluateText hd hdelimiter),
    Eval.answer_bind_of_ok (answer_evaluateText ho hsource), Eval.answer_pure]

/-- Strings are joined as the texts that they are. -/
theorem joinTexts_map_string (texts : List String) :
    Value.joinTexts (texts.map .string) = .ok texts := by
  induction texts with
  | nil => rfl
  | cons text texts ih =>
    rw [List.map_cons, Value.joinTexts, ih]
    rfl

/-- Texts are joined with a delimiter between them. -/
theorem answer_join {texts : List String} (hd : (d.evaluate s decide).answer () = (.ok v, ()))
    (hdelimiter : v.text? = some delimiter)
    (ho : (o.evaluate s decide).answer () = (.ok (.list (texts.map .string)), ())) :
    ((call (.join d o)).evaluate s decide).answer () =
      (.ok (.string (String.intercalate delimiter texts)), ()) := by
  have hitems : (Eval.ofExcept (Value.expectList .join (.list (texts.map .string)))).answer () =
      (.ok (texts.map .string), ()) := rfl
  have htexts : (Eval.ofExcept (Value.joinTexts (texts.map .string))).answer () =
      (.ok texts, ()) := by
    rw [Eval.answer_ofExcept, joinTexts_map_string]
  rw [evaluate_call, Call.map, Call.evaluate,
    Eval.answer_bind_of_ok (answer_evaluateText hd hdelimiter), Eval.answer_bind_of_ok ho,
    Eval.answer_bind_of_ok hitems, Eval.answer_bind_of_ok htexts, Eval.answer_pure]

end Operand

/-! ## Splitting and joining -/

namespace Evaluator

variable {s : Scope} {e : Evaluator}

/-- An operand has a value in a state of an evaluator. -/
def HasValue (s : Scope) (e : Evaluator) (o : Operand) (v : Value) : Prop :=
  (ask s e (.operand o)).1 = .value (.ok v)

/-- An operand is evaluated to a scalar with a text. -/
def HasText (s : Scope) (e : Evaluator) (o : Operand) (text : String) : Prop :=
  ∃ v, HasValue s e o v ∧ v.text? = some text

/-- A value that an operand has is found without a state. -/
theorem hasValue_iff {o : Operand} {v : Value} : HasValue s e o v ↔
    (o.evaluate (s.recalling e.memo) ((s.recalling e.memo).decideAfresh
      (Scope.unremembered e.memo e.inProgress))).answer () = (.ok v, ()) := by
  rw [HasValue, ask_eq_recalling, Answer.value.injEq, Prod.ext_iff]
  simp

/-- In every state of an evaluator, a text is split into parts that do not have the delimiter, and
joining the parts gives the text. Joined texts that do not have a delimiter of one character are
found again. -/
theorem split_join (s : Scope) (e : Evaluator) (d : Operand) :
    (∀ o delimiter source, HasText s e d delimiter → HasText s e o source →
      (∃ parts, HasValue s e (.call (.split d o)) (.list (parts.map .string)) ∧ parts ≠ [] ∧
        (delimiter ≠ "" → ∀ part ∈ parts, ¬ delimiter.toList <:+: part.toList)) ∧
      HasValue s e (.call (.join d (.call (.split d o)))) (.string source)) ∧
    ∀ o c texts, HasText s e d (String.singleton c) →
      HasValue s e o (.list (texts.map .string)) → texts ≠ [] → (∀ t ∈ texts, c ∉ t.toList) →
      HasValue s e (.call (.split d (.call (.join d o)))) (.list (texts.map .string)) := by
  constructor
  · -- Both operands are evaluated on their own, so neither is changed by the other.
    intro o delimiter source hdelimiter hsource
    rcases hdelimiter with ⟨v, hv, hdelimiter⟩
    rcases hsource with ⟨w, hw, hsource⟩
    have hd := hasValue_iff.1 hv
    have ho := hasValue_iff.1 hw
    have hsplit := Operand.answer_split hd hdelimiter ho hsource
    constructor
    · refine ⟨_, hasValue_iff.2 hsplit, Text.split_ne_nil delimiter source, ?_⟩
      intro hne part
      exact Text.not_infix_of_mem_split hne
    · have hjoin := Operand.answer_join hd hdelimiter hsplit
      rw [Text.intercalate_split] at hjoin
      exact hasValue_iff.2 hjoin
  · intro o c texts hdelimiter hlist htexts hapart
    rcases hdelimiter with ⟨v, hv, hdelimiter⟩
    have hd := hasValue_iff.1 hv
    have hjoin := Operand.answer_join hd hdelimiter (hasValue_iff.1 hlist)
    have hsource : (Value.string (String.intercalate (String.singleton c) texts)).text? =
        some (String.intercalate (String.singleton c) texts) := rfl
    have hsplit := Operand.answer_split hd hdelimiter hjoin hsource
    -- The parts are as many as there were, since none has the delimiter in it.
    rw [Text.split_intercalate htexts hapart] at hsplit
    exact hasValue_iff.2 hsplit

/-- A template with a condition on the width of a delimiter. -/
def dashed : Scope :=
  ⟨{ Template.empty with conditions := ⟨[("Wide", .scalar (.bool true))], by decide⟩ }, default⟩

/-- An evaluator that remembers another truth value than the template declares. -/
def narrowed : Evaluator := ⟨[("Wide", false)], []⟩

/-- A delimiter of two characters or of one. -/
def dashes : Operand := .call (.ifElse "Wide" (.string "--") (.string "-"))

/-- The delimiter depends on what the evaluator remembers, and is the same one in both places. -/
theorem narrowed_split_join : HasText dashed narrowed dashes "-" ∧
    HasText dashed narrowed (.string "-a--b") "-a--b" ∧
    HasValue dashed narrowed (.call (.join dashes (.call (.split dashes (.string "-a--b")))))
      (.string "-a--b") ∧
    HasValue dashed narrowed
      (.call (.split dashes (.call (.join dashes (.list [.string "a", .string "", .string "b"])))))
      (.list [.string "a", .string "", .string "b"]) := by
  have hwide : (condition dashed "Wide").answer narrowed = (.ok false, narrowed) := by
    have hremembered : (dashed.decideCondition [] "Wide").answer [("Wide", false)] =
        (.ok false, [("Wide", false)]) := Scope.decideCondition_remembered rfl
    have hlockstep := condition_lockstep (s := dashed) [] "Wide" [("Wide", false)]
    rw [hremembered] at hlockstep
    exact hlockstep
  have hdelimiter : HasText dashed narrowed dashes "-" := by
    refine ⟨.string "-", ?_, rfl⟩
    rw [HasValue, ask, dashes, Operand.evaluate_call, Call.map, Call.evaluate,
      Eval.answer_bind_of_ok hwide]
    rfl
  have hsource : HasText dashed narrowed (.string "-a--b") "-a--b" := ⟨.string "-a--b", rfl, rfl⟩
  have hlist : HasValue dashed narrowed (.list [.string "a", .string "", .string "b"])
      (.list (["a", "", "b"].map .string)) := rfl
  have hinverse := split_join dashed narrowed dashes
  refine ⟨hdelimiter, hsource, (hinverse.1 _ _ _ hdelimiter hsource).2, ?_⟩
  exact hinverse.2 _ '-' ["a", "", "b"] hdelimiter hlist (by decide) (by decide)

end Evaluator

end StackTemplate
