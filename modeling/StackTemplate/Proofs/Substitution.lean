import Mathlib.Data.List.Chain
import StackTemplate.Proofs.Text.Cut
import StackTemplate.Substitution

/-!
# Reading substitution strings piece by piece

A substitution string is read from left to right, and the literal text that is read so far is
carried along until a placeholder or the end. Where all openings of a text are closed nothing else
is carried into what follows, so the text and what follows are read on their own and joined: a
literal at the end of the one and a literal at the start of the other become one literal.

* `Segment.Closed` : texts in which each opening is closed.
* `Segment.join` : segments followed by segments.
* `Segment.Compositional` : the laws of reading piece by piece.
* `Segment.parse_compositional` : reading obeys the laws, and nothing else does.
-/

namespace StackTemplate

namespace Segment

variable {s t text body rest before : List Char}

/-- A text is cut at its first opening; the dollar sign of an opening can begin no other. -/
theorem cut?_opening (h : ¬ opening <:+: text) (rest : List Char) :
    Text.cut? opening (text ++ opening ++ rest) = some (text, rest) := by
  refine Text.cut?_append (by decide) ?_
  have hdollar : opening.dropLast = ['$'] := rfl
  rw [hdollar, List.infix_concat_iff]
  -- An opening does not end with a dollar sign, and there is none inside.
  rintro (hsuffix | hinside)
  · exact absurd (hsuffix.getLast (by decide)) (by simp [opening])
  · exact h hinside

theorem not_opening_infix_nil : ¬ opening <:+: [] := by
  decide

theorem closing_infix_iff : closing <:+: body ↔ '\x7d' ∈ body :=
  List.singleton_infix_iff _ _

/-- A body ends at the first closing after it. -/
theorem cut?_closing (h : '\x7d' ∉ body) (rest : List Char) :
    Text.cut? closing (body ++ closing ++ rest) = some (body, rest) :=
  Text.cut?_append (by decide) (by simpa [closing] using mt closing_infix_iff.1 h)

theorem cut?_closing_eq_none (h : '\x7d' ∉ body) : Text.cut? closing body = none :=
  (Text.cut?_eq_none_iff (by decide)).2 (mt closing_infix_iff.1 h)

/-! ## The scan of a text -/

/-- How the scan of a text goes on: up to the first opening and the closing after it, and from there
on. -/
inductive Scan : List Char → Prop where
  /-- There is no opening. -/
  | plain {s : List Char} (h : ¬ opening <:+: s) : Scan s
  /-- There is an opening, but no closing after it. -/
  | unterminated {text rest : List Char} (htext : ¬ opening <:+: text) (hrest : '\x7d' ∉ rest) :
    Scan (text ++ opening ++ rest)
  /-- There is a body with a mark of escape. -/
  | escape {text body rest : List Char} (htext : ¬ opening <:+: text) (hbody : '\x7d' ∉ body)
    (hrest : Scan rest) : Scan (text ++ opening ++ ('!' :: body ++ closing ++ rest))
  /-- There is a body without a mark of escape. -/
  | placeholder {text body rest : List Char} (htext : ¬ opening <:+: text) (hbody : '\x7d' ∉ body)
    (hmark : body.head? ≠ some '!') (hrest : Scan rest) :
    Scan (text ++ opening ++ (body ++ closing ++ rest))

/-- Every text is scanned in one of the four ways. -/
theorem scan (s : List Char) : Scan s := by
  -- Up to the first opening, and from there up to the first closing.
  match hopen : Text.cut? opening s with
  | none => exact .plain ((Text.cut?_eq_none_iff (by decide)).1 hopen)
  | some (text, rest) =>
    have htext := Text.not_infix_of_cut? (by decide) hopen
    match hclose : Text.cut? closing rest with
    | none =>
      have hrest := mt closing_infix_iff.2 ((Text.cut?_eq_none_iff (by decide)).1 hclose)
      rw [Text.cut?_eq_some hopen]
      exact .unterminated htext hrest
    | some (body, later) =>
      have hbody := mt closing_infix_iff.2 (Text.not_infix_of_cut? (by decide) hclose)
      have hlater := scan later
      rw [Text.cut?_eq_some hopen, Text.cut?_eq_some hclose]
      -- The mark of escape is the first character of the body.
      by_cases hmark : body.head? = some '!'
      · obtain ⟨escaped, rfl⟩ := List.head?_eq_some_iff.1 hmark
        exact .escape htext (fun h => hbody (List.mem_cons_of_mem _ h)) hlater
      · exact .placeholder htext hbody hmark hlater
termination_by s.length
decreasing_by
  have hshorter := Text.length_lt_of_cut? (by decide) hopen
  have hlater := Text.length_lt_of_cut? (by decide) hclose
  omega

/-- One step of reading. -/
theorem parseFrom_eq (before s : List Char) : parseFrom before s =
    match Text.cut? opening s with
    | none => ofLiteral (before ++ s)
    | some (text, rest) =>
      match Text.cut? closing rest with
      | none => ofLiteral (before ++ s)
      | some ('!' :: escaped, rest) =>
        parseFrom (before ++ text ++ opening ++ escaped ++ closing) rest
      | some (body, rest) =>
        ofLiteral (before ++ text) ++ .placeholder (Text.trimChars body) :: parseFrom [] rest := by
  rw [parseFrom]
  split
  · next h => rw [h]
  · next h =>
    rw [h]
    split <;> next h => simp only [h]

/-- Text without an opening is read as it is. -/
theorem parseFrom_plain (h : ¬ opening <:+: s) (before : List Char) :
    parseFrom before s = ofLiteral (before ++ s) := by
  rw [parseFrom_eq, (Text.cut?_eq_none_iff (by decide)).2 h]

/-- An opening without a closing is read as text. -/
theorem parseFrom_unterminated (htext : ¬ opening <:+: text) (hrest : '\x7d' ∉ rest)
    (before : List Char) :
    parseFrom before (text ++ opening ++ rest) = ofLiteral (before ++ (text ++ opening ++ rest)) := by
  rw [parseFrom_eq, cut?_opening htext]
  simp only [cut?_closing_eq_none hrest]

/-- An escaped body is carried on as text, without its mark. -/
theorem parseFrom_escape (htext : ¬ opening <:+: text) (hbody : '\x7d' ∉ body)
    (before rest : List Char) :
    parseFrom before (text ++ opening ++ ('!' :: body ++ closing ++ rest)) =
      parseFrom (before ++ text ++ opening ++ body ++ closing) rest := by
  have hclosing : Text.cut? closing ('!' :: body ++ closing ++ rest) = some ('!' :: body, rest) :=
    cut?_closing (by simp [hbody]) rest
  rw [parseFrom_eq, cut?_opening htext]
  simp only [hclosing]

/-- A body without a mark ends the literal text in front of it; nothing is carried behind it. -/
theorem parseFrom_placeholder (htext : ¬ opening <:+: text) (hbody : '\x7d' ∉ body)
    (hmark : body.head? ≠ some '!') (before rest : List Char) :
    parseFrom before (text ++ opening ++ (body ++ closing ++ rest)) =
      ofLiteral (before ++ text) ++ .placeholder (Text.trimChars body) :: parseFrom [] rest := by
  rw [parseFrom_eq, cut?_opening htext]
  simp only [cut?_closing hbody]
  split
  · next h => cases h
  · next h =>
    cases h
    exact absurd rfl hmark
  · next h =>
    cases h
    rfl

/-! ## Joined segments -/

/-- Whether a segment is a literal text. -/
def IsLiteral (p : Segment) : Prop := ∃ text, p = .literal text

/-- No placeholder is a literal text. -/
theorem not_isLiteral_placeholder (body : List Char) : ¬ (placeholder body).IsLiteral := by
  rintro ⟨text, h⟩
  unfold placeholder at h
  split at h
  · split at h <;> cases h
  · cases h

/-- A segment in front of segments; literal texts become one. -/
def joinFirst : Segment → List Segment → List Segment
  | .literal x, .literal y :: ys => .literal (x ++ y) :: ys
  | x, ys => x :: ys

/-- Segments followed by segments. A literal at the end of the first and a literal at the start of
the second become one. -/
def join : List Segment → List Segment → List Segment
  | [], ys => ys
  | [x], ys => joinFirst x ys
  | x :: x' :: xs, ys => x :: join (x' :: xs) ys

section Join

variable {p : Segment} {xs ys zs : List Segment}

theorem joinFirst_of_not_isLiteral (h : ¬ p.IsLiteral) (ys : List Segment) :
    joinFirst p ys = p :: ys := by
  unfold joinFirst
  split
  · exact absurd ⟨_, rfl⟩ h
  · rfl

/-- Nothing is joined to a segment that is no literal text. -/
theorem joinFirst_cons (h : ¬ p.IsLiteral) (x : Segment) (ys : List Segment) :
    joinFirst x (p :: ys) = x :: p :: ys := by
  unfold joinFirst
  split
  · next heq =>
    cases heq
    exact absurd ⟨_, rfl⟩ h
  · rfl

/-- A segment that is no literal text stays in front. -/
theorem join_cons_left (h : ¬ p.IsLiteral) (xs ys : List Segment) :
    join (p :: xs) ys = p :: join xs ys := by
  cases xs with
  | nil => exact joinFirst_of_not_isLiteral h ys
  | cons x xs => rfl

theorem joinFirst_ne_nil (p : Segment) (ys : List Segment) : joinFirst p ys ≠ [] := by
  unfold joinFirst
  split <;> exact List.cons_ne_nil _ _

/-- Segments in front of the last one are not touched. -/
theorem join_cons_of_ne_nil (p : Segment) (h : xs ≠ []) (ys : List Segment) :
    join (p :: xs) ys = p :: join xs ys := by
  cases xs with
  | nil => exact absurd rfl h
  | cons x xs => rfl

theorem join_ne_nil (h : xs ≠ []) (ys : List Segment) : join xs ys ≠ [] := by
  cases xs with
  | nil => exact absurd rfl h
  | cons x xs =>
    cases xs with
    | nil => exact joinFirst_ne_nil x ys
    | cons x' xs => exact List.cons_ne_nil _ _

theorem join_nil (xs : List Segment) : join xs [] = xs := by
  induction xs with
  | nil => rfl
  | cons x xs ih =>
    by_cases hlast : xs = []
    · subst hlast
      cases x <;> rfl
    · rw [join_cons_of_ne_nil x hlast, ih]

/-- Joining at the front and joining at the end do not get in each other's way. -/
theorem join_joinFirst (x : Segment) (ys zs : List Segment) :
    join (joinFirst x ys) zs = joinFirst x (join ys zs) := by
  by_cases hx : x.IsLiteral
  · obtain ⟨a, rfl⟩ := hx
    cases ys with
    | nil => rfl
    | cons y ys =>
      by_cases hy : y.IsLiteral
      · -- The two literals are one, which the third list may begin with a literal for.
        obtain ⟨b, rfl⟩ := hy
        cases ys with
        | nil =>
          cases zs with
          | nil => rfl
          | cons z zs => cases z <;> simp [join, joinFirst, String.append_assoc]
        | cons y' ys => rfl
      · -- The second segment is no literal text and keeps the lists apart.
        rw [joinFirst_cons hy, join_cons_left hy, joinFirst_cons hy,
          join_cons_of_ne_nil _ (List.cons_ne_nil y ys), join_cons_left hy]
  · rw [joinFirst_of_not_isLiteral hx, joinFirst_of_not_isLiteral hx, join_cons_left hx]

/-- Joining is associative: three literal texts in a row become one either way. -/
theorem join_assoc (xs ys zs : List Segment) : join (join xs ys) zs = join xs (join ys zs) := by
  induction xs with
  | nil => rfl
  | cons x xs ih =>
    by_cases hlast : xs = []
    · subst hlast
      exact join_joinFirst x ys zs
    · rw [join_cons_of_ne_nil x hlast, join_cons_of_ne_nil x hlast,
        join_cons_of_ne_nil x (join_ne_nil hlast ys), ih]

/-- Literal texts that are joined are the literal text of both. -/
theorem join_ofLiteral (a b : List Char) :
    join (ofLiteral a) (ofLiteral b) = ofLiteral (a ++ b) := by
  cases a with
  | nil => rfl
  | cons c a =>
    cases b with
    | nil => simp [ofLiteral, join_nil]
    | cons d b =>
      change [literal (String.ofList (c :: a) ++ String.ofList (d :: b))] = _
      rw [← String.ofList_append]
      rfl

/-- A segment that is no literal text follows as it is. -/
theorem join_cons (h : ¬ p.IsLiteral) (xs ys : List Segment) :
    join xs (p :: ys) = xs ++ p :: ys := by
  induction xs with
  | nil => rfl
  | cons x xs ih =>
    by_cases hlast : xs = []
    · subst hlast
      exact joinFirst_cons h x ys
    · rw [join_cons_of_ne_nil x hlast, ih]
      rfl

/-- Behind a segment that is no literal text, segments follow as they are. -/
theorem join_concat (h : ¬ p.IsLiteral) (xs ys : List Segment) :
    join (xs ++ [p]) ys = xs ++ p :: ys := by
  rw [← join_cons h xs [], join_assoc, join_cons_left h, join_cons h]
  rfl

end Join

/-! ## Texts whose openings are closed -/

/-- The literal text in front is joined to what follows. -/
theorem parseFrom_eq_join (before s : List Char) :
    parseFrom before s = join (ofLiteral before) (parseFrom [] s) := by
  induction scan s generalizing before with
  | plain h => rw [parseFrom_plain h, parseFrom_plain h, join_ofLiteral, List.nil_append]
  | unterminated htext hrest =>
    rw [parseFrom_unterminated htext hrest, parseFrom_unterminated htext hrest, join_ofLiteral,
      List.nil_append]
  -- The escaped body is carried into the rest, on both sides.
  | escape htext hbody hrest ih =>
    rw [parseFrom_escape htext hbody, parseFrom_escape htext hbody, ih, ih ([] ++ _ ++ _ ++ _ ++ _),
      ← join_assoc, join_ofLiteral]
    simp only [List.nil_append, List.append_assoc]
  -- The placeholder keeps what is carried away from the rest.
  | placeholder htext hbody hmark hrest ih =>
    have hplaceholder := not_isLiteral_placeholder
    rw [parseFrom_placeholder htext hbody hmark, parseFrom_placeholder htext hbody hmark,
      ← join_cons (hplaceholder _), ← join_cons (hplaceholder _), ← join_assoc, join_ofLiteral,
      List.nil_append]

/-- The texts in which each opening that is found from left to right is closed. -/
inductive Closed : List Char → Prop where
  /-- There is no opening. -/
  | plain {s : List Char} (h : ¬ opening <:+: s) : Closed s
  /-- The first opening is closed, and so are those after its closing. -/
  | braced {text body rest : List Char} (htext : ¬ opening <:+: text) (hbody : '\x7d' ∉ body)
    (hrest : Closed rest) : Closed (text ++ opening ++ (body ++ closing ++ rest))

/-- What is read of a closed part does not depend on what follows. -/
theorem exists_parseFrom_braced (htext : ¬ opening <:+: text) (hbody : '\x7d' ∉ body) :
    ∃ segments, ∀ rest, parseFrom [] (text ++ opening ++ (body ++ closing ++ rest)) =
      join segments (parseFrom [] rest) := by
  -- The body is literal text or a placeholder, whatever follows.
  by_cases hmark : body.head? = some '!'
  · obtain ⟨escaped, rfl⟩ := List.head?_eq_some_iff.1 hmark
    refine ⟨ofLiteral ([] ++ text ++ opening ++ escaped ++ closing), fun rest => ?_⟩
    rw [parseFrom_escape htext (fun h => hbody (List.mem_cons_of_mem _ h)), parseFrom_eq_join]
  · refine ⟨ofLiteral text ++ [.placeholder (Text.trimChars body)], fun rest => ?_⟩
    rw [parseFrom_placeholder htext hbody hmark, join_concat (not_isLiteral_placeholder _)]
    rfl

/-- Two texts without an opening have none together, unless the first ends with a dollar sign and
the second starts with a brace. -/
theorem not_opening_infix_append (hs : ¬ opening <:+: s) (ht : ¬ opening <:+: t)
    (hbetween : ¬ (s.getLast? = some '$' ∧ t.head? = some '\x7b')) : ¬ opening <:+: s ++ t := by
  rw [List.infix_append_iff]
  -- An opening in the first text, in the second, or across both.
  rintro (hinside | hinside | ⟨front, back, hopening, hsuffix, hbegin⟩)
  · exact hs hinside
  · exact ht hinside
  · rcases List.cons_eq_append_iff.1 hopening with ⟨rfl, rfl⟩ | ⟨front, rfl, hbrace⟩
    · exact ht hbegin.isInfix
    rcases List.cons_eq_append_iff.1 hbrace with ⟨rfl, rfl⟩ | ⟨front, rfl, hnil⟩
    · -- The opening is divided.
      obtain ⟨s', rfl⟩ := hsuffix
      obtain ⟨t', rfl⟩ := hbegin
      exact hbetween ⟨by simp, by simp⟩
    · obtain ⟨rfl, rfl⟩ := List.nil_eq_append_iff.1 hnil
      exact hs hsuffix.isInfix

/-- A text without an opening is carried into what follows, if no opening arises in between. -/
theorem parseFrom_carry (hs : ¬ opening <:+: s)
    (hbetween : ¬ (s.getLast? = some '$' ∧ t.head? = some '\x7b')) (before : List Char) :
    parseFrom before (s ++ t) = parseFrom (before ++ s) t := by
  -- However the second text goes on, its text in front of the first opening starts earlier now.
  cases scan t with
  | plain ht =>
    rw [parseFrom_plain (not_opening_infix_append hs ht hbetween), parseFrom_plain ht,
      List.append_assoc]
  | @unterminated text rest htext hrest =>
    have hfront := not_opening_infix_append hs htext fun h => hbetween ⟨h.1, by simp [h.2]⟩
    rw [parseFrom_unterminated htext hrest]
    simpa only [List.append_assoc] using parseFrom_unterminated hfront hrest before
  | @escape text body rest htext hbody hrest =>
    have hfront := not_opening_infix_append hs htext fun h => hbetween ⟨h.1, by simp [h.2]⟩
    rw [parseFrom_escape htext hbody]
    simpa only [List.append_assoc] using parseFrom_escape hfront hbody before rest
  | @placeholder text body rest htext hbody hmark hrest =>
    have hfront := not_opening_infix_append hs htext fun h => hbetween ⟨h.1, by simp [h.2]⟩
    rw [parseFrom_placeholder htext hbody hmark]
    simpa only [List.append_assoc] using parseFrom_placeholder hfront hbody hmark before rest

/-- A closed text and a text behind it are read on their own and joined, if no opening arises in
between. -/
theorem parseFrom_append (hs : Closed s)
    (hbetween : ¬ (s.getLast? = some '$' ∧ t.head? = some '\x7b')) :
    parseFrom [] (s ++ t) = join (parseFrom [] s) (parseFrom [] t) := by
  induction hs with
  | plain h =>
    rw [parseFrom_carry h hbetween, parseFrom_eq_join, parseFrom_plain h]
  -- What the braced part gives stands in front; the rest is shorter.
  | @braced text body rest htext hbody hrest ih =>
    obtain ⟨segments, hsegments⟩ := exists_parseFrom_braced htext hbody
    have hlater : ¬ (rest.getLast? = some '$' ∧ t.head? = some '\x7b') := by
      rintro ⟨hlast, hhead⟩
      refine hbetween ⟨?_, hhead⟩
      simp [hlast]
    have hassoc : text ++ opening ++ (body ++ closing ++ rest) ++ t =
        text ++ opening ++ (body ++ closing ++ (rest ++ t)) := by simp only [List.append_assoc]
    rw [hassoc, hsegments, ih hlater, ← join_assoc, ← hsegments]

/-! ## Laws of reading -/

/-- The laws of reading substitution strings piece by piece. -/
structure Compositional (f : String → List Segment) : Prop where
  /-- Texts whose openings are closed are read on their own, if no opening arises at their end. -/
  append : ∀ s t : String, Closed s.toList →
    ¬ (s.toList.getLast? = some '$' ∧ t.toList.head? = some '\x7b') → f (s ++ t) = join (f s) (f t)
  /-- A text without an opening is one literal text, unless it is empty. -/
  plain : ∀ s : String, ¬ opening <:+: s.toList → f s = if s = "" then [] else [.literal s]
  /-- A body with a mark of escape is literal text without the mark. -/
  escape : ∀ body : List Char, '\x7d' ∉ body →
    f (String.ofList (opening ++ '!' :: body ++ closing)) =
      [.literal (String.ofList (opening ++ body ++ closing))]
  /-- A body without a mark of escape is a placeholder; blanks around it do not count. -/
  placeholder : ∀ body : List Char, '\x7d' ∉ body → body.head? ≠ some '!' →
    f (String.ofList (opening ++ body ++ closing)) = [.placeholder (Text.trimChars body)]
  /-- An opening without a closing is literal text. -/
  unterminated : ∀ rest : List Char, '\x7d' ∉ rest →
    f (String.ofList (opening ++ rest)) = [.literal (String.ofList (opening ++ rest))]

namespace Compositional

variable {f g : String → List Segment}

/-- By the laws, text without an opening is read on its own in front of one. -/
theorem cut_text (hf : Compositional f) (htext : ¬ opening <:+: text) (rest : List Char) :
    f (String.ofList (text ++ opening ++ rest)) =
      join (f (String.ofList text)) (f (String.ofList (opening ++ rest))) := by
  rw [List.append_assoc, String.ofList_append]
  refine hf.append _ _ (.plain (by rwa [String.toList_ofList])) ?_
  simp [opening]

/-- By the laws, a closed body is read on its own. -/
theorem cut_braced (hf : Compositional f) (hbody : '\x7d' ∉ body) (rest : List Char) :
    f (String.ofList (opening ++ (body ++ closing ++ rest))) =
      join (f (String.ofList (opening ++ body ++ closing))) (f (String.ofList rest)) := by
  have hclosed : Closed (opening ++ body ++ closing) := by
    simpa using Closed.braced not_opening_infix_nil hbody (.plain not_opening_infix_nil)
  have hcut : opening ++ (body ++ closing ++ rest) = opening ++ body ++ closing ++ rest := by
    simp only [List.append_assoc]
  rw [hcut, String.ofList_append]
  refine hf.append _ _ (by rwa [String.toList_ofList]) ?_
  simp [closing]

/-- The laws determine what is read. -/
theorem unique (hf : Compositional f) (hg : Compositional g) : f = g := by
  have hplain {text : List Char} (h : ¬ opening <:+: text) :
      f (String.ofList text) = g (String.ofList text) := by
    rw [hf.plain _ (by rwa [String.toList_ofList]), hg.plain _ (by rwa [String.toList_ofList])]
  -- The laws cut a text where the scan does, so they leave no choice.
  have hchars (cs : List Char) : f (String.ofList cs) = g (String.ofList cs) := by
    induction scan cs with
    | plain h => exact hplain h
    | unterminated htext hrest =>
      rw [hf.cut_text htext, hg.cut_text htext, hplain htext, hf.unterminated _ hrest,
        hg.unterminated _ hrest]
    | escape htext hbody hrest ih =>
      have hmarked := List.not_mem_cons_of_ne_of_not_mem (by decide : '\x7d' ≠ '!') hbody
      rw [hf.cut_text htext, hg.cut_text htext, hplain htext, hf.cut_braced hmarked,
        hg.cut_braced hmarked, hf.escape _ hbody, hg.escape _ hbody, ih]
    | placeholder htext hbody hmark hrest ih =>
      rw [hf.cut_text htext, hg.cut_text htext, hplain htext, hf.cut_braced hbody,
        hg.cut_braced hbody, hf.placeholder _ hbody hmark, hg.placeholder _ hbody hmark, ih]
  funext s
  simpa only [String.ofList_toList] using hchars s.toList

end Compositional

theorem ofLiteral_of_ne_nil {cs : List Char} (h : cs ≠ []) :
    ofLiteral cs = [.literal (String.ofList cs)] := by
  cases cs with
  | nil => exact absurd rfl h
  | cons c cs => rfl

/-- The empty text has no segment. -/
theorem ofLiteral_toList (s : String) :
    ofLiteral s.toList = if s = "" then [] else [.literal s] := by
  split
  · next h => rw [h]; rfl
  · next h =>
    rw [ofLiteral_of_ne_nil (mt String.toList_eq_nil_iff.1 h), String.ofList_toList]

theorem parse_ofList (cs : List Char) : parse (String.ofList cs) = parseFrom [] cs := by
  rw [parse, String.toList_ofList]

theorem parseFrom_nil (before : List Char) : parseFrom before [] = ofLiteral before := by
  rw [parseFrom_plain not_opening_infix_nil, List.append_nil]

/-- Reading obeys the laws. -/
theorem compositional_parse : Compositional parse where
  append s t hclosed hbetween := by
    simpa only [parse, String.toList_append] using parseFrom_append hclosed hbetween
  plain s h := by rw [parse, parseFrom_plain h, List.nil_append, ofLiteral_toList]
  escape body hbody := by
    have h := parseFrom_escape not_opening_infix_nil hbody [] []
    rw [parseFrom_nil, ofLiteral_of_ne_nil (by simp [opening])] at h
    simpa only [parse_ofList, List.nil_append, List.append_nil, List.append_assoc] using h
  placeholder body hbody hmark := by
    have h := parseFrom_placeholder not_opening_infix_nil hbody hmark [] []
    rw [parse_ofList]
    simpa [parseFrom_nil, ofLiteral] using h
  unterminated rest hrest := by
    have h := parseFrom_unterminated not_opening_infix_nil hrest []
    rw [ofLiteral_of_ne_nil (by simp [opening])] at h
    simpa only [parse_ofList, List.nil_append] using h

/-! ## What is read -/

/-- Literal texts are not empty and do not follow each other. -/
structure Normal (segments : List Segment) : Prop where
  /-- No literal text is empty. -/
  nonempty : .literal "" ∉ segments
  /-- Of two segments that follow each other at most one is a literal text. -/
  apart : segments.IsChain fun p q => ¬ (p.IsLiteral ∧ q.IsLiteral)

/-- A literal text on its own is normal. -/
theorem normal_ofLiteral (cs : List Char) : Normal (ofLiteral cs) := by
  by_cases h : cs = []
  · subst h
    exact ⟨by simp [ofLiteral], .nil⟩
  · rw [ofLiteral_of_ne_nil h]
    refine ⟨fun hempty => h ?_, .singleton _⟩
    have htext := Segment.literal.inj (List.mem_singleton.1 hempty)
    exact String.ofList_eq_empty_iff.1 htext.symm

/-- A segment that is no literal text keeps those in front of it from those behind it. -/
theorem Normal.append_cons {p : Segment} {xs ys : List Segment} (hxs : Normal xs)
    (h : ¬ p.IsLiteral) (hys : Normal ys) : Normal (xs ++ p :: ys) where
  nonempty hempty := by
    rcases List.mem_append.1 hempty with hempty | hempty
    · exact hxs.nonempty hempty
    · rcases List.mem_cons.1 hempty with rfl | hempty
      · exact h ⟨_, rfl⟩
      · exact hys.nonempty hempty
  apart := by
    -- The segment itself stands at the seam, and it is no literal text.
    refine List.isChain_append.2 ⟨hxs.apart, ?_, ?_⟩
    · exact List.isChain_cons.2 ⟨fun _ _ hboth => h hboth.1, hys.apart⟩
    · rintro _ - _ hhead ⟨-, hliteral⟩
      cases hhead
      exact h hliteral

/-- What is read is normal, whatever is carried along. -/
theorem normal_parseFrom (before s : List Char) : Normal (parseFrom before s) := by
  induction scan s generalizing before with
  | plain h =>
    rw [parseFrom_plain h]
    exact normal_ofLiteral _
  | unterminated htext hrest =>
    rw [parseFrom_unterminated htext hrest]
    exact normal_ofLiteral _
  -- Nothing is emitted here, so the rest decides.
  | escape htext hbody hrest ih =>
    rw [parseFrom_escape htext hbody]
    exact ih _
  | placeholder htext hbody hmark hrest ih =>
    rw [parseFrom_placeholder htext hbody hmark]
    exact (normal_ofLiteral _).append_cons (not_isLiteral_placeholder _) (ih [])

/-- Reading substitution strings obeys the laws of reading piece by piece, nothing else does, and
what is read has no empty literal texts and none that follow each other. -/
theorem parse_compositional :
    (∀ f : String → List Segment, Compositional f ↔ f = parse) ∧ ∀ s, Normal (parse s) :=
  ⟨fun _ => ⟨fun hf => hf.unique compositional_parse, fun h => h ▸ compositional_parse⟩,
    fun s => normal_parseFrom [] s.toList⟩

end Segment

end StackTemplate
