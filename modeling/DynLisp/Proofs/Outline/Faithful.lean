import DynLisp.Proofs.Outline
import DynLisp.Proofs.Outline.Lines
import DynLisp.Proofs.Session.Invariant

/-!
# Trees can be told from what is shown of them

The outline of a tree says everything about it.  A node shows the label of its form and a header
with what the form holds besides other trees, and the outlines of those stand below it
(`Expr.outline_eq`).  Label, header and the trees below make up the tree
(`Expr.eq_of_shownBelow`): the label decides the form, the cases of a conditional are the trees
below it two by two, and names can be told apart in a header because no name holds a quote.

As the text of an outline belongs to no other one, different trees are shown differently, at any
depth, `Expr.display_faithful`.
-/

namespace DynLisp

/-! ## Numbers -/

namespace Decimal

theorem digits_inj {m n : Nat} (h : digits m = digits n) : m = n := by
  rw [← read_digits m, h, read_digits]

theorem toList_write_ofNat (n : Nat) : (write (.ofNat n)).toList = digits n :=
  String.toList_ofList

theorem toList_write_negSucc (n : Nat) : (write (.negSucc n)).toList = '-' :: digits (n + 1) :=
  String.toList_ofList

/-- Only a negative number is written with a sign. -/
theorem write_inj {m n : Int} (h : write m = write n) : m = n := by
  have hsign : ∀ k cs, digits k ≠ '-' :: cs := fun k cs hk =>
    absurd (isDigit_of_mem_digits (hk ▸ List.mem_cons_self)) (by decide)
  have hlists := congrArg String.toList h
  cases m with
  | ofNat m =>
    rw [toList_write_ofNat] at hlists
    cases n with
    | ofNat n => rw [digits_inj (hlists.trans (toList_write_ofNat n))]
    | negSucc n => exact absurd (hlists.trans (toList_write_negSucc n)) (hsign _ _)
  | negSucc m =>
    rw [toList_write_negSucc] at hlists
    cases n with
    | ofNat n => exact absurd (hlists.trans (toList_write_ofNat n)).symm (hsign _ _)
    | negSucc n =>
      have hdigits := (List.cons.inj (hlists.trans (toList_write_negSucc n))).2
      rw [Nat.succ.inj (digits_inj hdigits)]

theorem newline_not_mem_write (n : Int) : '\n' ∉ (write n).toList := by
  have hdigits : ∀ k, '\n' ∉ digits k := fun k h =>
    absurd (isDigit_of_mem_digits h) (by decide)
  cases n with
  | ofNat n =>
    rw [toList_write_ofNat]
    exact hdigits n
  | negSucc n =>
    rw [toList_write_negSucc, List.mem_cons, not_or]
    exact ⟨by decide, hdigits _⟩

end Decimal

/-! ## Operators -/

theorem ArithOp.symbol_inj {op op' : ArithOp} (h : op.symbol = op'.symbol) : op = op' := by
  cases op <;> cases op' <;> first | rfl | exact absurd h (by decide)

theorem LogicOp.symbol_inj {op op' : LogicOp} (h : op.symbol = op'.symbol) : op = op' := by
  cases op <;> cases op' <;> first | rfl | exact absurd h (by decide)

theorem CompareOp.symbol_inj {op op' : CompareOp} (h : op.symbol = op'.symbol) : op = op' := by
  cases op <;> cases op' <;> first | rfl | exact absurd h (by decide)

/-! ## Names -/

theorem IsName.isWordChar_of_mem {x : String} (h : IsName x) :
    ∀ c ∈ x.toList, isWordChar c = true := by
  obtain ⟨⟨c, cs, hx, hstart, hrest⟩, -⟩ := h
  rw [hx]
  exact List.forall_mem_cons.2 ⟨isWordChar_of_isWordStart hstart, hrest⟩

theorem IsName.quote_not_mem {x : String} (h : IsName x) : '\'' ∉ x.toList :=
  fun hmem => absurd (h.isWordChar_of_mem _ hmem) (by decide)

theorem IsName.newline_not_mem {x : String} (h : IsName x) : '\n' ∉ x.toList :=
  fun hmem => absurd (h.isWordChar_of_mem _ hmem) (by decide)

/-- What can be printed among the first characters is what lies between the blank and the tilde. -/
theorem isPrintable_of_ascii {c : Char} (h : 0x20 ≤ c.toNat) (h' : c.toNat < 0x7F) :
    isPrintable c = true := by
  have hruns : ∀ run ∈ unprintable, run.2 < 0x20 ∨ 0x7F ≤ run.1 := by decide +kernel
  rw [isPrintable, Bool.not_eq_true', List.any_eq_false]
  intro run hrun
  rw [Bool.and_eq_true, decide_eq_true_iff, decide_eq_true_iff]
  have := hruns run hrun
  omega

theorem isPrintable_of_isWordChar {c : Char} (h : isWordChar c = true) :
    isPrintable c = true := by
  rw [isWordChar_iff, isAlpha_iff, isDigit_iff] at h
  rcases h with (hletter | hdigit) | rfl | rfl | rfl | rfl | rfl
  · exact isPrintable_of_ascii (by omega) (by omega)
  · exact isPrintable_of_ascii (by omega) (by omega)
  all_goals exact isPrintable_of_ascii (by decide) (by decide)

/-- A character of a word stands for itself between quotes. -/
theorem Quoted.character_of_isWordChar {c : Char} (h : isWordChar c = true) :
    character '\'' c = [c] := by
  have hne : ∀ d, isWordChar d = false → c ≠ d := by
    rintro d hd rfl
    exact Bool.false_ne_true (hd.symm.trans h)
  simp only [character, hne '\'' (by decide), hne '\\' (by decide), hne '\n' (by decide),
    hne '\r' (by decide), hne '\t' (by decide), isPrintable_of_isWordChar h, decide_false,
    Bool.or_self, Bool.false_eq_true, if_false, if_true]

/-- A name is quoted as it is. -/
theorem IsName.write_eq {x : String} (h : IsName x) : Quoted.write x = Listing.quoted x := by
  have hcharacters : ∀ cs : List Char, (∀ c ∈ cs, isWordChar c = true) →
      cs.flatMap (Quoted.character '\'') = cs := by
    intro cs hcs
    rw [List.flatMap_congr fun c hc => Quoted.character_of_isWordChar (hcs c hc),
      List.flatMap_singleton']
  rw [Quoted.write, if_neg fun hquote => h.quote_not_mem hquote.1,
    hcharacters _ h.isWordChar_of_mem, Listing.quoted]
  refine String.toList_inj.1 ?_
  rw [String.toList_ofList, String.toList_append, String.toList_append]
  rfl

theorem map_write_of_isName {xs : List String} (h : ∀ x ∈ xs, IsName x) :
    xs.map Quoted.write = xs.map Listing.quoted :=
  List.map_congr_left fun x hx => (h x hx).write_eq

namespace Listing

theorem toList_quoted (x : String) : (quoted x).toList = '\'' :: (x.toList ++ ['\'']) := by
  rw [quoted, String.toList_append, String.toList_append]
  rfl

theorem quoted_inj {x y : String} (h : quoted x = quoted y) : x = y := by
  have hlists := congrArg String.toList h
  rw [toList_quoted, toList_quoted] at hlists
  exact String.toList_inj.1 (List.append_cancel_right (List.cons.inj hlists).2)

/-- Names in quotes, each of them after a comma. -/
def following (xs : List String) : List Char :=
  xs.flatMap fun x => [',', ' '] ++ (quoted x).toList

theorem toList_commas_cons (x : String) (xs : List String) :
    (commas ((x :: xs).map quoted)).toList = (quoted x).toList ++ following xs := by
  induction xs generalizing x with
  | nil => rw [commas, List.map_singleton, String.intercalate_singleton, following,
      List.flatMap_nil, List.append_nil]
  | cons y xs ih =>
    have hrest := ih y
    rw [commas, List.map_cons] at hrest
    rw [commas, List.map_cons, List.map_cons, String.intercalate_cons_cons, String.toList_append,
      String.toList_append, hrest]
    simp only [following, List.flatMap_cons, List.append_assoc]
    rfl

theorem toList_bracketed (items : List String) :
    (bracketed items).toList = '[' :: ((commas items).toList ++ [']']) := by
  rw [bracketed, String.toList_append, String.toList_append]
  rfl

/-- A name without a quote ends at the next quote. -/
theorem quoted_append_inj {x y : String} {cs cs' : List Char} (hx : '\'' ∉ x.toList)
    (hy : '\'' ∉ y.toList) (h : (quoted x).toList ++ cs = (quoted y).toList ++ cs') :
    x = y ∧ cs = cs' := by
  rw [toList_quoted, toList_quoted, List.cons_append, List.cons_append, List.append_assoc,
    List.append_assoc] at h
  obtain ⟨hnames, rfl⟩ := Outline.eq_of_append_cons hx hy (List.cons.inj h).2
  exact ⟨String.toList_inj.1 hnames, rfl⟩

theorem following_inj {xs ys : List String} (hxs : ∀ x ∈ xs, '\'' ∉ x.toList)
    (hys : ∀ y ∈ ys, '\'' ∉ y.toList) (h : following xs = following ys) : xs = ys := by
  induction xs generalizing ys with
  | nil =>
    cases ys with
    | nil => rfl
    | cons y ys => cases h
  | cons x xs ih =>
    cases ys with
    | nil => cases h
    | cons y ys =>
      rw [List.forall_mem_cons] at hxs hys
      rw [following, following, List.flatMap_cons, List.flatMap_cons, List.append_assoc,
        List.append_assoc] at h
      obtain ⟨rfl, hrest⟩ := quoted_append_inj hxs.1 hys.1 (List.append_cancel_left h)
      rw [ih hxs.2 hys.2 hrest]

/-- A list of names can be told from how it is written. -/
theorem bracketed_quoted_inj {xs ys : List String} (hxs : ∀ x ∈ xs, '\'' ∉ x.toList)
    (hys : ∀ y ∈ ys, '\'' ∉ y.toList)
    (h : bracketed (xs.map quoted) = bracketed (ys.map quoted)) : xs = ys := by
  have hlists := congrArg String.toList h
  rw [toList_bracketed, toList_bracketed] at hlists
  have hcommas := List.append_cancel_right (List.cons.inj hlists).2
  have hcons : ∀ z zs, (commas ((z :: zs).map quoted)).toList ≠ (commas []).toList := by
    intro z zs h
    rw [toList_commas_cons, toList_quoted] at h
    cases h
  cases xs with
  | nil =>
    cases ys with
    | nil => rfl
    | cons y ys => exact absurd hcommas.symm (hcons y ys)
  | cons x xs =>
    cases ys with
    | nil => exact absurd hcommas (hcons x xs)
    | cons y ys =>
      rw [toList_commas_cons, toList_commas_cons] at hcommas
      rw [List.forall_mem_cons] at hxs hys
      obtain ⟨rfl, hrest⟩ := quoted_append_inj hxs.1 hys.1 hcommas
      rw [following_inj hxs.2 hys.2 hrest]

theorem newline_not_mem_quoted {x : String} (hx : '\n' ∉ x.toList) :
    '\n' ∉ (quoted x).toList := by
  rw [toList_quoted]
  simp [hx]

theorem newline_not_mem_bracketed {xs : List String} (hxs : ∀ x ∈ xs, '\n' ∉ x.toList) :
    '\n' ∉ (bracketed (xs.map quoted)).toList := by
  have hcommas : '\n' ∉ (commas (xs.map quoted)).toList := by
    cases xs with
    | nil => exact List.not_mem_nil
    | cons x xs =>
      rw [List.forall_mem_cons] at hxs
      rw [toList_commas_cons, List.mem_append, not_or, following, List.mem_flatMap]
      refine ⟨newline_not_mem_quoted hxs.1, ?_⟩
      rintro ⟨y, hy, hmem⟩
      exact (List.mem_append.1 hmem).elim (absurd · (by decide))
        (newline_not_mem_quoted (hxs.2 y hy))
  rw [toList_bracketed]
  simp [hcommas]

end Listing

/-! ## The outline of a tree -/

namespace Expr

/-- What a node shows besides its label and the trees below it. -/
def header : Expr → String
  | number n => Decimal.write n
  | boolean b => boolText b
  | var x => x
  | arith op _ _ => operatorHeader op.symbol
  | logic op _ _ => operatorHeader op.symbol
  | unary op _ => operatorHeader op.symbol
  | compare op _ _ => operatorHeader op.symbol
  | case _ _ => ""
  | cond _ => ""
  | define f params _ =>
    "name=" ++ Listing.quoted f ++ ", params=" ++ Listing.bracketed (params.map Quoted.write)
  | call f _ => "name=" ++ Listing.quoted f

/-- The trees whose outlines stand below a node. -/
def shownBelow : Expr → List Expr
  | number _ => []
  | boolean _ => []
  | var _ => []
  | arith _ l r => [l, r]
  | logic _ l r => [l, r]
  | unary _ e => [e]
  | compare _ l r => [l, r]
  | case c r => [c, r]
  | cond cases => cases.flatMap fun c => [c.1, c.2]
  | define _ _ body => [body]
  | call _ args => args

theorem outlineCases_eq (cases : List (Expr × Expr)) :
    outlineCases cases = outlines (cases.flatMap fun c => [c.1, c.2]) := by
  induction cases with
  | nil => rfl
  | cons c cases ih =>
    obtain ⟨condition, result⟩ := c
    show outlineCases ((condition, result) :: cases) =
      outlines (condition :: result :: cases.flatMap fun c => [c.1, c.2])
    rw [outlineCases, outlines, outlines, ← ih]
    cases outline condition <;> cases outline result <;> cases outlineCases cases <;> rfl

/-- A node is outlined by its label, its header and the outlines of the trees below it. -/
theorem outline_eq {e : Expr} (h : ∀ c r, e ≠ case c r) :
    e.outline = (outlines e.shownBelow).map (.node e.label e.header) := by
  cases e with
  | number n => rfl
  | boolean b => rfl
  | var x => rfl
  | arith op l r =>
    rw [outline, shownBelow, outlines, outlines, outlines]
    cases outline l <;> cases outline r <;> rfl
  | logic op l r =>
    rw [outline, shownBelow, outlines, outlines, outlines]
    cases outline l <;> cases outline r <;> rfl
  | unary op e =>
    rw [outline, shownBelow, outlines, outlines]
    cases outline e <;> rfl
  | compare op l r =>
    rw [outline, shownBelow, outlines, outlines, outlines]
    cases outline l <;> cases outline r <;> rfl
  | case c r => exact absurd rfl (h c r)
  | cond cases =>
    rw [outline, shownBelow, ← outlineCases_eq]
    cases outlineCases cases <;> rfl
  | define f params body =>
    rw [outline, shownBelow, outlines, outlines]
    cases outline body <;> rfl
  | call f args =>
    rw [outline, shownBelow]
    cases outlines args <;> rfl

/-- Outlines are made of trees one by one. -/
theorem outlines_eq_ok {es : List Expr} {parts : List Outline} (h : outlines es = .ok parts) :
    (es = [] ∧ parts = []) ∨ ∃ e es' o os, es = e :: es' ∧ parts = o :: os ∧
      outline e = .ok o ∧ outlines es' = .ok os := by
  cases es with
  | nil =>
    rw [outlines] at h
    exact .inl ⟨rfl, (Except.ok.inj h).symm⟩
  | cons e es =>
    rw [outlines] at h
    cases he : outline e with
    | error _ =>
      rw [he] at h
      cases h
    | ok o =>
      cases hes : outlines es with
      | error _ =>
        rw [he, hes] at h
        cases h
      | ok os =>
        rw [he, hes] at h
        exact .inr ⟨e, es, o, os, rfl, (Except.ok.inj h).symm, he, hes⟩

theorem eq_nil_of_outlines {es : List Expr} (h : outlines es = .ok []) : es = [] := by
  rcases outlines_eq_ok h with ⟨rfl, -⟩ | ⟨_, _, _, _, -, ⟨⟩, -⟩
  rfl

theorem exists_cons_of_outlines {es : List Expr} {o : Outline} {os : List Outline}
    (h : outlines es = .ok (o :: os)) :
    ∃ e es', es = e :: es' ∧ outline e = .ok o ∧ outlines es' = .ok os := by
  rcases outlines_eq_ok h with ⟨-, ⟨⟩⟩ | ⟨e, es', _, _, rfl, ⟨⟩, he, hes⟩
  exact ⟨e, es', rfl, he, hes⟩

/-! ## Well-formed trees -/

theorem WellFormed.ne_case {p : Position} {e : Expr} (h : e.WellFormed p) (c r : Expr) :
    e ≠ case c r := by
  rintro rfl
  rw [WellFormed] at h
  exact h

theorem WellFormed.shownBelow {p : Position} {e : Expr} (h : e.WellFormed p) :
    ∀ e' ∈ e.shownBelow, ∃ p', e'.WellFormed p' := by
  cases e with
  | number n => exact List.forall_mem_nil _
  | boolean b => exact List.forall_mem_nil _
  | var x => exact List.forall_mem_nil _
  | arith op l r =>
    rw [WellFormed] at h
    exact List.forall_mem_cons.2 ⟨⟨_, h.2.1⟩, List.forall_mem_singleton.2 ⟨_, h.2.2⟩⟩
  | logic op l r =>
    rw [WellFormed] at h
    exact List.forall_mem_cons.2 ⟨⟨_, h.2.1⟩, List.forall_mem_singleton.2 ⟨_, h.2.2⟩⟩
  | unary op e =>
    rw [WellFormed] at h
    exact List.forall_mem_singleton.2 ⟨_, h.2⟩
  | compare op l r =>
    rw [WellFormed] at h
    exact List.forall_mem_cons.2 ⟨⟨_, h.2.1⟩, List.forall_mem_singleton.2 ⟨_, h.2.2⟩⟩
  | case c r => exact absurd rfl (h.ne_case c r)
  | cond cases =>
    rw [WellFormed, casesWellFormed_iff] at h
    rintro e he
    obtain ⟨c, hc, hmem⟩ := List.mem_flatMap.1 he
    rcases List.mem_pair.1 hmem with rfl | rfl
    · exact ⟨_, (h.2 c hc).1⟩
    · exact ⟨_, (h.2 c hc).2⟩
  | define f params body =>
    rw [WellFormed] at h
    exact List.forall_mem_singleton.2 ⟨_, h.2.2.2.2⟩
  | call f args =>
    rw [WellFormed, allWellFormed_iff] at h
    exact fun e he => ⟨_, h.2 e he⟩

theorem WellFormed.newline_not_mem_header {p : Position} {e : Expr} (h : e.WellFormed p) :
    '\n' ∉ e.header.toList := by
  cases e with
  | number n => exact Decimal.newline_not_mem_write n
  | boolean b => cases b <;> decide
  | var x =>
    rw [WellFormed] at h
    exact h.newline_not_mem
  | arith op l r => cases op <;> rw [header] <;> decide
  | logic op l r => cases op <;> rw [header] <;> decide
  | unary op e =>
    cases op
    rw [header]
    decide
  | compare op l r => cases op <;> rw [header] <;> decide
  | case c r => exact List.not_mem_nil
  | cond cases => exact List.not_mem_nil
  | define f params body =>
    rw [WellFormed] at h
    have hname := Listing.newline_not_mem_quoted h.2.1.newline_not_mem
    have hparams := Listing.newline_not_mem_bracketed fun x hx => (h.2.2.1 x hx).newline_not_mem
    rw [header, map_write_of_isName h.2.2.1]
    simp [hname, hparams]
  | call f args =>
    rw [WellFormed] at h
    have hname := Listing.newline_not_mem_quoted h.1.newline_not_mem
    rw [header]
    simp [hname]

theorem label_clean (e : Expr) : '(' ∉ e.label.toList ∧ '\n' ∉ e.label.toList := by
  cases e <;> rw [label] <;> decide

mutual

theorem clean_of_outline : ∀ (o : Outline) {p : Position} {e : Expr}, e.WellFormed p →
    e.outline = .ok o → o.Clean
  | .node name header parts, _, e, h, ho => by
    rw [outline_eq h.ne_case] at ho
    obtain ⟨os, hos, heq⟩ := Except.map_eq_ok_iff.1 ho
    obtain ⟨hname, hheader, hparts⟩ := Outline.node.inj heq
    rw [hparts] at hos
    rw [Outline.Clean, ← hname, ← hheader]
    exact ⟨e.label_clean.1, e.label_clean.2, h.newline_not_mem_header,
      cleanAll_of_outlines parts h.shownBelow hos⟩

theorem cleanAll_of_outlines : ∀ (parts : List Outline) {es : List Expr},
    (∀ e ∈ es, ∃ p, e.WellFormed p) → outlines es = .ok parts → Outline.CleanAll parts
  | [], _, _, _ => trivial
  | o :: os, _, h, hos => by
    obtain ⟨e, es, rfl, he, hes⟩ := exists_cons_of_outlines hos
    rw [List.forall_mem_cons] at h
    rw [Outline.CleanAll]
    exact ⟨clean_of_outline o h.1.choose_spec he, cleanAll_of_outlines os h.2 hes⟩

end

/-! ## One tree for each outline -/

theorem operatorHeader_inj {s t : String} (h : operatorHeader s = operatorHeader t) : s = t := by
  have hlists := congrArg String.toList h
  rw [operatorHeader, operatorHeader, String.toList_append, String.toList_append] at hlists
  exact Listing.quoted_inj (String.toList_inj.1 (List.append_cancel_left hlists))

theorem defineHeader_inj {f f' : String} {params params' : List String} {body body' : Expr}
    (hf : IsName f) (hf' : IsName f') (hparams : ∀ x ∈ params, IsName x)
    (hparams' : ∀ x ∈ params', IsName x)
    (h : (define f params body).header = (define f' params' body').header) :
    f = f' ∧ params = params' := by
  have hlists := congrArg String.toList h
  rw [header, header, map_write_of_isName hparams, map_write_of_isName hparams'] at hlists
  simp only [String.toList_append, List.append_assoc] at hlists
  obtain ⟨rfl, hrest⟩ := Listing.quoted_append_inj hf.quote_not_mem hf'.quote_not_mem
    (List.append_cancel_left hlists)
  have hlisted := String.toList_inj.1 (List.append_cancel_left hrest)
  exact ⟨rfl, Listing.bracketed_quoted_inj (fun x hx => (hparams x hx).quote_not_mem)
    (fun x hx => (hparams' x hx).quote_not_mem) hlisted⟩

theorem cases_inj {cases cases' : List (Expr × Expr)}
    (h : (cases.flatMap fun c => [c.1, c.2]) = cases'.flatMap fun c => [c.1, c.2]) :
    cases = cases' := by
  induction cases generalizing cases' with
  | nil =>
    cases cases' with
    | nil => rfl
    | cons c' cases' => cases h
  | cons c cases ih =>
    cases cases' with
    | nil => cases h
    | cons c' cases' =>
      obtain ⟨hcondition, hrest⟩ := List.cons.inj h
      obtain ⟨hresult, hrest⟩ := List.cons.inj hrest
      rw [Prod.ext hcondition hresult, ih hrest]

/-- A well-formed tree is made up of its label, its header and the trees below it. -/
theorem eq_of_shownBelow {p p' : Position} {e e' : Expr} (h : e.WellFormed p)
    (h' : e'.WellFormed p') (hlabel : e.label = e'.label) (hheader : e.header = e'.header)
    (hbelow : e.shownBelow = e'.shownBelow) : e = e' := by
  cases e with
  | number n =>
    cases e' <;> simp [label] at hlabel
    next n' => rw [Decimal.write_inj hheader]
  | boolean b =>
    cases e' <;> simp [label] at hlabel
    next b' =>
      cases b <;> cases b' <;> first | rfl | exact absurd hheader (by decide)
  | var x =>
    cases e' <;> simp [label] at hlabel
    next x' => exact congrArg var hheader
  | arith op l r =>
    cases e' <;> simp [label] at hlabel
    next op' l' r' =>
      obtain ⟨rfl, hr⟩ := List.cons.inj hbelow
      obtain ⟨rfl, -⟩ := List.cons.inj hr
      rw [ArithOp.symbol_inj (operatorHeader_inj hheader)]
  | logic op l r =>
    cases e' <;> simp [label] at hlabel
    next op' l' r' =>
      obtain ⟨rfl, hr⟩ := List.cons.inj hbelow
      obtain ⟨rfl, -⟩ := List.cons.inj hr
      rw [LogicOp.symbol_inj (operatorHeader_inj hheader)]
  | unary op e =>
    cases e' <;> simp [label] at hlabel
    next op' e' =>
      obtain ⟨rfl, -⟩ := List.cons.inj hbelow
      cases op
      cases op'
      rfl
  | compare op l r =>
    cases e' <;> simp [label] at hlabel
    next op' l' r' =>
      obtain ⟨rfl, hr⟩ := List.cons.inj hbelow
      obtain ⟨rfl, -⟩ := List.cons.inj hr
      rw [CompareOp.symbol_inj (operatorHeader_inj hheader)]
  | case c r => exact absurd rfl (h.ne_case c r)
  | cond cases =>
    cases e' <;> simp [label] at hlabel
    next cases' => rw [cases_inj hbelow]
  | define f params body =>
    cases e' <;> simp [label] at hlabel
    next f' params' body' =>
      rw [WellFormed] at h h'
      obtain ⟨rfl, rfl⟩ := defineHeader_inj h.2.1 h'.2.1 h.2.2.1 h'.2.2.1 hheader
      obtain ⟨rfl, -⟩ := List.cons.inj hbelow
      rfl
  | call f args =>
    cases e' <;> simp [label] at hlabel
    next f' args' =>
      have hargs : args = args' := hbelow
      have hlists := congrArg String.toList hheader
      rw [header, header, String.toList_append, String.toList_append] at hlists
      rw [Listing.quoted_inj (String.toList_inj.1 (List.append_cancel_left hlists)), hargs]

mutual

/-- Well-formed trees with the same outline are the same tree. -/
theorem eq_of_outline : ∀ (o : Outline) {p p' : Position} {e e' : Expr}, e.WellFormed p →
    e'.WellFormed p' → e.outline = .ok o → e'.outline = .ok o → e = e'
  | .node name header parts, _, _, e, e', h, h', ho, ho' => by
    rw [outline_eq h.ne_case] at ho
    rw [outline_eq h'.ne_case] at ho'
    obtain ⟨os, hos, heq⟩ := Except.map_eq_ok_iff.1 ho
    obtain ⟨os', hos', heq'⟩ := Except.map_eq_ok_iff.1 ho'
    obtain ⟨hname, hheader, hparts⟩ := Outline.node.inj heq
    obtain ⟨hname', hheader', hparts'⟩ := Outline.node.inj heq'
    rw [hparts] at hos
    rw [hparts'] at hos'
    have hbelow := eq_of_outlines parts h.shownBelow h'.shownBelow hos hos'
    exact eq_of_shownBelow h h' (hname.trans hname'.symm) (hheader.trans hheader'.symm) hbelow

theorem eq_of_outlines : ∀ (parts : List Outline) {es es' : List Expr},
    (∀ e ∈ es, ∃ p, e.WellFormed p) → (∀ e ∈ es', ∃ p, e.WellFormed p) →
    outlines es = .ok parts → outlines es' = .ok parts → es = es'
  | [], _, _, _, _, hos, hos' => by rw [eq_nil_of_outlines hos, eq_nil_of_outlines hos']
  | o :: os, _, _, h, h', hos, hos' => by
    obtain ⟨e, es, rfl, he, hes⟩ := exists_cons_of_outlines hos
    obtain ⟨e', es', rfl, he', hes'⟩ := exists_cons_of_outlines hos'
    rw [List.forall_mem_cons] at h h'
    rw [eq_of_outline o h.1.choose_spec h'.1.choose_spec he he',
      eq_of_outlines os h.2 h'.2 hes hes']

end

/-! ## What is shown -/

/-- **Every tree that is read can be shown, and it can be told from what is shown.**  Further in, it
is shown as it is at the edge, with blanks before each line.  Trees that are shown alike, at
whatever depth, are the same. -/
theorem display_faithful {source source' : String} {e e' : Expr} (he : parse source = .ok e)
    (he' : parse source' = .ok e') :
    (∃ shown, e.display 0 = .ok shown ∧
      ∀ depth, e.display depth = .ok (Outline.indented depth shown)) ∧
      ∀ depth, e.display depth = e'.display depth → e = e' := by
  have h := wellFormed_of_parse he
  have h' := wellFormed_of_parse he'
  obtain ⟨o, ho⟩ := h.exists_outline
  obtain ⟨o', ho'⟩ := h'.exists_outline
  have hclean := clean_of_outline o h ho
  have hdisplay : ∀ depth, e.display depth = .ok (o.render depth) := by
    intro depth
    rw [display, ho]
    rfl
  refine ⟨⟨o.render 0, hdisplay 0, fun depth => ?_⟩, fun depth heq => ?_⟩
  · rw [hdisplay, Outline.render_eq_indented hclean]
  · rw [hdisplay, display, ho'] at heq
    obtain rfl := Outline.render_inj hclean (clean_of_outline o' h' ho') (Except.ok.inj heq)
    exact eq_of_outline o h h' ho ho'

/-- A conditional of two cases, the second of which calls a function with arguments and the first
one without, and the same conditional with another number as the last argument. -/
theorem display_faithful_conditional :
    let e : Expr := .cond [(.compare .equal (.var "x") (.number 0), .call "f" []),
      (.boolean true, .call "f" [.var "x", .number (-1)])]
    let e' : Expr := .cond [(.compare .equal (.var "x") (.number 0), .call "f" []),
      (.boolean true, .call "f" [.var "x", .number 1])]
    let shown :=
      "Cond([\n" ++
      "    CmpBool(op='=', [\n" ++
      "        Variable(x),\n" ++
      "        NumLiteral(0)\n" ++
      "    ]),\n" ++
      "    FunctionCall(name='f'),\n" ++
      "    BoolLiteral(true),\n" ++
      "    FunctionCall(name='f', [\n" ++
      "        Variable(x),\n" ++
      "        NumLiteral(-1)\n" ++
      "    ])\n" ++
      "])"
    parse "(cond ((= x 0) (f)) (true (f x -1)))" = .ok e ∧
      parse "(cond ((= x 0) (f)) (true (f x 1)))" = .ok e' ∧
      e.display 0 = .ok shown ∧ e.display 2 = .ok (Outline.indented 2 shown) ∧
      e.display 2 ≠ e'.display 2 := by
  intro e e' shown
  have he : parse "(cond ((= x 0) (f)) (true (f x -1)))" = .ok e := by decide +kernel
  have he' : parse "(cond ((= x 0) (f)) (true (f x 1)))" = .ok e' := by decide +kernel
  obtain ⟨⟨shown', hshown', hdeeper⟩, hsame⟩ := display_faithful he he'
  have hshown : e.display 0 = .ok shown := by decide +kernel
  obtain rfl : shown' = shown := Except.ok.inj (hshown'.symm.trans hshown)
  refine ⟨he, he', hshown, hdeeper 2, fun heq => ?_⟩
  exact absurd (hsame 2 heq) (by decide +kernel)

end Expr

end DynLisp
