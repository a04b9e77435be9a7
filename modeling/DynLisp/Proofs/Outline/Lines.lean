import DynLisp.Expr.Outline
import Mathlib.Data.List.Basic

/-!
# The lines of outlines

A rendered outline taken apart into its lines.  The first line of a node that has others below it
ends with an opening bracket, its last line starts with the closing one, and a comma stands at the
end of every node that another one follows on the same level.  `Outline.lines` has this as a list of
lines, whose joining is the text (`Outline.toList_render`).

Two things can then be seen line by line.  All lines move together when the outline moves in
(`Outline.lines_add`).  And the lines of an outline say where they end: whatever comes after them,
they are the lines of no other outline (`Outline.eq_of_lines_append`).  The first line decides what
kind of node it is, and so how many outlines are to be read before the last one; how far the lines
are moved in is not needed for that.

Both need nothing more than that no name holds an opening parenthesis and that no name or header
holds a newline, `Outline.Clean`.
-/

namespace DynLisp
namespace Outline

/-! ## Lines -/

/-- The blanks before a line that is `depth` steps in. -/
def blanks (depth : Nat) : List Char := List.replicate (4 * depth) ' '

/-- What ends a node that is or is not followed by another one. -/
def comma (followed : Bool) : List Char := if followed then [','] else []

/-- What stands between the name of a node and the end of its only line. -/
def closed (header : String) : List Char := '(' :: (header.toList ++ [')'])

/-- What stands between the name of a node and the end of its first line. -/
def opened (header : String) : List Char :=
  '(' :: (header.toList ++ if header = "" then ['['] else [',', ' ', '['])

mutual

/-- The lines of an outline that is `depth` steps in. -/
def lines (depth : Nat) (followed : Bool) : Outline → List (List Char)
  | node name header [] => [blanks depth ++ name.toList ++ closed header ++ comma followed]
  | node name header (part :: parts) =>
    (blanks depth ++ name.toList ++ opened header) ::
      (linesOf (depth + 1) (part :: parts) ++ [blanks depth ++ [']', ')'] ++ comma followed])

/-- The lines of outlines on one level. -/
def linesOf (depth : Nat) : List Outline → List (List Char)
  | [] => []
  | part :: parts => lines depth (!parts.isEmpty) part ++ linesOf depth parts

end

theorem lines_ne_nil (depth : Nat) (followed : Bool) (o : Outline) :
    lines depth followed o ≠ [] := by
  obtain ⟨name, header, _ | ⟨part, parts⟩⟩ := o <;> rw [lines] <;> exact List.cons_ne_nil _ _

theorem linesOf_ne_nil (depth : Nat) (part : Outline) (parts : List Outline) :
    linesOf depth (part :: parts) ≠ [] := by
  rw [linesOf]
  exact List.append_ne_nil_of_left_ne_nil (lines_ne_nil _ _ part) _

/-! ## Moving in -/

theorem blanks_add (n depth : Nat) : blanks (n + depth) = blanks n ++ blanks depth := by
  rw [blanks, blanks, blanks, List.replicate_append_replicate, Nat.mul_add]

mutual

/-- Every line of an outline moves in as far as the outline does. -/
theorem lines_add (n depth : Nat) (followed : Bool) : ∀ o : Outline,
    lines (n + depth) followed o = (lines depth followed o).map (blanks n ++ ·)
  | node name header [] => by
    rw [lines, lines, blanks_add, List.map_singleton]
    simp only [List.append_assoc]
  | node name header (part :: parts) => by
    rw [lines, lines, blanks_add, Nat.add_assoc, linesOf_add n (depth + 1) (part :: parts)]
    simp only [List.map_cons, List.map_append, List.map_nil, List.append_assoc]

theorem linesOf_add (n depth : Nat) : ∀ parts : List Outline,
    linesOf (n + depth) parts = (linesOf depth parts).map (blanks n ++ ·)
  | [] => rfl
  | part :: parts => by
    rw [linesOf, linesOf, lines_add n depth _ part, linesOf_add n depth parts, List.map_append]

end

/-! ## The text -/

theorem intercalate_append {sep : List Char} {ls ms : List (List Char)} (hls : ls ≠ [])
    (hms : ms ≠ []) :
    sep.intercalate (ls ++ ms) = sep.intercalate ls ++ sep ++ sep.intercalate ms := by
  induction ls with
  | nil => exact absurd rfl hls
  | cons l ls ih =>
    cases ls with
    | nil => rw [List.singleton_append, List.intercalate_cons_of_ne_nil hms,
        List.intercalate_singleton]
    | cons l' ls =>
      have hne : l' :: ls ≠ [] := List.cons_ne_nil _ _
      rw [List.cons_append,
        List.intercalate_cons_of_ne_nil (List.append_ne_nil_of_left_ne_nil hne _), ih hne,
        List.intercalate_cons_of_ne_nil hne]
      simp only [List.append_assoc]

theorem toList_indentation (depth : Nat) : (indentation depth).toList = blanks depth :=
  String.toList_ofList

theorem toList_opened (header : String) :
    '(' :: (header ++ if header = "" then "[" else ", [").toList = opened header := by
  rw [String.toList_append, opened]
  split_ifs <;> rfl

mutual

/-- The text of an outline is its lines with newlines between them. -/
theorem toList_render (depth : Nat) (followed : Bool) : ∀ o : Outline,
    (render depth o).toList ++ comma followed = ['\n'].intercalate (lines depth followed o)
  | node name header [] => by
    rw [render, lines, List.intercalate_singleton]
    simp only [String.toList_append, toList_indentation, closed, List.append_assoc,
      List.cons_append]
    rfl
  | node name header (part :: parts) => by
    have hbelow := toList_renderRest (depth + 1) (part :: parts) (List.cons_ne_nil _ _)
    have hne := linesOf_ne_nil (depth + 1) part parts
    rw [renderRest, String.append_assoc, String.toList_append] at hbelow
    have hbelow := List.append_cancel_left hbelow
    rw [render, lines, List.intercalate_cons_of_ne_nil (List.append_ne_nil_of_left_ne_nil hne _),
      intercalate_append hne (List.cons_ne_nil _ _), ← hbelow, List.intercalate_singleton,
      ← toList_opened]
    simp only [String.toList_append, toList_indentation, List.append_assoc, List.cons_append]
    rfl

/-- Outlines that follow another one come after a comma and a newline. -/
theorem toList_renderRest (depth : Nat) : ∀ parts : List Outline, parts ≠ [] →
    (renderRest depth parts).toList =
      [',', '\n'] ++ ['\n'].intercalate (linesOf depth parts)
  | [], hne => absurd rfl hne
  | [part], _ => by
    have hpart := toList_render depth false part
    rw [comma, if_neg Bool.false_ne_true, List.append_nil] at hpart
    rw [renderRest, renderRest, linesOf, linesOf, List.append_nil, String.append_empty,
      String.toList_append, hpart]
    rfl
  | part :: next :: parts, _ => by
    have hpart := toList_render depth true part
    have hrest := toList_renderRest depth (next :: parts) (List.cons_ne_nil _ _)
    have hlines : linesOf depth (part :: next :: parts) =
        lines depth true part ++ linesOf depth (next :: parts) := rfl
    rw [renderRest, String.toList_append, String.toList_append, hrest, hlines,
      intercalate_append (lines_ne_nil _ _ part) (linesOf_ne_nil depth next parts), ← hpart]
    simp only [List.append_assoc]
    rfl

end

/-! ## Reading the lines -/

mutual

/-- No name holds an opening parenthesis, and no name or header a newline. -/
def Clean : Outline → Prop
  | node name header parts =>
    '(' ∉ name.toList ∧ '\n' ∉ name.toList ∧ '\n' ∉ header.toList ∧ CleanAll parts

def CleanAll : List Outline → Prop
  | [] => True
  | part :: parts => Clean part ∧ CleanAll parts

end

theorem newline_not_mem_blanks (depth : Nat) : '\n' ∉ blanks depth :=
  fun h => absurd (List.eq_of_mem_replicate h) (by decide)

theorem newline_not_mem_comma (followed : Bool) : '\n' ∉ comma followed := by
  cases followed <;> decide

mutual

theorem newline_not_mem_lines (depth : Nat) (followed : Bool) : ∀ o : Outline, o.Clean →
    ∀ line ∈ lines depth followed o, '\n' ∉ line
  | node name header [], h => by
    rw [Clean] at h
    rw [lines, List.forall_mem_singleton]
    simp [newline_not_mem_blanks, newline_not_mem_comma, closed, h.2.1, h.2.2.1]
  | node name header (part :: parts), h => by
    rw [Clean] at h
    have hopened : '\n' ∉ opened header := by
      rw [opened]
      split_ifs <;> simp [h.2.2.1]
    rw [lines, List.forall_mem_cons, List.forall_mem_append, List.forall_mem_singleton]
    refine ⟨?_, newline_not_mem_linesOf (depth + 1) (part :: parts) h.2.2.2, ?_⟩
    · simp [newline_not_mem_blanks, h.2.1, hopened]
    · simp [newline_not_mem_blanks, newline_not_mem_comma]

theorem newline_not_mem_linesOf (depth : Nat) : ∀ parts : List Outline, CleanAll parts →
    ∀ line ∈ linesOf depth parts, '\n' ∉ line
  | [], _ => List.forall_mem_nil _
  | part :: parts, h => by
    rw [CleanAll] at h
    rw [linesOf, List.forall_mem_append]
    exact ⟨newline_not_mem_lines depth _ part h.1, newline_not_mem_linesOf depth parts h.2⟩

end

/-- What stands before the first of some character, and what stands after it. -/
theorem eq_of_append_cons {c : Char} {xs xs' ys ys' : List Char} (hxs : c ∉ xs) (hxs' : c ∉ xs')
    (h : xs ++ c :: ys = xs' ++ c :: ys') : xs = xs' ∧ ys = ys' := by
  induction xs generalizing xs' with
  | nil =>
    cases xs' with
    | nil => exact ⟨rfl, (List.cons.inj h).2⟩
    | cons d xs' => exact absurd ((List.cons.inj h).1 ▸ List.mem_cons_self) hxs'
  | cons d xs ih =>
    cases xs' with
    | nil => exact absurd ((List.cons.inj h).1 ▸ List.mem_cons_self) hxs
    | cons d' xs' =>
      obtain ⟨rfl, htails⟩ := List.cons.inj h
      obtain ⟨rfl, rfl⟩ := ih (fun hc => hxs (List.mem_cons_of_mem d hc))
        (fun hc => hxs' (List.mem_cons_of_mem d hc)) htails
      exact ⟨rfl, rfl⟩

/-! ### The first line of a node -/

theorem getLast?_closed (header : String) (followed : Bool) :
    (closed header ++ comma followed).getLast? = some (if followed then ',' else ')') := by
  cases followed with
  | false =>
    show (('(' :: header.toList) ++ [')'] ++ []).getLast? = _
    rw [List.append_nil]
    exact List.getLast?_concat
  | true => exact List.getLast?_concat

theorem getLast?_opened (header : String) : (opened header).getLast? = some '[' := by
  rw [opened]
  split_ifs
  · rw [← List.cons_append]
    exact List.getLast?_concat
  · have hbracket : [',', ' ', '['] = [',', ' '] ++ ['['] := rfl
    rw [hbracket, ← List.append_assoc, ← List.cons_append]
    exact List.getLast?_concat

theorem closed_ne_opened (header header' : String) (followed : Bool) :
    closed header ++ comma followed ≠ opened header' := by
  intro h
  have hlast := congrArg List.getLast? h
  rw [getLast?_closed, getLast?_opened] at hlast
  cases followed <;> exact absurd (Option.some.inj hlast) (by decide)

theorem closed_inj {header header' : String} {followed followed' : Bool}
    (h : closed header ++ comma followed = closed header' ++ comma followed') :
    header = header' ∧ followed = followed' := by
  have hlast := congrArg List.getLast? h
  rw [getLast?_closed, getLast?_closed, Option.some.injEq] at hlast
  obtain rfl : followed = followed' := by
    cases followed <;> cases followed' <;> first | rfl | exact absurd hlast (by decide)
  have hheaders := (List.cons.inj (List.append_cancel_right h)).2
  exact ⟨String.toList_inj.1 (List.append_cancel_right hheaders), rfl⟩

theorem opened_inj {header header' : String} (h : opened header = opened header') :
    header = header' := by
  rw [opened, opened, List.cons.injEq] at h
  have hlength := congrArg List.length h.2
  split_ifs at h hlength with hempty hempty' hempty'
  · rw [hempty, hempty']
  · rw [hempty] at hlength
    simp at hlength
  · rw [hempty'] at hlength
    simp at hlength
  · exact String.toList_inj.1 (List.append_cancel_right h.2)

theorem comma_inj {followed followed' : Bool} (h : comma followed = comma followed') :
    followed = followed' := by
  cases followed <;> cases followed' <;> first | rfl | exact absurd h (by decide)

/-- The name ends where the first parenthesis stands. -/
theorem firstLine_inj {depth : Nat} {name name' : String} {cs cs' : List Char}
    (hname : '(' ∉ name.toList) (hname' : '(' ∉ name'.toList) (hcs : cs.head? = some '(')
    (hcs' : cs'.head? = some '(')
    (h : blanks depth ++ name.toList ++ cs = blanks depth ++ name'.toList ++ cs') :
    name = name' ∧ cs = cs' := by
  obtain ⟨ds, rfl⟩ := List.head?_eq_some_iff.1 hcs
  obtain ⟨ds', rfl⟩ := List.head?_eq_some_iff.1 hcs'
  rw [List.append_assoc, List.append_assoc] at h
  obtain ⟨hnames, rfl⟩ := eq_of_append_cons hname hname' (List.append_cancel_left h)
  exact ⟨String.toList_inj.1 hnames, rfl⟩

/-! ### All lines -/

mutual

/-- **The lines of an outline are those of no other one**, whatever lines come after them. -/
theorem eq_of_lines_append (depth : Nat) : ∀ (o o' : Outline) {followed followed' : Bool}
    {rest rest' : List (List Char)}, o.Clean → o'.Clean →
    lines depth followed o ++ rest = lines depth followed' o' ++ rest' →
    o = o' ∧ followed = followed' ∧ rest = rest'
  | node name header [], node name' header' [], _, _, _, _, h, h', hlines => by
    rw [Clean] at h h'
    rw [lines, lines, List.append_assoc, List.append_assoc _ (closed header')] at hlines
    obtain ⟨hline, rfl⟩ := List.cons.inj hlines
    obtain ⟨rfl, hclosed⟩ := firstLine_inj h.1 h'.1 rfl rfl hline
    obtain ⟨rfl, rfl⟩ := closed_inj hclosed
    exact ⟨rfl, rfl, rfl⟩
  | node name header [], node name' header' (part' :: parts'), _, _, _, _, h, h', hlines => by
    rw [Clean] at h h'
    rw [lines, lines, List.append_assoc] at hlines
    have hline := (List.cons.inj hlines).1
    exact absurd (firstLine_inj h.1 h'.1 rfl rfl hline).2 (closed_ne_opened _ _ _)
  | node name header (part :: parts), node name' header' [], _, _, _, _, h, h', hlines => by
    rw [Clean] at h h'
    rw [lines, lines, List.append_assoc _ (closed header')] at hlines
    have hline := (List.cons.inj hlines).1
    exact absurd (firstLine_inj h.1 h'.1 rfl rfl hline).2.symm (closed_ne_opened _ _ _)
  | node name header (part :: parts), node name' header' (part' :: parts'), _, _, _, _, h, h',
      hlines => by
    rw [Clean] at h h'
    rw [lines, lines, List.cons_append, List.cons_append] at hlines
    obtain ⟨hline, hbelow⟩ := List.cons.inj hlines
    rw [List.append_assoc (linesOf _ (part :: parts)),
      List.append_assoc (linesOf _ (part' :: parts'))] at hbelow
    obtain ⟨rfl, hopened⟩ := firstLine_inj h.1 h'.1 rfl rfl hline
    obtain rfl := opened_inj hopened
    obtain ⟨hparts, hlast⟩ := eq_of_linesOf_append (depth + 1) (part :: parts) (part' :: parts')
      h.2.2.2 h'.2.2.2 (List.cons_ne_nil _ _) (List.cons_ne_nil _ _) hbelow
    obtain ⟨hcomma, rfl⟩ := List.cons.inj hlast
    exact ⟨congrArg _ hparts, comma_inj (List.append_cancel_left hcomma), rfl⟩

theorem eq_of_linesOf_append (depth : Nat) : ∀ (parts parts' : List Outline)
    {rest rest' : List (List Char)}, CleanAll parts → CleanAll parts' →
    parts ≠ [] → parts' ≠ [] →
    linesOf depth parts ++ rest = linesOf depth parts' ++ rest' → parts = parts' ∧ rest = rest'
  | [], _, _, _, _, _, hne, _, _ => absurd rfl hne
  | _ :: _, [], _, _, _, _, _, hne, _ => absurd rfl hne
  | part :: parts, part' :: parts', _, _, h, h', _, _, hlines => by
    rw [CleanAll] at h h'
    rw [linesOf, linesOf, List.append_assoc, List.append_assoc] at hlines
    obtain ⟨rfl, hfollowed, hrest⟩ := eq_of_lines_append depth part part' h.1 h'.1 hlines
    -- the comma after the first outline tells whether there is another one
    rcases parts with _ | ⟨next, parts⟩ <;> rcases parts' with _ | ⟨next', parts'⟩
    · exact ⟨rfl, hrest⟩
    · cases hfollowed
    · cases hfollowed
    · obtain ⟨hparts, rfl⟩ := eq_of_linesOf_append depth (next :: parts) (next' :: parts')
        h.2 h'.2 (List.cons_ne_nil _ _) (List.cons_ne_nil _ _) hrest
      exact ⟨congrArg _ hparts, rfl⟩

end

/-! ## Rendered texts -/

theorem splitOn_render {o : Outline} (h : o.Clean) (depth : Nat) :
    (render depth o).toList.splitOn '\n' = lines depth false o := by
  have htext := toList_render depth false o
  rw [comma, if_neg Bool.false_ne_true, List.append_nil] at htext
  rw [htext]
  exact List.splitOn_intercalate _ (newline_not_mem_lines depth false o h) (lines_ne_nil _ _ o)

/-- A text with blanks before each of its lines. -/
def indented (depth : Nat) (text : String) : String :=
  String.ofList (['\n'].intercalate ((text.toList.splitOn '\n').map (blanks depth ++ ·)))

/-- An outline that is further in is the outline with blanks before its lines. -/
theorem render_eq_indented {o : Outline} (h : o.Clean) (depth : Nat) :
    render depth o = indented depth (render 0 o) := by
  have htext := toList_render depth false o
  rw [comma, if_neg Bool.false_ne_true, List.append_nil] at htext
  rw [indented, splitOn_render h, ← lines_add, Nat.add_zero, ← htext, String.ofList_toList]

/-- Different outlines are shown differently. -/
theorem render_inj {o o' : Outline} (h : o.Clean) (h' : o'.Clean) {depth : Nat}
    (heq : render depth o = render depth o') : o = o' := by
  have hlines : lines depth false o ++ [] = lines depth false o' ++ [] := by
    rw [← splitOn_render h, ← splitOn_render h', heq]
  exact (eq_of_lines_append depth o o' h h' hlines).1

end Outline
end DynLisp
