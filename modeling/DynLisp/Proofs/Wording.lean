import DynLisp.Fault

/-!
# The wording of faults

A message can be kept as a template and the snippets that fill its holes.  The two belong together
only if there are as many snippets as holes, for a hole that is left empty is no message at all.

`Fault.template` has the templates of all faults, as they are written.  Filled with the snippets of
the fault, in their order, a template is the message of the fault, in whatever way the snippets are
shown (`Fault.worded`).
-/

namespace DynLisp

/-! ## Templates of messages -/

/-- A hole, as templates write it. -/
def Template.hole : String := "\x7b\x7d"

namespace Message

theorem write_cons_text (emphasise : String → String) (s : String) (message : Message) :
    write emphasise (.text s :: message) = s ++ write emphasise message := by
  simp [write]

theorem write_cons_snippet (emphasise : String → String) (s : String) (message : Message) :
    write emphasise (.snippet s :: message) = emphasise s ++ write emphasise message := by
  simp [write]

/-- The texts of a message, in order, without the snippets. -/
def texts (message : Message) : List String :=
  message.filterMap fun
    | .text s => some s
    | .snippet _ => none

end Message

namespace Template

/-- No brace stands in a text. -/
def Braceless (s : String) : Prop := '\x7b' ∉ s.toList ∧ '\x7d' ∉ s.toList

/-- Texts are without braces if the characters of the first are, and the others. -/
theorem braceless_cons {cs : List Char} {texts : List String}
    (h : (cs.contains '\x7b' || cs.contains '\x7d') = false)
    (htexts : ∀ s ∈ texts, Braceless s) : ∀ s ∈ String.ofList cs :: texts, Braceless s := by
  simp only [List.contains_eq_mem, Bool.or_eq_false_iff, decide_eq_false_iff_not] at h
  refine List.forall_mem_cons.2 ⟨?_, htexts⟩
  rwa [Braceless, String.toList_ofList]

/-- Text without braces stands in a template as it is, and takes no snippet. -/
theorem fillFrom_ofChars_append {cs : List Char} (hopen : '\x7b' ∉ cs) (hclose : '\x7d' ∉ cs)
    {filled : Nat} {rest : List Char} {snippets : List String} {m : Message}
    (h : fillFrom filled (ofChars rest) snippets = .ok m) :
    ∃ m', fillFrom filled (ofChars (cs ++ rest)) snippets = .ok m' ∧
      ∀ emphasise, m'.write emphasise = String.ofList cs ++ m.write emphasise := by
  induction cs with
  | nil => exact ⟨m, h, fun emphasise => by simp⟩
  | cons c cs ih =>
    rw [List.mem_cons, not_or] at hopen hclose
    obtain ⟨m', hm', hwrite⟩ := ih hopen.2 hclose.2
    refine ⟨.text (String.ofList [c]) :: m', ?_, fun emphasise => ?_⟩
    · have hchars : ofChars (c :: (cs ++ rest)) =
          .text (String.ofList [c]) :: ofChars (cs ++ rest) := by
        rw [ofChars]
        · exact fun _ h => absurd h.symm hopen.1
        · exact fun _ h => absurd h.symm hopen.1
        · exact fun _ h => absurd h.symm hclose.1
      rw [List.cons_append, hchars, fillFrom, hm']
      rfl
    · rw [Message.write_cons_text, hwrite, ← String.append_assoc, ← String.ofList_append]
      rfl

/-- A template with a hole for each snippet of a message, and without other braces, is filled by the
snippets, and then it is the message. -/
theorem fill_write {message : Message}
    (h : ∀ s ∈ message.texts, Braceless s) :
    ∃ m, (ofString (message.write fun _ => hole)).fill message.snippets = .ok m ∧
      ∀ emphasise, m.write emphasise = message.write emphasise := by
  suffices hfrom : ∀ filled, ∃ m,
      fillFrom filled (ofChars (message.write fun _ => hole).toList) message.snippets =
        .ok m ∧ ∀ emphasise, m.write emphasise = message.write emphasise from hfrom 0
  induction message with
  | nil => exact fun _ => ⟨[], rfl, fun _ => rfl⟩
  | cons part message ih =>
    intro filled
    cases part with
    | text s =>
      obtain ⟨hs, hmessage⟩ := List.forall_mem_cons.1 h
      obtain ⟨m, hm, hwrite⟩ := ih hmessage filled
      obtain ⟨m', hm', hwrite'⟩ := fillFrom_ofChars_append hs.1 hs.2 hm
      refine ⟨m', ?_, fun emphasise => ?_⟩
      · rw [Message.write_cons_text, String.toList_append]
        exact hm'
      · rw [hwrite', hwrite, Message.write_cons_text, String.ofList_toList]
    | snippet s =>
      obtain ⟨m, hm, hwrite⟩ := ih h (filled + 1)
      refine ⟨.snippet s :: m, ?_, fun emphasise => ?_⟩
      · rw [Message.write_cons_snippet, String.toList_append]
        exact congrArg (Except.map (MessagePart.snippet s :: ·)) hm
      · rw [Message.write_cons_snippet, Message.write_cons_snippet, hwrite]

end Template

/-! ## Templates of faults -/

open Template (hole)

namespace GrammarFault

/-- The template of a fault of the grammar. -/
def template : GrammarFault → String
  | emptyProgram => "empty program"
  | trailingToken _ =>
    String.join ["malformed program, unexpected token '", hole, "' after end of expression"]
  | endOfInput => "unexpected end of input"
  | endOfInputFor _ => String.join ["unexpected end of input, expected ", hole]
  | endOfInputForValue kind => String.join ["unexpected end of input, expected ", kind.noun]
  | unexpected _ _ => String.join ["unexpected token '", hole, "', expected ", hole]
  | misfit kind _ => String.join ["expected ", kind.noun, ", got '", hole, "'"]
  | unsupported _ => String.join ["'", hole, "' is not supported"]
  | cannotStart _ => String.join ["unexpected token '", hole, "' at start of expression"]
  | cannotStartForm _ =>
    String.join ["invalid expression starting with '(' followed by '", hole, "'"]
  | signWithoutNumber _ => String.join ["expected number after '", hole, "'"]
  | literalOutOfRange _ => String.join ["integer literal '", hole, "' out of 32-bit range"]
  | unknownOperator _ _ => String.join ["unknown ", hole, " '", hole, "'"]
  | emptyCond _ => String.join ["'", hole, "' must have at least one case"]
  | duplicateParameter _ _ =>
    String.join ["duplicate parameter '", hole, "' in function '", hole, "'"]

end GrammarFault

namespace ArithmeticFault

/-- The template of a refused operation. -/
def template : ArithmeticFault → String
  | overflow _ => String.join ["integer overflow in '", hole, "'"]
  | divisionByZero _ => String.join ["division by zero in '", hole, "'"]
  | remainderByZero _ => String.join ["modulo by zero in '", hole, "'"]

end ArithmeticFault

namespace Fault

/-- The template of a fault. -/
def template : Fault → String
  | illegalCharacter _ => String.join ["illegal character '", hole, "'"]
  | grammar fault => fault.template
  | notDefinition _ =>
    String.join ["cannot parse functions, '", hole, "' is not a function definition"]
  | definitionExpected _ => String.join ["expected a function definition, got '", hole, "'"]
  | alreadyDefined _ => String.join ["function '", hole, "' is already defined"]
  | noEntry _ => String.join ["no '", hole, "' function defined"]
  | entryTakesArguments _ _ =>
    String.join ["'", hole, "' must take no arguments, but takes ", hole]
  | unboundVariable _ => String.join ["unbound variable '", hole, "'"]
  | undefinedFunction _ => String.join ["undefined function '", hole, "'"]
  | wrongArity _ _ _ =>
    String.join ["'", hole, "' takes ", hole, " argument(s) but ", hole, " were given"]
  | arithmetic fault => fault.template
  | wrongKind expected _ _ =>
    String.join ["expected ", expected.noun, ", got '", hole, "' in '", hole, "'"]
  | noMatchingCase _ => String.join ["no case of '", hole, "' matched"]
  | definitionEvaluated _ => String.join ["function definition '", hole, "' reached the evaluator"]
  | notEvaluable _ => String.join ["cannot evaluate '", hole, "'"]
  | unreadableFile _ => String.join ["'", hole, "' could not be opened"]
  | unrecognized _ => String.join ["unrecognized token '", hole, "'"]

end Fault

/-- The template of a fault is its message with a hole in the place of each snippet. -/
theorem Fault.write_hole (fault : Fault) :
    fault.message.write (fun _ => hole) = fault.template := by
  cases fault with
  | grammar fault => cases fault <;> rfl
  | arithmetic fault => cases fault <;> rfl
  | _ => rfl

open Template (Braceless braceless_cons)

theorem GrammarFault.braceless (fault : GrammarFault) :
    ∀ s ∈ fault.message.texts, Braceless s := by
  cases fault with
  | endOfInputForValue kind =>
    cases kind <;>
    · simp only [message, Message.texts, List.filterMap, ValueKind.noun]
      repeat refine braceless_cons rfl ?_
      exact List.forall_mem_nil _
  | misfit kind t =>
    cases kind <;>
    · simp only [message, Message.texts, List.filterMap, ValueKind.noun]
      repeat refine braceless_cons rfl ?_
      exact List.forall_mem_nil _
  | _ =>
    simp only [message, Message.texts, List.filterMap]
    repeat refine braceless_cons rfl ?_
    exact List.forall_mem_nil _

theorem ArithmeticFault.braceless (fault : ArithmeticFault) :
    ∀ s ∈ fault.message.texts, Braceless s := by
  cases fault <;>
  · simp only [message, Message.texts, List.filterMap]
    repeat refine braceless_cons rfl ?_
    exact List.forall_mem_nil _

/-- No brace is written in the message of a fault, except in its snippets. -/
theorem Fault.braceless (fault : Fault) : ∀ s ∈ fault.message.texts, Braceless s := by
  cases fault with
  | grammar fault => exact fault.braceless
  | arithmetic fault => exact fault.braceless
  | wrongKind expected v e =>
    cases expected <;>
    · simp only [message, Message.texts, List.filterMap, ValueKind.noun]
      repeat refine braceless_cons rfl ?_
      exact List.forall_mem_nil _
  | _ =>
    simp only [message, Message.texts, List.filterMap]
    repeat refine braceless_cons rfl ?_
    exact List.forall_mem_nil _

/-- The snippets of a fault fill the holes of its template, and what they make of it is the message
of the fault, in whatever way snippets are shown. -/
theorem Fault.worded (fault : Fault) :
    ∃ m, (Template.ofString fault.template).fill fault.message.snippets = .ok m ∧
      ∀ emphasise, m.write emphasise = fault.message.write emphasise := by
  rw [← fault.write_hole]
  exact Template.fill_write fault.braceless

end DynLisp
