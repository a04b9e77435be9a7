import DynLisp.Proofs.Decoding
import DynLisp.Proofs.Session.Jobs

/-!
# Files

What becomes of a file is what becomes of its text, if it has one.  Bytes that are the encoding of a
text are loaded as that text with its ends of lines unified, and all that can go wrong then is a
fault of the program, unless a number in the text has too many digits.  A path that nothing can be
read from is a fault too.  Bytes that encode no text end in no fault: the failure of the decoder
passes through.
-/

namespace DynLisp
namespace Session

open DynLisp.Action

variable {path : String} {bytes : List UInt8} {env : Environment}

theorem loadFile_none (hpath : isUsablePath path = true) :
    loadFile path none env = .error (Fault.unreadableFile path).failure env := by
  unfold loadFile
  rw [hpath]
  rfl

theorem loadFile_of_decodes {text : String} (hpath : isUsablePath path = true)
    (hdecode : Utf8.decode bytes = .ok text) :
    loadFile path (some bytes) env = load (Newline.unify text) env := by
  unfold loadFile
  rw [hpath]
  simp only [hdecode]
  rfl

theorem loadFile_of_not_decodes {fault : Utf8.Fault} (hpath : isUsablePath path = true)
    (hdecode : Utf8.decode bytes = .error fault) :
    loadFile path (some bytes) env = .error (.undecodable fault) env := by
  unfold loadFile
  rw [hpath]
  simp only [hdecode]
  rfl

/-- A token stands in the text that some bytes are the encoding of, with its ends of lines
unified. -/
def FileHolds (bytes : Option (List UInt8)) (t : Token) : Prop :=
  ∃ text : String, bytes = some text.toUTF8.data.toList ∧
    (Job.load (Newline.unify text)).Holds t

/-- Reading a file ends well: it does not fail, or it fails with a fault of the program, or at a
number of too many digits in the text of the file. -/
def EndsWell (bytes : Option (List UInt8)) (outcome : Except Failure Unit) : Prop :=
  outcome = .ok () ∨ (∃ fault location, outcome = .error (.error fault location)) ∨
    ∃ failure, outcome = .error failure ∧ failure.Exceeds (FileHolds bytes)

/-- Loading a text ends in nothing but faults of the program and numbers of too many digits. -/
theorem endsWell_load (text : String) (env : Environment) :
    EndsWell (some text.toUTF8.data.toList) ((load (Newline.unify text)).outcome env) := by
  cases h : (load (Newline.unify text)).outcome env with
  | ok a => exact .inl rfl
  | error failure =>
    rcases syntactic_of_load h with hsyntactic | hexceeds
    · obtain ⟨fault, location, rfl, -⟩ := hsyntactic.exists_fault
      exact .inr (.inl ⟨fault, location, rfl⟩)
    · exact .inr (.inr ⟨failure, rfl, hexceeds.mono fun t ht => ⟨text, rfl, ht⟩⟩)

theorem not_endsWell_undecodable {bytes : Option (List UInt8)} {fault : Utf8.Fault} :
    ¬ EndsWell bytes (.error (.undecodable fault)) := by
  rintro (h | ⟨_, _, h⟩ | ⟨_, h, hexceeds⟩)
  · cases h
  · cases h
  · cases h
    cases hexceeds

/-- **Reading a file ends in a fault, if it fails, unless the bytes are no text.**  It ends so for a
path that nothing is read from and for the encoding of whatever text, numbers of too many digits
aside.  Then the text is loaded, with a newline at the end of each line.  For all other bytes the
failure is that of the decoder, which is no fault of the program, and nothing is defined. -/
theorem loadFile_ends (path : String) (bytes : Option (List UInt8)) (env : Environment)
    (hpath : isUsablePath path = true) :
    (EndsWell bytes ((loadFile path bytes).outcome env) ↔
      bytes = none ∨ ∃ text : String, bytes = some text.toUTF8.data.toList) ∧
    (bytes = none → loadFile path bytes env = .error (Fault.unreadableFile path).failure env) ∧
    (∀ text : String, bytes = some text.toUTF8.data.toList →
      loadFile path bytes env = load (Newline.unify text) env) ∧
    ∀ bs, bytes = some bs → (¬ ∃ text : String, text.toUTF8.data.toList = bs) →
      ∃ fault, Utf8.decode bs = .error fault ∧
        loadFile path bytes env = .error (.undecodable fault) env := by
  have hnone : bytes = none →
      loadFile path bytes env = .error (Fault.unreadableFile path).failure env := by
    rintro rfl
    exact loadFile_none hpath
  have htext : ∀ text : String, bytes = some text.toUTF8.data.toList →
      loadFile path bytes env = load (Newline.unify text) env := by
    rintro text rfl
    exact loadFile_of_decodes hpath (Utf8.decode_eq_ok_iff.2 rfl)
  have hother : ∀ bs, bytes = some bs → (¬ ∃ text : String, text.toUTF8.data.toList = bs) →
      ∃ fault, Utf8.decode bs = .error fault ∧
        loadFile path bytes env = .error (.undecodable fault) env := by
    rintro bs rfl hbs
    cases hdecode : Utf8.decode bs with
    | ok text => exact absurd ⟨text, Utf8.decode_eq_ok_iff.1 hdecode⟩ hbs
    | error fault => exact ⟨fault, rfl, loadFile_of_not_decodes hpath hdecode⟩
  refine ⟨⟨fun hends => ?_, ?_⟩, hnone, htext, hother⟩
  · by_contra h
    rw [not_or] at h
    obtain ⟨bs, hbs⟩ := Option.ne_none_iff_exists'.1 h.1
    obtain ⟨fault, -, hrun⟩ := hother bs hbs fun ⟨text, htext⟩ =>
      h.2 ⟨text, hbs.trans (congrArg some htext.symm)⟩
    rw [outcome_of_error hrun] at hends
    exact not_endsWell_undecodable hends
  · rintro (hbytes | ⟨text, hbytes⟩)
    · exact .inr (.inl ⟨_, _, outcome_of_error (hnone hbytes)⟩)
    · rw [Action.outcome, htext text hbytes, hbytes]
      exact endsWell_load text env

/-- A comment that is not in ASCII, with two kinds of ends of lines. -/
theorem loadFile_ends_definition :
    let text := "; \u00e9\r\n(define (main) 7)\r"
    let act := loadFile "p.lisp" (some text.toUTF8.data.toList)
    isUsablePath "p.lisp" = true ∧
      act.outcome .empty = .ok () ∧
      (act.after .empty).functions = [("main", ⟨[], .number 7⟩)] := by
  intro text act
  have hpath : isUsablePath "p.lisp" = true := by decide
  obtain ⟨-, -, htext, -⟩ := loadFile_ends "p.lisp" (some text.toUTF8.data.toList) .empty hpath
  have hload : act .empty = load (Newline.unify text) .empty := htext text rfl
  refine ⟨hpath, ?_, ?_⟩
  · rw [Action.outcome, hload]
    show (load (Newline.unify text)).outcome .empty = .ok ()
    decide +kernel
  · rw [Action.after, hload]
    show ((load (Newline.unify text)).after .empty).functions = _
    decide +kernel

/-- A file of one byte, which leads no character.  Its failure is no fault. -/
theorem loadFile_invalidStart :
    isUsablePath "p.lisp" = true ∧
      (loadFile "p.lisp" (some [0xFF])).outcome .empty =
        .error (.undecodable ⟨.invalidStart, 0, 0xFF, 1⟩) ∧
      ¬ EndsWell (some [0xFF]) ((loadFile "p.lisp" (some [0xFF])).outcome .empty) := by
  have hrun : (loadFile "p.lisp" (some [0xFF])).outcome .empty =
      .error (.undecodable ⟨.invalidStart, 0, 0xFF, 1⟩) :=
    outcome_of_error (loadFile_of_not_decodes (by decide) (by cbv))
  refine ⟨by decide, hrun, ?_⟩
  rw [hrun]
  exact not_endsWell_undecodable

end Session
end DynLisp
