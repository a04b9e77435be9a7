/-!
# The machine

What a program can see of the machine that its calls are nested on: how many of them may be active
at the same time, and what remains of them when they become too many.

A call takes its bindings back on every way out.  But taking a binding back is work too, and where
calls are nested too deeply there may be no room left for it.  Then that binding stays, and so do
those of the call that were made before it.  Whether this happens is a matter of the machine alone:
it may depend on how much room there is where the call was made.  A machine that has room to take
back whatever it had room to bind is `Steady`.
-/

namespace DynLisp

/-- A machine that calls are nested on. -/
class Machine where
  /-- How many calls may be active at the same time. -/
  calls : Nat
  /-- How many bindings of a call that is left because calls are nested too deeply stay, where
  `room` more calls could be nested in the place of the call. -/
  kept (room : Nat) : Nat

namespace Machine

/-- What there was room to bind there is room to take back, also where calls are nested too
deeply. -/
def Steady [Machine] : Prop := ∀ room, kept room = 0

/-- The steady machine on which some number of calls may be active at the same time. -/
abbrev ofCalls (calls : Nat) : Machine := ⟨calls, fun _ => 0⟩

end Machine

end DynLisp
