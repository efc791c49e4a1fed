/-
**Taking turns.**

Refresh cycles exclude each other.  Whoever wants to run one asks for a turn and gets it when
everybody who asked before is done; a turn that is given up passes to the next in line.  During a
turn its holder notes which instruments were live when it began.

Main definitions:

* `MarketDepth.Requester` — the periodic cycle, or a caller who wants one now;
* `MarketDepth.Turns`, with `Turns.ask`, `Turns.begin`, `Turns.pass` and `Turns.leave`.

Main results:

* `MarketDepth.Turns.line_ask`, `MarketDepth.Turns.line_pass` — **first come, first served**: who
  asks goes to the end of the line, and a passed turn takes its head off.
-/

set_option relaxedAutoImplicit false
set_option autoImplicit false

namespace MarketDepth

/-- Who wants to run a refresh cycle. -/
inductive Requester where
  | periodic
  | caller (number : Nat)
  deriving DecidableEq, Inhabited

/-- A turn: whose it is and, once its cycle has begun, what was live then. -/
structure Turn where
  owner : Requester
  seen? : Option (List String) := none
  deriving DecidableEq, Inhabited

/-- The turn that is on, and who waits for one. -/
structure Turns where
  current? : Option Turn := none
  waiting : List Requester := []
  deriving DecidableEq, Inhabited

namespace Turns

/-- Nobody has a turn or wants one. -/
def free : Turns := {}

/-- Everybody who has a turn or waits for one, in order. -/
def line (turns : Turns) : List Requester :=
  match turns.current? with
  | some turn => turn.owner :: turns.waiting
  | none => turns.waiting

/-- Whether the turn that is on is this requester's. -/
def isHeldBy (turns : Turns) (who : Requester) : Bool :=
  turns.current?.any (·.owner == who)

/-- Asks for a turn, which is granted at once when nobody has one. -/
def ask (turns : Turns) (who : Requester) : Turns :=
  match turns.current? with
  | none => { turns with current? := some { owner := who } }
  | some _ => { turns with waiting := turns.waiting ++ [who] }

/-- Notes what is live as the cycle of the current turn begins. -/
def begin (turns : Turns) (seen : List String) : Turns :=
  { turns with current? := turns.current?.map fun turn => { turn with seen? := some seen } }

/-- Passes the turn to the first in line. -/
def pass (turns : Turns) : Turns :=
  match turns.waiting with
  | [] => { current? := none }
  | next :: waiting => { current? := some { owner := next }, waiting }

/-- Gives up a turn or a place in the line. -/
def leave (turns : Turns) (who : Requester) : Turns :=
  if turns.isHeldBy who then turns.pass
  else { turns with waiting := turns.waiting.erase who }

@[simp] theorem line_free : free.line = [] := rfl

theorem line_ask {turns : Turns} (who : Requester)
    (h : turns.current? = none → turns.waiting = []) :
    (turns.ask who).line = turns.line ++ [who] := by
  cases hc : turns.current? with
  | none => simp [ask, line, hc, h hc]
  | some turn => simp [ask, line, hc]

@[simp] theorem line_begin (turns : Turns) (seen : List String) :
    (turns.begin seen).line = turns.line := by
  unfold begin line
  cases turns.current? <;> rfl

theorem line_pass {turns : Turns} {turn : Turn} (h : turns.current? = some turn) :
    turns.line = turn.owner :: turns.pass.line := by
  cases hw : turns.waiting <;> simp [line, pass, h, hw]

@[simp] theorem waiting_begin (turns : Turns) (seen : List String) :
    (turns.begin seen).waiting = turns.waiting := rfl

end Turns

end MarketDepth
