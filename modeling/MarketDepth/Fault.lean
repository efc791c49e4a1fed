/-
**What can go wrong, and how it is put into words.**

Main definitions:

* `MarketDepth.Fault` — the causes of failure;
* `MarketDepth.Fault.message` — the wording of each.

Messages that are merely late or about an instrument that nobody follows are no faults: they are
counted, not raised.
-/

import MarketDepth.Message

set_option relaxedAutoImplicit false
set_option autoImplicit false

namespace MarketDepth

/-- The causes of failure. -/
inductive Fault where
  /-- A configuration that cannot work. -/
  | config (reason : String)
  /-- A message of kind `kind` came in on a stream that carries another kind. -/
  | unexpectedMessage (kind : Kind) (stream : String)
  /-- Nobody takes messages from the instrument's queue any more. -/
  | queueClosed (instrument : String)
  /-- The directory of instruments could not be read. -/
  | dataSource (reason : String)
  /-- The tracker had been started before. -/
  | alreadyStarted
  /-- The tracker has been stopped for good. -/
  | stopped
  deriving DecidableEq, Inhabited

/-- The wording of a fault. -/
def Fault.message : Fault → String
  | config reason => "Configuration error: " ++ reason
  | unexpectedMessage kind stream =>
      "Unexpected " ++ kind.name ++ " message on the " ++ stream ++ " stream"
  | queueClosed instrument => "Inbound queue closed for " ++ instrument
  | dataSource reason => "Data source error: " ++ reason
  | alreadyStarted => "Tracker already started"
  | stopped => "Tracker stopped"

end MarketDepth
