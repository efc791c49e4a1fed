/-
**Events that a tracker logs.**

Main definitions:

* `MarketDepth.Role` — the tasks that can fail, with their names;
* `MarketDepth.Event` — **what is worth logging**;
* `MarketDepth.Event.severity`, `MarketDepth.Event.message`, `MarketDepth.Event.fields` — how it is
  logged;
* `MarketDepth.durationText` — the text of a span of time.
-/

import MarketDepth.Fault

set_option relaxedAutoImplicit false
set_option autoImplicit false

namespace MarketDepth

/-! ### Spans of time -/

/-- The digits behind the decimal point for so many thousandths, without trailing zeros. -/
def thousandthsText (thousandths : Nat) : String :=
  let digits := [thousandths / 100 % 10, thousandths / 10 % 10, thousandths % 10]
  let shown := (digits.reverse.dropWhile (· == 0)).reverse
  if shown.isEmpty then "" else "." ++ String.ofList (shown.map Nat.digitChar)

/-- The text of a span of milliseconds: none at all is counted in nanoseconds, less than a second
in milliseconds, and the rest in seconds with as many decimals as it takes. -/
def durationText (milliseconds : Nat) : String :=
  if milliseconds = 0 then "0ns"
  else if milliseconds < 1000 then toString milliseconds ++ "ms"
  else toString (milliseconds / 1000) ++ thousandthsText (milliseconds % 1000) ++ "s"

/-! ### Events -/

/-- The tasks of a tracker by what they do. -/
inductive Role where
  | tradeEmitter
  | diffRouter
  | snapshotRouter
  | refresher
  | worker
  deriving DecidableEq, Inhabited

/-- The name of a task in the log. -/
def Role.name : Role → String
  | tradeEmitter => "trade emitter"
  | diffRouter => "diff router"
  | snapshotRouter => "snapshot router"
  | refresher => "tracking refresher"
  | worker => "book worker"

/-- How much an event matters. -/
inductive Severity where
  | error
  | warn
  | info
  | debug
  | trace
  deriving DecidableEq, Inhabited

/-- The word for a severity in the log. -/
def Severity.name : Severity → String
  | error => "ERROR"
  | warn => "WARN"
  | info => "INFO"
  | debug => "DEBUG"
  | trace => "TRACE"

/-- **What is worth logging.** -/
inductive Event where
  /-- The tracker runs. -/
  | started
  /-- The tracker runs no more. -/
  | stopped
  /-- An instrument was registered. -/
  | trackingStarted (instrument : String)
  /-- An instrument was retired. -/
  | trackingStopped (instrument : String)
  /-- A refresh cycle changed the registry, which now has `tracked` books. -/
  | refreshed (added removed tracked : Nat)
  /-- Report of the diff router. -/
  | diffReport (accepted rejected : Nat)
  /-- Report of the trade emitter. -/
  | tradeReport (accepted rejected : Nat)
  /-- Report of a worker. -/
  | workerReport (instrument : String) (applied stale : Nat)
  /-- A worker skipped a diff that is not newer than its book. -/
  | staleDiff (instrument : String) (updateId uid : UInt64)
  /-- A snapshot was applied and there was no diff to replay. -/
  | nothingBuffered (instrument : String)
  /-- A snapshot was applied; the book now stands at `uid`. -/
  | snapshotApplied (instrument : String) (snapshotId uid : UInt64) (buffered : Nat)
  /-- The first message lost since the last applied snapshot. -/
  | queueFull (instrument : String)
  /-- A snapshot was lost while another had been asked for. -/
  | snapshotLost (instrument : String)
  /-- A task met a fault and pauses. -/
  | failed (role : Role) (fault : Fault) (pause : Nat)
  deriving DecidableEq, Inhabited

namespace Event

/-- How much an event matters. -/
def severity : Event → Severity
  | started | stopped | trackingStarted _ | trackingStopped _ | refreshed .. | diffReport .. =>
      .info
  | tradeReport .. | workerReport .. | snapshotApplied .. => .debug
  | staleDiff .. | nothingBuffered _ => .trace
  | queueFull _ | snapshotLost _ => .warn
  | failed .. => .error

/-- The wording of an event. -/
def message : Event → String
  | started => "Order book tracker started"
  | stopped => "Order book tracker stopped"
  | trackingStarted _ => "Started order book tracking"
  | trackingStopped _ => "Stopped order book tracking"
  | refreshed .. => "Refreshed order book tracking set"
  | diffReport .. => "Diff messages processed"
  | tradeReport .. => "Trade messages processed"
  | workerReport .. => "Processed order book diffs"
  | staleDiff .. => "Skipping stale diff"
  | nothingBuffered _ => "Snapshot applied with no buffered diffs"
  | snapshotApplied .. => "Processed order book snapshot"
  | queueFull _ => "Inbound queue full, dropping messages and requesting a new snapshot"
  | snapshotLost _ => "Snapshot dropped on a full inbound queue, requesting another"
  | failed _ _ pause => "Unexpected error. Retrying after " ++ durationText pause ++ "."

/-- The value of a field of an event. -/
inductive Field where
  | text (value : String)
  | count (value : Nat)
  deriving DecidableEq, Inhabited

/-- The fields of an event by name. -/
def fields : Event → List (String × Field)
  | started | stopped => []
  | trackingStarted instrument | trackingStopped instrument | nothingBuffered instrument
  | queueFull instrument | snapshotLost instrument => [("instrument", .text instrument)]
  | refreshed added removed tracked =>
      [("added", .count added), ("removed", .count removed), ("tracked", .count tracked)]
  | diffReport accepted rejected | tradeReport accepted rejected =>
      [("accepted", .count accepted), ("rejected", .count rejected)]
  | workerReport instrument applied stale =>
      [("instrument", .text instrument), ("applied", .count applied), ("stale", .count stale)]
  | staleDiff instrument updateId uid =>
      [("instrument", .text instrument), ("update_id", .count updateId.toNat),
       ("snapshot_uid", .count uid.toNat)]
  | snapshotApplied instrument snapshotId uid buffered =>
      [("instrument", .text instrument), ("snapshot_id", .count snapshotId.toNat),
       ("snapshot_uid", .count uid.toNat), ("buffered", .count buffered)]
  | failed role fault _ =>
      [("task", .text role.name), ("error", .text fault.message)]

end Event

end MarketDepth
