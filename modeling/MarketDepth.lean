import MarketDepth.Message.Encode
import MarketDepth.Message.Decode
import MarketDepth.Proofs.Landing
import MarketDepth.Proofs.History
import MarketDepth.Proofs.Shortcut
import MarketDepth.Proofs.Gap
import MarketDepth.Proofs.Cycles
import MarketDepth.Proofs.Isolation
import MarketDepth.Proofs.Succession
import MarketDepth.Proofs.Stopping
import MarketDepth.Proofs.Serial
import MarketDepth.Proofs.Accounts
import MarketDepth.Proofs.Requests
import MarketDepth.Proofs.ObjectForm
import MarketDepth.Proofs.Trades
import MarketDepth.Proofs.Replay
import MarketDepth.Proofs.Readings
import MarketDepth.Proofs.LastWrite
import MarketDepth.Proofs.Reports
import MarketDepth.Proofs.ArrayForm
import MarketDepth.Proofs.Scheduled
import MarketDepth.Proofs.Attention
import MarketDepth.Proofs.Instant
import MarketDepth.Proofs.Pauses
import MarketDepth.Proofs.Callers
