import QuorumBlockProcessor.Types
import QuorumBlockProcessor.State
import QuorumBlockProcessor.Scan
import QuorumBlockProcessor.Scheduler
import QuorumBlockProcessor.Pool
import QuorumBlockProcessor.Block
import QuorumBlockProcessor.System
import QuorumBlockProcessor.Lemmas.Keys
import QuorumBlockProcessor.Lemmas.Effects
import QuorumBlockProcessor.Lemmas.Pool
import QuorumBlockProcessor.Lemmas.Cache
import QuorumBlockProcessor.Lemmas.Block
import QuorumBlockProcessor.Lemmas.Reorg
import QuorumBlockProcessor.Lemmas.Replay
import QuorumBlockProcessor.Lemmas.Check
import QuorumBlockProcessor.Lemmas.Store
import QuorumBlockProcessor.Lemmas.Template
import QuorumBlockProcessor.Lemmas.Mining
import QuorumBlockProcessor.Lemmas.Message
import QuorumBlockProcessor.Lemmas.Scan
import QuorumBlockProcessor.IndexedScan
import QuorumBlockProcessor.Lemmas.Safety
import QuorumBlockProcessor.Lemmas.Pending
import QuorumBlockProcessor.Lemmas.IndexedKey
import QuorumBlockProcessor.Lemmas.IndexedScan
import QuorumBlockProcessor.Lemmas.Active
import QuorumBlockProcessor.Upgrade
import QuorumBlockProcessor.Lemmas.Upgrade
