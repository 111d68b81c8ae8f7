import Mininet.Lib.BigEndian
import Mininet.Lib.Reader
import Mininet.Crypto
import Mininet.Identity
import Mininet.Chain.Vote
import Mininet.Chain.Equivocation
import Mininet.Consensus.Agreement
import Mininet.Consensus.Wire
import Mininet.Economy.Caps
import Mininet.Economy.Ledger
import Mininet.Execution.Conservation
import Mininet.Execution.Permanence
import Mininet.Execution.Snapshot
import Mininet.Consensus.Commit
import Mininet.Consensus.NoEquivocation
import Mininet.Execution.Replay
import Mininet.Execution.Spends
import Mininet.Economy.Supply
import Mininet.Identity.Assurance
import Mininet.Identity.Recovery
import Mininet.Store.Heads
import Mininet.Store.Discretion
import Mininet.Forge.History
import Mininet.Forge.Amendments
import Mininet.Forge.Applied
import Mininet.Forge.Forks
import Mininet.Settlement.CreditJournal
import Mininet.Treasury.Reshare
import Mininet.Update.Provenance
import Mininet.Custody.Session
import Mininet.Signing.Signers
import Mininet.Sync.Ingest
import Mininet.Uniqueness.Vouching
import Mininet.Bearer.Chunks
import Mininet.Dtn.Fairness
import Mininet.Consensus.ValidatorChannel
import Mininet.Consensus.ChunkedSnapshot
import Mininet.Presence.ReplayGuard
import Mininet.Ticket.Ledger
import Mininet.Objects.Private
import Mininet.Airdrop.Registry
import Mininet.Spacetime.ProofHistory
import Mininet.Uniqueness.Audit
import Mininet.StorageFraud.Lifecycle
import Mininet.Spacetime.Isqrt
