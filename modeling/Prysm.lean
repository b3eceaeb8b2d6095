import Prysm.Types
import Prysm.Sync.RangeRequest
import Prysm.Sync.FilterBlocks
import Prysm.Sync.BlocksByRange
import Prysm.Sync.RangeServer
import Prysm.Sync.RangeResponse
import Prysm.Sync.SendRequest
import Prysm.Sync.InitialSync
import Prysm.Sync.GossipBlocks
import Prysm.ForkChoice.Votes
import Prysm.Validator.ProposalHistory
import Prysm.Validator.InterchangeFormat
import Prysm.ForkChoice.Nodes
import Prysm.Epoch.Precompute
import Prysm.Sync.RegularSync
import Prysm.Rpc.Blocks
import Prysm.Validator.ProposedKeys
import Prysm.Sync.InitialSyncService
import Prysm.Sync.RoundRobin
import Prysm.Blockchain.ProcessAttestation
