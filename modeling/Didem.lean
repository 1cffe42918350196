import Didem.Lib.Outcome
import Didem.Lib.Run
import Didem.Lib.Quorum
import Didem.Lib.Writes
import Didem.Lib.Proc
import Didem.Lib.Tracks
import Didem.Lib.Triple
import Didem.Lib.Merkle
import Didem.Lib.Code
import Didem.Lib.Utf8
import Didem.Lib.Url
import Didem.Lib.Bufio
import Didem.Lib.Heap
import Didem.Lib.Timer
import Didem.Lib.Threads
import Didem.Lib.Linear
import Didem.Lib.FanOut
import Didem.Lib.WorkerPool
import Didem.Lib.WorkerPool.Sound
import Didem.Lib.WorkerPool.Return
import Didem.Storage.Cid
import Didem.Storage.Tx
import Didem.Storage.Document
import Didem.Storage.Chain
import Didem.Storage.Store
import Didem.Storage.TxSet
import Didem.Storage.MemStore
import Didem.Storage.Ipfs
import Didem.Storage.Faulty
import Didem.Storage.Validator
import Didem.Storage.Sample
import Didem.Storage.Proof.Authorised
import Didem.Storage.Proof.CatchUp
import Didem.Storage.Proof.Trial
import Didem.Storage.Proof.Indexed
import Didem.Storage.Proof.Tables
import Didem.Storage.Proof.MetadataKeys
import Didem.Storage.Proof.MapOrder
import Didem.Storage.Proof.Content
import Didem.Storage.Proof.TxSets
import Didem.Storage.Proof.BlockStates
import Didem.Storage.Proof.NodeSet
import Didem.Storage.Proof.Fold
import Didem.Storage.Proof.Replay
import Didem.Storage.Proof.TwoStores
import Didem.Storage.Proof.Totality
import Didem.Storage.Proof.Atomic
import Didem.Storage.Proof.Reachable
import Didem.Storage.Proof.Genesis
import Didem.Storage.Proof.Isolation
import Didem.Storage.Proof.Novelty
import Didem.Storage.Proof.AddedOnce
import Didem.Storage.Proof.DidHistory
import Didem.Utils.Resync
import Didem.Utils.Proof.Resync
import Didem.Consensus.Msg
import Didem.Consensus.MemPool
import Didem.Consensus.State
import Didem.Consensus.Blocks
import Didem.Consensus.Handlers
import Didem.Consensus.Node
import Didem.Consensus.Network
import Didem.Consensus.P2P
import Didem.Consensus.Machine
import Didem.Consensus.Sample
import Didem.Consensus.Proof.Simulation
import Didem.Consensus.Proof.VoteBook
import Didem.Consensus.Proof.Validated
import Didem.Consensus.Proof.Equivocation
import Didem.Consensus.Proof.Certificate
import Didem.Consensus.Proof.History
import Didem.Consensus.Proof.Agreement
import Didem.Consensus.Proof.Frame
import Didem.Consensus.Proof.Restart
import Didem.Consensus.Proof.Priority
import Didem.Consensus.Proof.MakeBlock
import Didem.Consensus.Proof.Conservation
import Didem.Consensus.Proof.Crash
import Didem.Consensus.Proof.Threshold
import Didem.Consensus.Proof.NilVotes
import Didem.Consensus.Proof.Records
import Didem.Consensus.Proof.Evidence
import Didem.Consensus.Proof.Authentic
import Didem.Consensus.Proof.Proposer
import Didem.Consensus.Proof.Steps
import Didem.Consensus.Proof.Recommit
import Didem.Consensus.Proof.FailedCommit
import Didem.Consensus.Proof.Keys
import Didem.Consensus.PoolThreads
import Didem.Consensus.Proof.PoolThreads
import Didem.Consensus.Proof.Racing
import Didem.Consensus.Timers
import Didem.Consensus.Proof.Timed
import Didem.Consensus.Proof.Watchdog
import Didem.Consensus.Beacon
import Didem.Consensus.Proof.Beacon
import Didem.Genesis.Generate
import Didem.Genesis.Proof.Launch
import Didem.Stream.RW
import Didem.Stream.Proof.RoundTrip
import Didem.Sync.Handler
import Didem.Sync.Proof.Tip
import Didem.Sync.Exchange
import Didem.Sync.Proof.Exchange
import Didem.Sync.Proof.Tally
import Didem.Sync.Proof.Sampling
import Didem.Cryptography.Ecdsa
import Didem.Resolver.Dns
import Didem.Resolver.Proof.Bounded
import Didem.Comm.Message
import Didem.Comm.Session
import Didem.Comm.Proof.Delivery
import Didem.Comm.Proof.Matching
import Didem.Comm.Proof.Signatures
import Didem.Comm.Send
import Didem.Comm.Proof.Send
import Didem.Comm.Proof.Connect
import Didem.Comm.Handler
import Didem.Api.Send
import Didem.Api.Proof.Send
import Didem.Identity.FileStore
import Didem.Identity.Proof.Coherence
import Didem.Node.Discovery
import Didem.Node.Proof.Discovery
