import ReplicatedTable.Cluster.Operation
import ReplicatedTable.Gossip.Operation
import ReplicatedTable.Main
import ReplicatedTable.Node.Rehearsal
import ReplicatedTable.Proofs.Raft.Evolution
import ReplicatedTable.Raft.Recorder
import ReplicatedTable.Supervision.Timetable
import ReplicatedTable.Proofs.Raft.Journal
import ReplicatedTable.Proofs.Raft.Electorate
import ReplicatedTable.Proofs.Raft.Chronicle
import ReplicatedTable.Proofs.Raft.Consensus
import ReplicatedTable.Proofs.Raft.Formation
import ReplicatedTable.Proofs.Raft.Durability
import ReplicatedTable.Proofs.Raft.Attribution
import ReplicatedTable.Proofs.Raft.Acknowledgement
import ReplicatedTable.Proofs.Raft.Rejection
import ReplicatedTable.Proofs.Raft.Catchup
import ReplicatedTable.Proofs.Raft.Resumption
import ReplicatedTable.Proofs.Cluster.Visibility
import ReplicatedTable.Proofs.Raft.Leadership
import ReplicatedTable.Proofs.Raft.Deposition
import ReplicatedTable.Proofs.Raft.Matching
import ReplicatedTable.Proofs.Raft.Configuration
import ReplicatedTable.Proofs.Raft.Joining
import ReplicatedTable.Proofs.Gossip.Round
import ReplicatedTable.Proofs.Gossip.Registration
import ReplicatedTable.Proofs.Gossip.Views
import ReplicatedTable.Proofs.Gossip.Joins
import ReplicatedTable.Proofs.Gossip.Recollection
import ReplicatedTable.Proofs.Gossip.Succession
import ReplicatedTable.Proofs.Cluster.Admission
import ReplicatedTable.Proofs.Gossip.Reaping
import ReplicatedTable.Proofs.Binary
import ReplicatedTable.Proofs.Membership.Bridge
import ReplicatedTable.Proofs.Table.Entry
import ReplicatedTable.Proofs.Table.Snapshot
import ReplicatedTable.Proofs.Raft.Acceptance
import ReplicatedTable.Proofs.Cluster.Acceptance
import ReplicatedTable.Proofs.Supervision.Group
import ReplicatedTable.Proofs.Node.Teardown
import ReplicatedTable.Proofs.Node.Quiescence
import ReplicatedTable.Proofs.Http.Addressing
import ReplicatedTable.Proofs.Table.History
import ReplicatedTable.Proofs.Http.KeyPath
import ReplicatedTable.Proofs.Supervision.Waiting
import ReplicatedTable.Proofs.Node.Interruption
import ReplicatedTable.Proofs.Raft.Candidacy
import ReplicatedTable.Proofs.Raft.Append
import ReplicatedTable.Proofs.Gossip.Reception
import ReplicatedTable.Proofs.Gossip.Hearsay
import ReplicatedTable.Proofs.Node.Advertisement
import ReplicatedTable.Proofs.Raft.Access
import ReplicatedTable.Proofs.Raft.Exchange
import ReplicatedTable.Proofs.Raft.Concordance
