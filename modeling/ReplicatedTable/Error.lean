import ReplicatedTable.Text.Parts
import ReplicatedTable.Text.Span
import ReplicatedTable.Text.Utf8

/-!
# Failures

The causes for which an operation of a node fails, one type per part of the node, and the message of each.
A cause that comes from outside (another engine, the operating system) is `reported` with its text.
-/
namespace ReplicatedTable
open Text

/-- Failures of the file system and of sockets. -/
inductive IoFault where
  | addressInUse
  | fileExists
  | notDirectory
  | notFound
  | nameTooLong
  | nulInName
  | addressNotAvailable
  | reported (text : String)
  deriving DecidableEq, Repr

def IoFault.message : IoFault → String
  | .addressInUse => "Address already in use (os error 98)"
  | .fileExists => "File exists (os error 17)"
  | .notDirectory => "Not a directory (os error 20)"
  | .notFound => "No such file or directory (os error 2)"
  | .nameTooLong => "File name too long (os error 36)"
  | .nulInName => "file name contained an unexpected NUL byte"
  | .addressNotAvailable => "Cannot assign requested address (os error 99)"
  | .reported text => text

/-- Failures of a gossip engine. -/
inductive GossipFault where
  | memberRunning (name : String)
  | addressInUse (address : String)
  | notRunning
  | notRegistered (name : String)
  | alreadyStarted
  | alreadyStopped
  | unreachable (addresses : List String)
  | reported (text : String)
  deriving DecidableEq, Repr

def GossipFault.message : GossipFault → String
  | .memberRunning name => s!"member {name} already running"
  | .addressInUse address => s!"address {address} already in use"
  | .notRunning => "gossip engine not running"
  | .notRegistered name => s!"member {name} not registered"
  | .alreadyStarted => "gossip engine already started"
  | .alreadyStopped => "gossip engine already shut down"
  | .unreachable addresses => s!"none of {quotedList addresses} could be reached"
  | .reported text => text

/-- Failures of a consensus engine. `reachable` and `votes` count the engine itself. -/
inductive ConsensusFault where
  | addressInUse (address : String)
  | alreadyBootstrapped
  | notVoter (id : String)
  | noQuorum
  | electionLost (votes voters : Nat)
  | configurationChanged (expected current : Nat)
  | halted (reason : String)
  | quorumUnavailable (reachable voters : Nat)
  | notAcknowledged (index : Nat)
  | reported (text : String)
  deriving DecidableEq, Repr

def ConsensusFault.message : ConsensusFault → String
  | .addressInUse address => s!"address {address} already in use"
  | .alreadyBootstrapped => "cluster already bootstrapped"
  | .notVoter id => s!"{id} is not a voter"
  | .noQuorum => "no quorum for election"
  | .electionLost votes voters => s!"election lost: {votes} of {voters} votes, log is behind"
  | .configurationChanged expected current =>
    s!"configuration changed: expected index {expected}, at {current}"
  | .halted reason => s!"replica halted: {reason}"
  | .quorumUnavailable reachable voters =>
    s!"quorum unavailable: {reachable} of {voters} voters reachable"
  | .notAcknowledged index => s!"entry {index} not acknowledged by a majority"
  | .reported text => text

/-- What is wrong with bytes that should hold a log entry or a snapshot. -/
inductive CodecFault where
  | emptyEntry
  | unsupportedVersion (version : Nat)
  | cutNumber
  | cutText
  | unknownOperation (number : Nat)
  | badText (fault : Utf8Fault)
  | reported (text : String)
  deriving DecidableEq, Repr

def CodecFault.message : CodecFault → String
  | .emptyEntry => "empty log entry"
  | .unsupportedVersion version => s!"unsupported log format version {version}"
  | .cutNumber => "io error: unexpected end of file"
  | .cutText => "io error: "
  | .unknownOperation number =>
    "invalid value: integer `" ++ toString number ++ "`, expected variant index 0 <= i < 1"
  | .badText fault => s!"string is not valid utf8: {fault.message}"
  | .reported text => text

/-- Why a write was not carried out. -/
inductive WriteFault where
  | notLeader (leader : Option String)
  | expired (ms : Nat)
  | reported (text : String)
  deriving DecidableEq, Repr

def WriteFault.message : WriteFault → String
  | .notLeader leader => "not the leader, current leader is " ++ leader.getD "unknown"
  | .expired ms => s!"not committed within {span ms}"
  | .reported text => text

/-- What is wrong with a request of a client. -/
inductive RequestFault where
  | blankField (field : String)
  | missingHeader (header : String)
  | body (text : String)
  | reported (text : String)
  deriving DecidableEq, Repr

def RequestFault.message : RequestFault → String
  | .blankField field => s!"{field} must not be empty"
  | .missingHeader header => s!"{header} header is required"
  | .body text => s!"invalid body: {text}"
  | .reported text => text

/-- What is wrong with the settings of a node. -/
inductive SettingsFault where
  | blankNodeId
  | blankConsensusAddress
  | nobodyToJoin
  | zeroApplyTimeout
  | reported (text : String)
  deriving DecidableEq, Repr

def SettingsFault.message : SettingsFault → String
  | .blankNodeId => "node_id must not be empty"
  | .blankConsensusAddress => "raft_addr must not be empty"
  | .nobodyToJoin => "non-seed nodes need at least one join address"
  | .zeroApplyTimeout => "apply_timeout_ms must be positive"
  | .reported text => text

/-- Failures inside a node. -/
inductive InternalFault where
  | notificationsTaken
  | panicked (text : String)
  | reported (text : String)
  deriving DecidableEq, Repr

def InternalFault.message : InternalFault → String
  | .notificationsTaken => "leadership notifications already taken"
  | .panicked text => s!"task panicked: task N panicked with message {quoted text}"
  | .reported text => text

/-- Why an operation of a node failed. -/
inductive Error where
  | io (fault : IoFault)
  | malformedMember (member reason : String)
  | gossip (fault : GossipFault)
  | notFound (key : String)
  | codec (fault : CodecFault)
  | fatalApply (index : Nat) (reason : String)
  | notLeader (leader : String)
  | consensus (fault : ConsensusFault)
  | consensusTimeout
  | writeFailed (fault : WriteFault)
  | invalidRequest (fault : RequestFault)
  | invalidSettings (fault : SettingsFault)
  | settings (text : String)
  | shutdown
  | internal (fault : InternalFault)
  deriving DecidableEq, Repr

namespace Error

def message : Error → String
  | .io fault => s!"I/O error: {fault.message}"
  | .malformedMember member reason => s!"Malformed member {member}: {reason}"
  | .gossip fault => s!"Gossip error: {fault.message}"
  | .notFound key => s!"Key not found: {key}"
  | .codec fault => s!"Codec error: {fault.message}"
  | .fatalApply index reason => s!"Fatal apply failure at index {index}: {reason}"
  | .notLeader leader => s!"Not leader: current leader is {leader}"
  | .consensus fault => s!"Consensus error: {fault.message}"
  | .consensusTimeout => "Consensus timeout"
  | .writeFailed fault => s!"Write failed: {fault.message}"
  | .invalidRequest fault => s!"Invalid request: {fault.message}"
  | .invalidSettings fault => s!"Invalid configuration: {fault.message}"
  | .settings text => s!"Configuration error: {text}"
  | .shutdown => "Engine shut down"
  | .internal fault => s!"Internal error: {fault.message}"

/-- The failures that may pass when the operation is tried again.
mirrors `Error.is_retryable` -/
def retryable : Error → Bool
  | .consensusTimeout | .notLeader _ | .writeFailed _ | .gossip _ => true
  | _ => false

/-- Whose fault a failure is, as a client is told. -/
inductive Blame where
  | missing
  | client
  | server
  deriving DecidableEq, Repr

/-- mirrors `Error.to_http_status` -/
def blame : Error → Blame
  | .notFound _ => .missing
  | .invalidRequest _ | .malformedMember _ _ | .invalidSettings _ => .client
  | _ => .server

end Error

/-- Answers can be compared. -/
instance decidableEqAnswer {ε α : Type} [DecidableEq ε] [DecidableEq α] : DecidableEq (Except ε α)
  | .ok a, .ok b => decidable_of_iff (a = b) (by simp)
  | .error a, .error b => decidable_of_iff (a = b) (by simp)
  | .ok _, .error _ => isFalse nofun
  | .error _, .ok _ => isFalse nofun

/-- Gives back a text that a client has to fill in, or reports its field.
mirrors `non_empty` -/
def nonBlank (field value : String) : Except Error String :=
  if blank value then .error (.invalidRequest (.blankField field)) else .ok value

end ReplicatedTable
