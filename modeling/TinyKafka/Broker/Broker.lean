import TinyKafka.Broker.GroupCoordinator
import TinyKafka.Broker.MetadataHandler
import TinyKafka.Broker.RecordHandler

/-!
# Broker

`Broker::handle` dispatches a request to the handler of its kind. The group coordinator is
shared by the reactors; the contexts belong to the reactor that handles.
-/

namespace TinyKafka

/-- What handling a request reads and changes. -/
structure BrokerState extends LogState where
  coordinator : GroupCoordinator

/-- What the environment answers while a request is handled: the readings of the clock, in
order, and the system calls for each partition. -/
structure BrokerEnv where
  now : ℕ → ℤ
  os : ℕ → ℕ → OsEnv

namespace BrokerState

/-- A record request: the coordinator stays as it is. -/
def records {α : Type} (s : BrokerState) (m : Handler α) (wrap : α → Response) :
    BrokerState × Option Response :=
  let (r, logs) := m.runFrom s.toLogState
  ({ s with toLogState := logs }, r.map wrap)

/-- A group request: the logs stay as they are. -/
def group {α : Type} (s : BrokerState) (r : GroupCoordinator × α) (wrap : α → Response) :
    BrokerState × Option Response :=
  ({ s with coordinator := r.1 }, some (wrap r.2))

end BrokerState

/-- `Broker::handle`; no response is an exception. -/
def Broker.handle (h : RecordHandler) (env : BrokerEnv) (s : BrokerState) :
    Request → BrokerState × Option Response
  | .apiVersions r => (s, some (.apiVersions (MetadataHandler.handleApiVersions r)))
  | .findCoordinator r =>
    (s, some (.findCoordinator (GroupCoordinator.handleFindCoordinator r)))
  | .offsetCommit r => s.group (s.coordinator.handleOffsetCommit r) .offsetCommit
  | .offsetFetch r => s.group (s.coordinator.handleOffsetFetch r) .offsetFetch
  | .joinGroup r => s.group (s.coordinator.handleJoinGroup r (env.now 0)) .joinGroup
  | .heartbeat r => s.group (s.coordinator.handleHeartbeat r (env.now 0)) .heartbeat
  | .leaveGroup r => s.group (s.coordinator.handleLeaveGroup r) .leaveGroup
  | .syncGroup r => s.group (s.coordinator.handleSyncGroup r env.now) .syncGroup
  | .metadata r => (s, some (.metadata (MetadataHandler.handleMetadata h.metadata r)))
  | .listOffsets r => s.records (h.handleListOffsets r) .listOffsets
  | .describeTopicPartitions r =>
    (s, some (.describeTopicPartitions
      (MetadataHandler.handleDescribeTopicPartitions h.metadata r)))
  | .produce r => s.records (h.handleProduce env.os r) .produce
  | .fetch r => s.records (h.handleFetch env.os r) .fetch

end TinyKafka
