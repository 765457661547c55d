import Knowledge.Sync.Convergence
import Knowledge.Sync.Coherence
import Knowledge.Sync.Compaction
import Knowledge.Sync.Delta
import Knowledge.Sync.Pull
import Knowledge.Sync.Upload
import Knowledge.Sync.Durability
import Knowledge.Replication.SegmentCodec
import Knowledge.Replication.Materialised
import Knowledge.Replication.Lag
import Knowledge.Replication.Fences
import Knowledge.Replication.Reconverge
import Knowledge.Permission.Rollback
import Knowledge.Evidence.Composite
import Knowledge.Evidence.Sharing
import Knowledge.Evidence.Burial
import Knowledge.Evidence.Standby
import Knowledge.Crypto.Joiner
import Knowledge.Memory.Episodic
import Knowledge.Memory.PurgeClock
import Knowledge.Agent.Lifecycle
import Knowledge.Gateway.Admission
import Knowledge.Tenancy.QuotaCache
import Knowledge.Gateway.Quota
import Knowledge.Gateway.RealIp
import Knowledge.Connector.Registrations
import Knowledge.Connector.AclSync
import Knowledge.Connector.Watermark
import Knowledge.Connector.TokenVault
import Knowledge.Connector.ProviderRate
import Knowledge.Substrate.KeyRotation
import Knowledge.Substrate.Routing
import Knowledge.Substrate.Authorisation
import Knowledge.Export.Simulator
import Knowledge.Concept.Persist
import Knowledge.Concept.Incidence
import Knowledge.Concept.Incremental
import Knowledge.Reasoning.Router
import Knowledge.Reasoning.Thoughts
import Knowledge.Reasoning.Traversal
import Knowledge.Reasoning.Partition
import Knowledge.Evidence.Stopwords
import Knowledge.Evidence.Clusters
import Knowledge.Synthesis.TeeWorker
import Knowledge.Synthesis.Windows
import Knowledge.Inference.Bootstrap
import Knowledge.Synthesis.Election
import Knowledge.Sync.Relay
import Knowledge.Synthesis.Augment
import Knowledge.Runtime.SearchText
import Knowledge.Runtime.Oblivion
import Knowledge.Runtime.Tokens
import Knowledge.Runtime.Syncs
import Knowledge.Runtime.SyncScheduler
import Knowledge.Permission.Rehydration
import Knowledge.Tenancy.Persist
import Knowledge.Audit.Consumer
import Knowledge.Audit.Query
