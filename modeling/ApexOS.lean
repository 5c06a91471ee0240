import ApexOS.Lib.Json
import ApexOS.Lib.Incremental
import ApexOS.Lib.LittleEndian
import ApexOS.Lib.Numeral
import ApexOS.Lib.Run
import ApexOS.Lib.Script
import ApexOS.Lib.Saturating
import ApexOS.Lib.SlidingWindow
import ApexOS.Lib.Slots
import ApexOS.Lib.Table
import ApexOS.Lib.Toml
import ApexOS.Lib.Utf8
import ApexOS.Mesh.Chunk
import ApexOS.Mesh.Replay
import ApexOS.Mesh.Types
import ApexOS.Mesh.Inbox
import ApexOS.Mesh.Crypto
import ApexOS.Mesh.Envelope
import ApexOS.Mesh.Frame
import ApexOS.Mesh.Router
import ApexOS.Brainstem.Store
import ApexOS.Brainstem.Counter
import ApexOS.Brainstem.Radio
import ApexOS.Brainstem.Air
import ApexOS.Brainstem.Outbox
import ApexOS.Brainstem.Provisioning
import ApexOS.Bridge.Colony
import ApexOS.Bridge.Line
import ApexOS.Agentd.Policy
import ApexOS.Agentd.PolicyOrder
import ApexOS.Agentd.Connectivity
import ApexOS.Agentd.Evolution
import ApexOS.Agentd.Supervisor
import ApexOS.Agentd.FurtherArgument
import ApexOS.Agentd.State
import ApexOS.Agentd.Registry
import ApexOS.Agentd.Goal
import ApexOS.Agentd.AwaitingBatch
import ApexOS.Agentd.GoalLife
import ApexOS.Agentd.Autonomy
import ApexOS.Agentd.Scheduler
import ApexOS.Agentd.TurnGate
import ApexOS.Agentd.Transcripts
import ApexOS.Agentd.Conversation
import ApexOS.Agentd.History
import ApexOS.Agentd.SessionIndex
import ApexOS.Agentd.Rollback
import ApexOS.Agentd.UndoCodec
import ApexOS.Agentd.Provider
import ApexOS.Agentd.TurnEngine
import ApexOS.Agentd.Anthropic
import ApexOS.Agentd.AnthropicRequest
import ApexOS.Agentd.Oai
import ApexOS.Agentd.OaiRequest
import ApexOS.Agentd.Streams
import ApexOS.Agentd.Trim
import ApexOS.Fabrica.Review
import ApexOS.Fabrica.Mandala
import ApexOS.Fabrica.Remote
import ApexOS.Fabrica.Worker
import ApexOS.Fabrica.Cells
import ApexOS.Fabrica.Driver
import ApexOS.Fabrica.Loop
import ApexOS.Fabrica.Lineage
import ApexOS.Fabrica.Moves
import ApexOS.Fabrica.Handling
import ApexOS.Fabrica.Acts
import ApexOS.Fabrica.Boot
import ApexOS.Fabrica.Slots
import ApexOS.Fabrica.Durable
import ApexOS.Fabrica.Trail
import ApexOS.Fabrica.Arming
import ApexOS.Fabrica.Inheritance
import ApexOS.Fabrica.Trees
import ApexOS.Fabrica.Growth
import ApexOS.Fabrica.Bus
import ApexOS.Fabrica.Mirrors
import ApexOS.Courier.Outbox
import ApexOS.Courier.Plug
import ApexOS.Courier.Shipments
import ApexOS.Courier.Aboard
import ApexOS.Courier.Cargo
import ApexOS.Courier.Receipts
import ApexOS.Courier.Drain
import ApexOS.Courier.SealedJson
import ApexOS.Deploy.SelfUpdate
import ApexOS.Deploy.Verdict
import ApexOS.Deploy.UpdateHandler
import ApexOS.Lib.CompactDigraph
import ApexOS.Lib.Words
import ApexOS.Lib.PathWalk
import ApexOS.Agentd.Confine
import ApexOS.Lib.Inodes
import ApexOS.Agentd.Beneath
import ApexOS.Agentd.McpClient
import ApexOS.Agentd.Pairing
import ApexOS.Lib.Breaker
import ApexOS.Agentd.Login
import ApexOS.Agentd.MeshHops
import ApexOS.Lib.Recent
import ApexOS.Mesh.SeenCache
import ApexOS.Brainstem.Neighbors
import ApexOS.Agentd.RadioInbox
import ApexOS.Lib.RateLimit
import ApexOS.Agentd.RadioGossip
import ApexOS.Agentd.Identities
import ApexOS.Agentd.Sockets
import ApexOS.Lib.TomlText
import ApexOS.Courier.StickMarker
import ApexOS.Cerebro.Types
import ApexOS.Cerebro.Graph
import ApexOS.Cerebro.Coordinator
import ApexOS.Cerebro.Memory
import ApexOS.Cerebro.Reading
import ApexOS.Cerebro.Remember
import ApexOS.Cerebro.Vectors
import ApexOS.Cerebro.Tags
import ApexOS.Cerebro.TagLookup
import ApexOS.Cerebro.Spreading
import ApexOS.Cerebro.HashOrder
import ApexOS.Cerebro.Recall
import ApexOS.Cerebro.Interleaving
import ApexOS.Cerebro.Versions
import ApexOS.Cerebro.Ingest
import ApexOS.Cerebro.Html
import ApexOS.Cerebro.Migration
import ApexOS.Cerebro.VectorSearch
