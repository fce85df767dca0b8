import AshA2A.A2ATransport.PushDelivery
import AshA2A.A2ATransport.SSE
import AshA2A.A2ATransport.TaskEvents
import AshA2A.A2ATransport.WebhookPolicy
import AshA2A.Actuator.Fence
import AshA2A.Actuator.Store
import AshA2A.AppendLog
import AshA2A.AuthZEN.Monotonic
import AshA2A.AuthorityService.Issuer
import AshA2A.Calendar
import AshA2A.Climb
import AshA2A.Cluster.DrainManager
import AshA2A.Cluster.Handover
import AshA2A.CommandBus
import AshA2A.Concurrency.Paths
import AshA2A.Concurrency.Program
import AshA2A.Concurrency.Safety
import AshA2A.Concurrency.Server
import AshA2A.ConsequenceKernel.ClaimProtocol
import AshA2A.ConsequenceKernel.EffectClaimStore.File
import AshA2A.ConsequenceKernel.Pipeline
import AshA2A.Crypto
import AshA2A.DropOldest
import AshA2A.Elicitation
import AshA2A.Equilibrium.Switchboard
import AshA2A.Executor
import AshA2A.FinOps.BudgetEnforcer
import AshA2A.FinOps.BudgetStore
import AshA2A.Fleet
import AshA2A.Json.Canonical
import AshA2A.Json.Reading
import AshA2A.Json.Schema
import AshA2A.Json.Spelling
import AshA2A.KillSwitch
import AshA2A.Outcome
import AshA2A.Passport
import AshA2A.Passport.Merkle
import AshA2A.Pieces
import AshA2A.Planning.GoalFacts
import AshA2A.Planning.HddlRenderer
import AshA2A.Planning.Preflight
import AshA2A.PreparedEffectStore.Journal
import AshA2A.Proofs.ActuatorClaims
import AshA2A.Proofs.ActuatorCommitment
import AshA2A.Proofs.ActuatorFold
import AshA2A.Proofs.ActuatorHistory
import AshA2A.Proofs.ActuatorKept
import AshA2A.Proofs.ActuatorOnce
import AshA2A.Proofs.ActuatorRecovery
import AshA2A.Proofs.ActuatorSurvival
import AshA2A.Proofs.AgentWrites
import AshA2A.Proofs.ArgumentNames
import AshA2A.Proofs.Authenticity
import AshA2A.Proofs.Broadcast
import AshA2A.Proofs.BudgetCeiling
import AshA2A.Proofs.BudgetSettlement
import AshA2A.Proofs.CardCodec
import AshA2A.Proofs.CardCoherence
import AshA2A.Proofs.CardFixpoint
import AshA2A.Proofs.CardReading
import AshA2A.Proofs.CardSignatures
import AshA2A.Proofs.ClaimFile
import AshA2A.Proofs.Composition
import AshA2A.Proofs.Conversation
import AshA2A.Proofs.Custody
import AshA2A.Proofs.Delivery
import AshA2A.Proofs.Drain
import AshA2A.Proofs.EffectOnce
import AshA2A.Proofs.ElicitedAnswers
import AshA2A.Proofs.Entailment
import AshA2A.Proofs.EventCodec
import AshA2A.Proofs.FenceScan
import AshA2A.Proofs.FenceSoundness
import AshA2A.Proofs.GoalAdmission
import AshA2A.Proofs.Handover
import AshA2A.Proofs.HddlNames
import AshA2A.Proofs.HookReaction
import AshA2A.Proofs.Inclusion
import AshA2A.Proofs.Issuance
import AshA2A.Proofs.Lawful
import AshA2A.Proofs.NonceLog
import AshA2A.Proofs.NonceReplay
import AshA2A.Proofs.Observed
import AshA2A.Proofs.Ownership
import AshA2A.Proofs.Passport
import AshA2A.Proofs.PassportBinding
import AshA2A.Proofs.PassportTotality
import AshA2A.Proofs.PassportWire
import AshA2A.Proofs.PlanAdmission
import AshA2A.Proofs.PreparedIdentity
import AshA2A.Proofs.PreparedJournal
import AshA2A.Proofs.PreparedStores
import AshA2A.Proofs.PublicAddress
import AshA2A.Proofs.PushTarget
import AshA2A.Proofs.Quorum
import AshA2A.Proofs.Redaction
import AshA2A.Proofs.Refusal
import AshA2A.Proofs.RegistryEdits
import AshA2A.Proofs.RegistryEntries
import AshA2A.Proofs.RegistryFiles
import AshA2A.Proofs.RegistryForward
import AshA2A.Proofs.Restoration
import AshA2A.Proofs.Resubmission
import AshA2A.Proofs.RuleTokens
import AshA2A.Proofs.Serialization
import AshA2A.Proofs.SiemAccounting
import AshA2A.Proofs.Spending
import AshA2A.Proofs.StandingChain
import AshA2A.Proofs.StandingLedger
import AshA2A.Proofs.StandingScan
import AshA2A.Proofs.StandingSeal
import AshA2A.Proofs.Streaming
import AshA2A.Proofs.Surroundings
import AshA2A.Proofs.TaskLifecycle
import AshA2A.Proofs.TaskLog
import AshA2A.Proofs.TermDigest
import AshA2A.Proofs.Totality
import AshA2A.Proofs.TraceTree
import AshA2A.Proofs.TripSurvival
import AshA2A.Proofs.Turns
import AshA2A.Proofs.WorkQueue
import AshA2A.Protocol.Agent
import AshA2A.Protocol.Agent.Runtime
import AshA2A.Protocol.AgentCard
import AshA2A.Protocol.CardSigning
import AshA2A.Protocol.ClientSSE
import AshA2A.Protocol.JSON
import AshA2A.Protocol.JSONRPC
import AshA2A.Protocol.TaskFilter
import AshA2A.ReceiptOutbox.Drain
import AshA2A.Reconciliation
import AshA2A.Sa2aCrypto
import AshA2A.Sa2aCrypto.KeyRef
import AshA2A.Sa2aCrypto.Registry.File
import AshA2A.Scan
import AshA2A.Semantic.BnodeLabel
import AshA2A.Semantic.Evidence
import AshA2A.Semantic.HookReactor
import AshA2A.Semantic.LogicClosure
import AshA2A.Semantic.LogicClosure.RuleDocument
import AshA2A.Semantic.LogicClosure.Tokenizer
import AshA2A.Semantic.PlanPackage
import AshA2A.Semantic.Serialize
import AshA2A.Semantic.Standing
import AshA2A.Telemetry.OcelBroadcaster
import AshA2A.Telemetry.SIEM
import AshA2A.Transport.Principal
import AshA2A.Transport.Runtime
import AshA2A.Semantic.PolicyPhenotype
