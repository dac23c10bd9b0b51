import PageLog.Command.Basic
import PageLog.Completion.Handles
import PageLog.Main
import PageLog.Transaction.Desk
import PageLog.Transaction.Rollback
import PageLog.Version.Message
import PageLog.Version.Snapshot
import PageLog.Workspace
import PageLog.Proofs.Act
import PageLog.Proofs.Bytes
import PageLog.Proofs.Disk
import PageLog.Proofs.FrameFormat
import PageLog.Proofs.Frames
import PageLog.Proofs.Scan
import PageLog.Proofs.LogContents
import PageLog.Proofs.LogSession
import PageLog.Proofs.Changes
import PageLog.Proofs.RecordCodec
import PageLog.Proofs.JournalRun
import PageLog.Proofs.ReplayedPages
import PageLog.Proofs.NodePages
import PageLog.Proofs.Chains
import PageLog.Proofs.FreeListSteps
import PageLog.Proofs.Depots
import PageLog.Proofs.CrashConsistency
import PageLog.Proofs.Restarts
import PageLog.Proofs.Ownership
import PageLog.Proofs.PageSteps
import PageLog.Proofs.RestartedReplay
import PageLog.Proofs.StaleFrames
import PageLog.Proofs.CallKinds
import PageLog.Proofs.ReadableDisks
import PageLog.Proofs.RefusedWrites
import PageLog.Proofs.PageWords
import PageLog.Proofs.Rereading
import PageLog.Proofs.PopulatedPages
import PageLog.Proofs.MessageStream
import PageLog.Proofs.Completion
import PageLog.Proofs.TransactionEnds
import PageLog.Proofs.Acknowledgment
import PageLog.Proofs.Batches
import PageLog.Proofs.Quarantine
import PageLog.Proofs.RepeatedChanges
import PageLog.Proofs.VarintForms
import PageLog.Proofs.RecordFormat
import PageLog.Proofs.LogIndependence
import PageLog.Proofs.NodeStacks
import PageLog.Proofs.RefusedSyncs
import PageLog.Proofs.RefusedCalls
import PageLog.Proofs.CutLogs
import PageLog.Proofs.ChangeTargets
import PageLog.Proofs.NodeImages
import PageLog.Proofs.SlotCounts
import PageLog.Proofs.DamagedBytes
import PageLog.Proofs.SplitBatches
import PageLog.Proofs.ReplayPolicies
import PageLog.Proofs.AcknowledgmentAnswers
import PageLog.Proofs.Interleaving
import PageLog.Proofs.Cleanup
import PageLog.Proofs.ChainWalks
import PageLog.Proofs.PageNumbers
import PageLog.Proofs.ListHeads
import PageLog.Proofs.AuditPages
import PageLog.Proofs.Audits
import PageLog.Proofs.CompletionHistory
import PageLog.Proofs.VarintReading
import PageLog.Proofs.FileMedia
