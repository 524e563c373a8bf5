import AgentSupervisor.Main
import AgentSupervisor.Proofs.JsonTokens
import AgentSupervisor.Proofs.Utf8
import AgentSupervisor.Proofs.JsonValues
import AgentSupervisor.Proofs.JsonRoundtrip
import AgentSupervisor.Proofs.JsonShapes
import AgentSupervisor.Proofs.LogRecords
import AgentSupervisor.Proofs.InboxLog
import AgentSupervisor.Proofs.Directory
import AgentSupervisor.Proofs.InboxStore
import AgentSupervisor.Proofs.InboxRuns
import AgentSupervisor.Proofs.InboxCrash
import AgentSupervisor.Proofs.Ledger
import AgentSupervisor.Proofs.InboxSystem
import AgentSupervisor.Proofs.InboxOrder
import AgentSupervisor.Proofs.HealthLooks
import AgentSupervisor.Proofs.Paths
import AgentSupervisor.Proofs.PidText
import AgentSupervisor.Proofs.RequestEffects
import AgentSupervisor.Proofs.SessionTable
import AgentSupervisor.Proofs.Elsewhere
import AgentSupervisor.Proofs.InboxFiles
import AgentSupervisor.Proofs.PidFiles
import AgentSupervisor.Proofs.Announcement
import AgentSupervisor.Proofs.Typing
import AgentSupervisor.Proofs.SharedTerminal
import AgentSupervisor.Proofs.FailedDeliveries
import AgentSupervisor.Proofs.Retention
import AgentSupervisor.Proofs.WireRoundtrip
import AgentSupervisor.Proofs.Conversation
import AgentSupervisor.Proofs.Overlays
import AgentSupervisor.Proofs.SettingValues
import AgentSupervisor.Proofs.LayeredSettings
import AgentSupervisor.Proofs.TomlStrings
import AgentSupervisor.Proofs.TomlLines
import AgentSupervisor.Proofs.TomlDocuments
import AgentSupervisor.Proofs.SoundTables
import AgentSupervisor.Proofs.PrintedSettings
import AgentSupervisor.Proofs.Matching
import AgentSupervisor.Proofs.WholeWords
import AgentSupervisor.Proofs.Recognition
import AgentSupervisor.Proofs.FailedSpawns
import AgentSupervisor.Proofs.ProcessNumbers
import AgentSupervisor.Proofs.Reaping
import AgentSupervisor.Proofs.ProcessOwners
import AgentSupervisor.Proofs.Signalling
import AgentSupervisor.Proofs.ExitCodes
import AgentSupervisor.Proofs.StatusAnswers
import AgentSupervisor.Proofs.DeliveryModes
import AgentSupervisor.Proofs.RefusedZeros
import AgentSupervisor.Proofs.SharedConversation
import AgentSupervisor.Proofs.SharedSocket
import AgentSupervisor.Proofs.InboxCommands
import AgentSupervisor.Proofs.WriteLoop
import AgentSupervisor.Proofs.NewestOutput
import AgentSupervisor.Proofs.LastLines
import AgentSupervisor.Proofs.CollectedOutput
import AgentSupervisor.Proofs.ProgramWords
import AgentSupervisor.Proofs.RequestSpellings
import AgentSupervisor.Proofs.LaunchSources
import AgentSupervisor.Proofs.AbandonedCalls
import AgentSupervisor.Proofs.GeneratedNames
import AgentSupervisor.Proofs.ChildEnvironment
import AgentSupervisor.Proofs.InboxListing
import AgentSupervisor.Proofs.ManyInboxes
import AgentSupervisor.Proofs.InterruptedPrune
import AgentSupervisor.Proofs.PathwiseOverlay
