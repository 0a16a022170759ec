import CodeSeeX.Core.ContextRedaction
import CodeSeeX.Proxy.ToolStream
import CodeSeeX.Store.Accounts
import CodeSeeX.Proxy.ContinuationMerge
import CodeSeeX.Proxy.CanonicalRuns
import CodeSeeX.Proxy.RelayChunking
import CodeSeeX.Proxy.RelayFinalization
import CodeSeeX.Proxy.RelaySequence
import CodeSeeX.Proxy.ChatArrivals
import CodeSeeX.Proxy.LoopMessages
import CodeSeeX.Proxy.PricingSync
import CodeSeeX.Proxy.CompactionContinuity
import CodeSeeX.Store.ResponseChain
import CodeSeeX.Store.UsageFallback
import CodeSeeX.Store.Anchors
import CodeSeeX.Proxy.BudgetTotal
import CodeSeeX.Proxy.BudgetShrink
import CodeSeeX.Core.ResultsKept
import CodeSeeX.Proxy.StreamSlots
import CodeSeeX.Store.UsageRevision
import CodeSeeX.Store.EventPages
import CodeSeeX.Proxy.SaveConfig
import CodeSeeX.Store.DiagnosticMerge
import CodeSeeX.Proxy.SummaryStreaming
import CodeSeeX.Proxy.ToolPlan
import CodeSeeX.Core.BillingPeriods
import CodeSeeX.Proxy.LocalAccess
import CodeSeeX.Proxy.FactWindows
import CodeSeeX.Core.PriceOverrides
import CodeSeeX.Core.ModelOverrides
import CodeSeeX.Proxy.ToolNames
import CodeSeeX.Proxy.CallConsistency
import CodeSeeX.Proxy.OutputGrouping
import CodeSeeX.Proxy.InlineMediaBound
import CodeSeeX.Proxy.PageAccounts
import CodeSeeX.Proxy.DirectoryPaging
import CodeSeeX.Proxy.WorkspacePaths
import CodeSeeX.Proxy.WorkspaceSearch
import CodeSeeX.Proxy.PatchStreaming
import CodeSeeX.Proxy.PassthroughUsage
import CodeSeeX.Core.EndpointUrls
import CodeSeeX.Core.CatalogRevisions
import CodeSeeX.Core.TimeZoneOffsets
import CodeSeeX.Proxy.CommandLine
import CodeSeeX.Proxy.MirrorCapacity
import CodeSeeX.Store.HandoffGuard
import CodeSeeX.Proxy.BudgetedInput
import CodeSeeX.Proxy.RecalledFacts
import CodeSeeX.Proxy.HostedBudgets
