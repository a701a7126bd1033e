import NodeFleet.Main
import NodeFleet.Proofs.AutoDiscovery
import NodeFleet.Proofs.Failure
import NodeFleet.Proofs.LostUpdates
import NodeFleet.Proofs.Fetches
import NodeFleet.Proofs.Pinning
import NodeFleet.Proofs.Configured
import NodeFleet.Proofs.MemberIndex
import NodeFleet.Proofs.Spelling
import NodeFleet.Proofs.Provenance
import NodeFleet.Proofs.Admission
import NodeFleet.Proofs.SizeCells
import NodeFleet.Proofs.SizeProtocol
import NodeFleet.Proofs.Renewal
import NodeFleet.Proofs.Handles
import NodeFleet.Proofs.Continuation
import NodeFleet.Proofs.Churn
import NodeFleet.Proofs.Resolution
import NodeFleet.Proofs.ZeroSettings
import NodeFleet.Proofs.Repetition
import NodeFleet.Proofs.Rounding
import NodeFleet.Proofs.Refusals
import NodeFleet.Proofs.TokenLines
import NodeFleet.Proofs.ListingLines
import NodeFleet.Proofs.Beats
import NodeFleet.Proofs.Delay
import NodeFleet.Proofs.DelayedFetches
import NodeFleet.Proofs.SelectedGroups
import NodeFleet.Proofs.ExplicitFetches
import NodeFleet.Proofs.Refetches
import NodeFleet.Proofs.Ticks
import NodeFleet.Proofs.Pieces
import NodeFleet.Proofs.ExplicitGrammar
import NodeFleet.Proofs.SelectorGrammar
import NodeFleet.Proofs.Commuting
import NodeFleet.Proofs.Retagging
import NodeFleet.Proofs.Alignment
import NodeFleet.Proofs.TagBlindness
import NodeFleet.Proofs.Versions
import NodeFleet.Proofs.LoneWaits
import NodeFleet.Proofs.Queueing
import NodeFleet.Proofs.Intervals
import NodeFleet.Proofs.SizeTurns
import NodeFleet.Proofs.SharedCalls
import NodeFleet.Proofs.ExactNumbers
import NodeFleet.Proofs.Balances
