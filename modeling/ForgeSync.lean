import ForgeSync.Main
import ForgeSync.Convergence.Operation
import ForgeSync.Forge.MemoryFactory
import ForgeSync.Forge.Scripted
import ForgeSync.Json.Reader
import ForgeSync.Proofs.Forge.Footprint
import ForgeSync.Proofs.Memory.Log
import ForgeSync.Proofs.Pass.Stages
import ForgeSync.Proofs.Pass.Footprint
import ForgeSync.Proofs.Pass.Gate
import ForgeSync.Proofs.Pass.Storing
import ForgeSync.Proofs.Pass.Runs
import ForgeSync.Proofs.Memory.Calls
import ForgeSync.Proofs.Pass.Orphans
import ForgeSync.Proofs.Memory.Listing
import ForgeSync.Proofs.Repository.DeployKey
import ForgeSync.Proofs.Repository.KeyDelta
import ForgeSync.Proofs.Memory.Acceptance
import ForgeSync.Proofs.Memory.Commit
import ForgeSync.Proofs.Memory.Tokens
import ForgeSync.Proofs.Memory.Settlement
import ForgeSync.Proofs.Memory.VariableItems
import ForgeSync.Proofs.Memory.Variables
import ForgeSync.Proofs.Memory.Keys
import ForgeSync.Proofs.Memory.Contents
import ForgeSync.Proofs.Memory.TokenNames
import ForgeSync.Proofs.Pass.Aim
import ForgeSync.Proofs.Pass.Living
import ForgeSync.Proofs.Pass.Result
import ForgeSync.Proofs.Pass.Arrival
import ForgeSync.Proofs.Pass.Settled
import ForgeSync.Proofs.Pass.Healing
import ForgeSync.Proofs.Pass.Effect
import ForgeSync.Proofs.Pass.NewRepository
import ForgeSync.Proofs.Pass.Turns
import ForgeSync.Proofs.Pass.Ownership
import ForgeSync.Proofs.Pass.Staleness
import ForgeSync.Proofs.Pass.PinnedPolicy
import ForgeSync.Proofs.Forge.Interference
import ForgeSync.Proofs.Memory.Surroundings
import ForgeSync.Proofs.Memory.Minting
import ForgeSync.Proofs.Pass.Work
import ForgeSync.Proofs.Pass.Writes
import ForgeSync.Proofs.Pass.Failing
import ForgeSync.Proofs.Pass.Surroundings
import ForgeSync.Proofs.Pass.Disturbed
import ForgeSync.Proofs.Pass.Vault
import ForgeSync.Proofs.GitLab.Retry
import ForgeSync.Proofs.Store.Calls
import ForgeSync.Proofs.Store.Lives
import ForgeSync.Proofs.Pass.Release
import ForgeSync.Proofs.Pass.Removal
import ForgeSync.Proofs.Memory.Undisturbed
import ForgeSync.Proofs.Memory.Update
import ForgeSync.Proofs.Memory.Syncing
import ForgeSync.Proofs.Memory.Effects
import ForgeSync.Proofs.Memory.Renaming
import ForgeSync.Proofs.Pass.Undisturbed
import ForgeSync.Proofs.Pass.Adoption
import ForgeSync.Proofs.Pass.Replay
import ForgeSync.Proofs.Pass.Uniform
import ForgeSync.Proofs.Pass.Commuting
import ForgeSync.Proofs.Calendar.Date
import ForgeSync.Proofs.Calendar.Timestamp
import ForgeSync.Proofs.Json.Scanning
import ForgeSync.Proofs.Json.RoundTrip
import ForgeSync.Proofs.Datum.Fields
import ForgeSync.Proofs.Owner.RoundTrip
import ForgeSync.Proofs.Owner.VariableTrace
import ForgeSync.Proofs.Forge.Recording
import ForgeSync.Proofs.Scripted.Calls
import ForgeSync.Proofs.Forge.KeyDeletions
import ForgeSync.Proofs.Scripted.KeyReplacement
import ForgeSync.Proofs.Forge.Circling
import ForgeSync.Proofs.GitLab.Listings
import ForgeSync.Proofs.GitLab.Circling
import ForgeSync.Proofs.Forge.TokenSelection
import ForgeSync.Proofs.GitLab.Requests
import ForgeSync.Proofs.GitLab.TokenDates
import ForgeSync.Proofs.Forge.CompleteListing
import ForgeSync.Proofs.Url.Percent
import ForgeSync.Proofs.Url.Segments
import ForgeSync.Proofs.GitLab.Targets
import ForgeSync.Proofs.Registry.Resolution
