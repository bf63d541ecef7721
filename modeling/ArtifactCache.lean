import ArtifactCache.Entry.Json
import ArtifactCache.Proofs.Crew.Delivery
import ArtifactCache.Proofs.Index.Accounting
import ArtifactCache.Proofs.Index.Recency
import ArtifactCache.Proofs.Replay.Summary
import ArtifactCache.Proofs.Store.Adoption
import ArtifactCache.Proofs.Store.Agreement
import ArtifactCache.Proofs.Store.Confinement
import ArtifactCache.Proofs.Store.Listing
import ArtifactCache.Proofs.Store.Rebuild
import ArtifactCache.Proofs.Store.Reopening
import ArtifactCache.Proofs.Store.Safety
import ArtifactCache.Settings.Load
import ArtifactCache.Sweeper.Schedule
import ArtifactCache.Proofs.Replay.Refusal
import ArtifactCache.Proofs.Entry.Blame
import ArtifactCache.Proofs.Sweeper.Books
import ArtifactCache.Proofs.Sweeper.Idle
import ArtifactCache.Proofs.Json.Changes
import ArtifactCache.Proofs.Settings.Patch
import ArtifactCache.Proofs.Settings.Precedence
