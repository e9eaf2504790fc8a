import VaultSearch.Main
import VaultSearch.Proofs.Index.Records
import VaultSearch.Proofs.Index.RoundTrip
import VaultSearch.Proofs.Index.Seats
import VaultSearch.Proofs.Search.EditDistance
import VaultSearch.Proofs.Search.Expansion
import VaultSearch.Proofs.Search.ExactWeights
import VaultSearch.Proofs.Search.Ranking
import VaultSearch.Proofs.Search.Tally
import VaultSearch.Proofs.Search.Independence
import VaultSearch.Proofs.Search.Meaning
import VaultSearch.Proofs.Search.Scores
import VaultSearch.Proofs.Snapshot.RoundTrip
import VaultSearch.Proofs.Snapshot.CheckSum
import VaultSearch.Proofs.Snapshot.Corruption
import VaultSearch.Proofs.Snapshot.Format
import VaultSearch.Proofs.Snapshot.Acceptance
import VaultSearch.Proofs.Snapshot.Shelf
import VaultSearch.Proofs.Snapshot.FileStore
import VaultSearch.Proofs.Tokenizer.Segments
import VaultSearch.Proofs.Tokenizer.Humps
import VaultSearch.Proofs.Tokenizer.Parts
import VaultSearch.Proofs.Text.Folding
import VaultSearch.Proofs.Text.FinalSigma
import VaultSearch.Proofs.Tokenizer.Recutting
import VaultSearch.Proofs.Tokenizer.Beginnings
import VaultSearch.Proofs.Tokenizer.Shape
import VaultSearch.Proofs.Engine.Contents
import VaultSearch.Proofs.Engine.Runs
import VaultSearch.Proofs.Engine.Coherence
import VaultSearch.Proofs.Engine.Answers
import VaultSearch.Proofs.Engine.SingleDocument
import VaultSearch.Proofs.Engine.Paths
import VaultSearch.Proofs.Engine.Transfer
import VaultSearch.Proofs.Engine.OwnWords
import VaultSearch.Proofs.Engine.QueryCase
import VaultSearch.Proofs.Engine.Rejoining
import VaultSearch.Proofs.Engine.OwnTokens
import VaultSearch.Proofs.Engine.TypeAhead
import VaultSearch.Proofs.Engine.TermShape
import VaultSearch.Proofs.Engine.Moves
import VaultSearch.Proofs.Engine.Interleaving
import VaultSearch.Proofs.Engine.Tidy
import VaultSearch.Proofs.Engine.Loaded
import VaultSearch.Proofs.Engine.Refusal
import VaultSearch.Proofs.Buffer.Delivery
import VaultSearch.Proofs.Buffer.Schedule
import VaultSearch.Proofs.Curator.Batch
import VaultSearch.Proofs.Curator.World
import VaultSearch.Proofs.Curator.Tracking
import VaultSearch.Proofs.Curator.Reports
import VaultSearch.Proofs.Curator.Upkeep
import VaultSearch.Proofs.Curator.Deletions
import VaultSearch.Proofs.Curator.Exclusion
import VaultSearch.Proofs.Curator.Restart
import VaultSearch.Proofs.Curator.Startup
import VaultSearch.Proofs.Curator.Renames
import VaultSearch.Proofs.Files.Locations
import VaultSearch.Proofs.Files.Changes
import VaultSearch.Proofs.Files.Ways
import VaultSearch.Proofs.Files.Renaming
import VaultSearch.Proofs.Files.Documents
import VaultSearch.Proofs.Files.Relocation
import VaultSearch.Proofs.Watch.Moves
import VaultSearch.Proofs.Watch.Folders
import VaultSearch.Proofs.TopK.HeapOrder
import VaultSearch.Proofs.TopK.Bag
import VaultSearch.Proofs.TopK.Best
import VaultSearch.Proofs.TopK.Image
import VaultSearch.Proofs.Lines.Scan
import VaultSearch.Proofs.Lines.Score
import VaultSearch.Proofs.Lines.Selection
import VaultSearch.Proofs.Lines.Highlights
import VaultSearch.Proofs.Lines.Excerpts
import VaultSearch.Proofs.Lines.Windows
import VaultSearch.Proofs.Lines.Reduction
import VaultSearch.Proofs.Lines.Context
import VaultSearch.Proofs.Curator.FileLines
import VaultSearch.Proofs.Query.CommandBlock
import VaultSearch.Proofs.FrontMatter.Header
