import NotePublisher.Main
import NotePublisher.Proofs.Text.Fences
import NotePublisher.Proofs.Text.Substitution
import NotePublisher.Proofs.Text.Locality
import NotePublisher.Proofs.Text.Bytes
import NotePublisher.Proofs.Markup.Fences
import NotePublisher.Proofs.Markup.Inert
import NotePublisher.Proofs.Markup.Stages
import NotePublisher.Proofs.Markup.Leftover
import NotePublisher.Proofs.Markup.Pieces
import NotePublisher.Proofs.Markup.LinkBytes
import NotePublisher.Proofs.Markup.Reading
import NotePublisher.Proofs.Markup.Tiling
import NotePublisher.Proofs.Markup.LinkGrammar
import NotePublisher.Proofs.Document.Rewriting
import NotePublisher.Proofs.Document.Renderings
import NotePublisher.Proofs.Document.DiagramSource
import NotePublisher.Proofs.Document.DiagramBlocks
import NotePublisher.Proofs.Document.CommentRegions
import NotePublisher.Proofs.Document.LineByLine
import NotePublisher.Proofs.Disk.Access
import NotePublisher.Proofs.Disk.Walk
import NotePublisher.Proofs.Disk.Anchored
import NotePublisher.Proofs.Disk.Operations
import NotePublisher.Proofs.Document.Location
import NotePublisher.Proofs.Document.Address
import NotePublisher.Proofs.Document.Index
import NotePublisher.Proofs.Document.CanonicalIndex
import NotePublisher.Proofs.Document.LinkTargets
import NotePublisher.Proofs.Document.Linkable
import NotePublisher.Proofs.Vault.Store
import NotePublisher.Proofs.Vault.Index
import NotePublisher.Proofs.Vault.Scanning
import NotePublisher.Proofs.Vault.Run
import NotePublisher.Proofs.Vault.Conservation
import NotePublisher.Proofs.Vault.Republication
import NotePublisher.Proofs.Vault.DryRun
import NotePublisher.Proofs.Vault.Links
import NotePublisher.Proofs.Document.HiddenComments
import NotePublisher.Proofs.Vault.Accounting
import NotePublisher.Proofs.Disk.Treading
import NotePublisher.Proofs.Disk.Effects
import NotePublisher.Proofs.Disk.Paving
import NotePublisher.Proofs.Vault.Storing
import NotePublisher.Proofs.Vault.Salvage
import NotePublisher.Proofs.Vault.Trimming
import NotePublisher.Proofs.Vault.Delivery
import NotePublisher.Proofs.Vault.Alteration
import NotePublisher.Proofs.Vault.Turns
import NotePublisher.Proofs.Vault.Confinement
import NotePublisher.Proofs.Vault.Legibility
import NotePublisher.Proofs.Vault.Naming
import NotePublisher.Proofs.Document.Linkable
import NotePublisher.Proofs.Vault.Linkable
