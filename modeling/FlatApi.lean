import FlatApi.Main
import FlatApi.FileSystem
import FlatApi.Proofs.Drafts
import FlatApi.Proofs.Registry
import FlatApi.Proofs.Visit
import FlatApi.Proofs.Faults
import FlatApi.Proofs.Accounts
import FlatApi.Proofs.Exports
import FlatApi.Proofs.Appending
import FlatApi.Proofs.Presentation
import FlatApi.Proofs.Pruning
import FlatApi.Proofs.Refusals
import FlatApi.Proofs.Artifact
import FlatApi.Proofs.Agreement
import FlatApi.Proofs.Identifiers
import FlatApi.Proofs.Overrides
import FlatApi.Proofs.Respelling
import FlatApi.Proofs.Flattening
import FlatApi.Proofs.Tour
import FlatApi.Proofs.FileSystem
import FlatApi.Proofs.Commit
import FlatApi.Proofs.Codegen
import FlatApi.Proofs.Parameters
import FlatApi.Proofs.Manifest
import FlatApi.Proofs.Rewriting
import FlatApi.Proofs.Forwarding
import FlatApi.Proofs.Probing
import FlatApi.Proofs.Results
import FlatApi.Proofs.Unnumbered
import FlatApi.Proofs.Reordering
import FlatApi.Proofs.Spelling
import FlatApi.Proofs.TypeTable
import FlatApi.Proofs.QualifiedNames
import FlatApi.Proofs.Indentation
import FlatApi.Proofs.Sanitizing
import FlatApi.Proofs.Naming
