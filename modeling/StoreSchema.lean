import StoreSchema.Main
import StoreSchema.Command.Directory
import StoreSchema.Proofs.Json.Depth
import StoreSchema.Proofs.Json.Distinct
import StoreSchema.Proofs.Property.Parts
import StoreSchema.Proofs.Locality
import StoreSchema.Proofs.Embedding
import StoreSchema.Proofs.WellFormed
import StoreSchema.Proofs.Bindings
import StoreSchema.Proofs.Acceptance
import StoreSchema.Proofs.Routine.Script
import StoreSchema.Proofs.Routine.Texts
import StoreSchema.Proofs.Termination
import StoreSchema.Proofs.Interchange
import StoreSchema.Proofs.TypeBlocks
import StoreSchema.Proofs.TypeBlockRemoval
import StoreSchema.Proofs.Annotations.SameSchema
import StoreSchema.Proofs.Annotations.Inert
import StoreSchema.Proofs.Inlining
import StoreSchema.Proofs.Overlay.Path
import StoreSchema.Proofs.Overlay.Order
import StoreSchema.Proofs.Independence
import StoreSchema.Proofs.Everywhere
import StoreSchema.Proofs.Overlay.Invariants
import StoreSchema.Proofs.Regular
import StoreSchema.Proofs.Identifiers
import StoreSchema.Proofs.Blanks
import StoreSchema.Proofs.Registered
import StoreSchema.Proofs.Overlay.Distinct
import StoreSchema.Proofs.Exclusion
import StoreSchema.Proofs.Overlay.Effect
import StoreSchema.Proofs.Precedence
import StoreSchema.Proofs.Json.Lexing
import StoreSchema.Proofs.Json.Readback
import StoreSchema.Proofs.Json.Layout
import StoreSchema.Proofs.Json.Rounding
import StoreSchema.Proofs.Representations
import StoreSchema.Proofs.Printed
import StoreSchema.Proofs.Overlay.PartialEffect
import StoreSchema.Proofs.CommandLine
import StoreSchema.Proofs.Property.Unblocked
import StoreSchema.Proofs.Attributes.Merging
import StoreSchema.Proofs.Attributes.Conservative
import StoreSchema.Proofs.Property.Correspondence
import StoreSchema.Proofs.References.Blocks
import StoreSchema.Proofs.References.Idle
import StoreSchema.Proofs.Index.Described
import StoreSchema.Proofs.Index.Notations
import StoreSchema.Proofs.Object.Fields
import StoreSchema.Proofs.Object.Depth
import StoreSchema.Proofs.Object.Required
import StoreSchema.Proofs.Pointers.Steps
import StoreSchema.Proofs.Pointers.References
import StoreSchema.Proofs.Pointers.UnknownTypes
import StoreSchema.Proofs.Property.Identifier
import StoreSchema.Proofs.Index.Binding
import StoreSchema.Proofs.Object.Insertion
import StoreSchema.Proofs.FirstMissing
import StoreSchema.Proofs.Overlay.Twice
import StoreSchema.Proofs.Property.Arrays
