import BoundaryTag.Word
import BoundaryTag.SizeClass
import BoundaryTag.SizeClass.Bits
import BoundaryTag.SizeClass.Lemmas
import BoundaryTag.Tag
import BoundaryTag.ByteTree
import BoundaryTag.Memory
import BoundaryTag.Memory.Lemmas
import BoundaryTag.Arena
import BoundaryTag.Error
import BoundaryTag.BlockInfo
import BoundaryTag.Journal
import BoundaryTag.Heap.Basic
import BoundaryTag.Heap.FreeList
import BoundaryTag.Heap.Coalesce
import BoundaryTag.Heap.Placement
import BoundaryTag.Heap.QuickList
import BoundaryTag.Heap.Allocate
import BoundaryTag.Heap.Validate
import BoundaryTag.Heap.Release
import BoundaryTag.Heap.Walk
import BoundaryTag.Heap.Verify
import BoundaryTag.Heap.Dump
import BoundaryTag.Client
import BoundaryTag.Request
import BoundaryTag.Ledger
import BoundaryTag.Runs
import BoundaryTag.Shared.Layout
import BoundaryTag.Shared.Setting
import BoundaryTag.Shared.Basic
import BoundaryTag.Shared.Allocator
import BoundaryTag.Shared.Tenancy
import BoundaryTag.Shared.Program
import BoundaryTag.Key
import BoundaryTag.Posix
import BoundaryTag.Posix.Program
import BoundaryTag.Proofs.Access
import BoundaryTag.Proofs.Heap.Guard
import BoundaryTag.Proofs.Heap.Deciding
import BoundaryTag.Proofs.Heap.Wandering
import BoundaryTag.Proofs.Heap.Surveying
import BoundaryTag.Proofs.Ledger.Tiling
import BoundaryTag.Proofs.Ledger.Sound
import BoundaryTag.Proofs.Ledger.Freeing
import BoundaryTag.Proofs.Ledger.Edits
import BoundaryTag.Proofs.Ledger.Returning
import BoundaryTag.Proofs.Ledger.Serving
import BoundaryTag.Proofs.Ledger.Answers
import BoundaryTag.Proofs.Ledger.Alike
import BoundaryTag.Proofs.Heap.Links
import BoundaryTag.Proofs.Heap.Rings
import BoundaryTag.Proofs.Heap.Following
import BoundaryTag.Proofs.Heap.Layout
import BoundaryTag.Proofs.Heap.Writing
import BoundaryTag.Proofs.Heap.Merging
import BoundaryTag.Proofs.Heap.Settling
import BoundaryTag.Proofs.Heap.Showing
import BoundaryTag.Proofs.Heap.Shelving
import BoundaryTag.Proofs.Heap.Growing
import BoundaryTag.Proofs.Heap.Searching
import BoundaryTag.Proofs.Heap.Validating
import BoundaryTag.Proofs.Heap.Refusing
import BoundaryTag.Proofs.Heap.Carving
import BoundaryTag.Proofs.Heap.Requests
import BoundaryTag.Proofs.Heap.Reading
import BoundaryTag.Proofs.Heap.Verifying
import BoundaryTag.Proofs.Heap.Exhausting
import BoundaryTag.Proofs.Heap.Inspecting
import BoundaryTag.Proofs.Heap.Auditing
import BoundaryTag.Proofs.Heap.Guarding
import BoundaryTag.Proofs.Session
import BoundaryTag.Proofs.Integrity
import BoundaryTag.Proofs.Isolation
import BoundaryTag.Proofs.Refinement
import BoundaryTag.Proofs.Ownership
import BoundaryTag.Proofs.Exhaustion
import BoundaryTag.Proofs.Validity
import BoundaryTag.Proofs.Revocation
import BoundaryTag.Proofs.Safety
import BoundaryTag.Proofs.Delivery
import BoundaryTag.Proofs.Contents
import BoundaryTag.Proofs.Independence
import BoundaryTag.Proofs.Economy
import BoundaryTag.Proofs.Resting
import BoundaryTag.Proofs.Tenancy
import BoundaryTag.Proofs.Posix
import BoundaryTag.Proofs.CProgram
import BoundaryTag.Proofs.Ledger.Demand
import BoundaryTag.Proofs.Alignment
import BoundaryTag.Proofs.Growth
import BoundaryTag.Proofs.Resizing
import BoundaryTag.Proofs.Reuse
import BoundaryTag.Proofs.Ascent
import BoundaryTag.Proofs.Geometry
import BoundaryTag.Proofs.Resilience
import BoundaryTag.Proofs.Membership
import BoundaryTag.Proofs.Confinement
import BoundaryTag.Proofs.Ledger.Undoing
import BoundaryTag.Proofs.Heap.Recovering
import BoundaryTag.Proofs.Restoring
import BoundaryTag.Proofs.Ledger.Fusing
import BoundaryTag.Proofs.Confluence
import BoundaryTag.Proofs.Flushing
import BoundaryTag.Proofs.Heap.Rewriting
import BoundaryTag.Proofs.Sequences
import BoundaryTag.Proofs.Consolidation
import BoundaryTag.Proofs.Idempotence
import BoundaryTag.Proofs.Reentry
import BoundaryTag.Proofs.Filing
import BoundaryTag.Proofs.Numerals
