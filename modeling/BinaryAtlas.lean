import BinaryAtlas.Analysis.Rehearsal
import BinaryAtlas.Deadline
import BinaryAtlas.Decoder.Toy
import BinaryAtlas.Session
import BinaryAtlas.Space.Declarations
import BinaryAtlas.Space.Undo
import BinaryAtlas.Report.Spaces
import BinaryAtlas.Request.Fields
import BinaryAtlas.Request.Plan
import BinaryAtlas.Proofs.TableSearch
import BinaryAtlas.Proofs.PatchLog.Cutting
import BinaryAtlas.Proofs.PatchLog.Joining
import BinaryAtlas.Proofs.PatchLog.Editing
import BinaryAtlas.Proofs.PatchLog.Marking
import BinaryAtlas.Proofs.PatchLog.Refinement
import BinaryAtlas.Proofs.Storage.Bytes
import BinaryAtlas.Proofs.Storage.Tracking
import BinaryAtlas.Proofs.SegmentMap.Layers
import BinaryAtlas.Proofs.LongestPrefix
import BinaryAtlas.Proofs.SegmentMap.Reading
import BinaryAtlas.Proofs.SegmentMap.Writing
import BinaryAtlas.Proofs.Space.Keeping
import BinaryAtlas.Proofs.Space.Writing
import BinaryAtlas.Proofs.Storage.Restoring
import BinaryAtlas.Proofs.SegmentMap.Accounts
import BinaryAtlas.Proofs.SegmentMap.Resetting
import BinaryAtlas.Proofs.Space.Settling
import BinaryAtlas.Proofs.Space.Layout
import BinaryAtlas.Proofs.Space.Records
import BinaryAtlas.Proofs.Space.Bytes
import BinaryAtlas.Proofs.Space.Replaying
import BinaryAtlas.Proofs.Space.SegmentTable
import BinaryAtlas.Proofs.Undo.Replaying
import BinaryAtlas.Proofs.Undo.Bytes
import BinaryAtlas.Proofs.Undo.Histories
import BinaryAtlas.Proofs.Undo.Editing
import BinaryAtlas.Proofs.Undo.Grouping
import BinaryAtlas.Proofs.Storage.Recording
import BinaryAtlas.Proofs.Space.Always
import BinaryAtlas.Proofs.Space.Reaching
import BinaryAtlas.Proofs.Space.Filing
import BinaryAtlas.Proofs.SegmentMap.Spans
import BinaryAtlas.Proofs.Space.FiledEdits
import BinaryAtlas.Proofs.Space.Making
import BinaryAtlas.Proofs.Analysis.Lasting
import BinaryAtlas.Proofs.Snapshot.Restoring
import BinaryAtlas.Proofs.Snapshot.Faithful
import BinaryAtlas.Proofs.Listing.Validity
import BinaryAtlas.Proofs.Listing.Covering
import BinaryAtlas.Proofs.Listing.Edges
import BinaryAtlas.Proofs.Listing.Units
import BinaryAtlas.Proofs.Listing.Sequence
import BinaryAtlas.Proofs.Listing.Walking
import BinaryAtlas.Proofs.Analysis.Exploring
import BinaryAtlas.Proofs.Analysis.Cutting
import BinaryAtlas.Proofs.Search.Places
import BinaryAtlas.Proofs.Search.Finding
import BinaryAtlas.Proofs.Space.Automatic
import BinaryAtlas.Proofs.Mirror.Keys
import BinaryAtlas.Proofs.Mirror.Copy
import BinaryAtlas.Proofs.Mirror.Following
import BinaryAtlas.Proofs.Mirror.Records
import BinaryAtlas.Proofs.Mirror.Types
import BinaryAtlas.Proofs.Mirror.Groups
import BinaryAtlas.Proofs.Mirror.Layout
import BinaryAtlas.Proofs.Mirror.Edits
import BinaryAtlas.Proofs.Mirror.Completeness
import BinaryAtlas.Proofs.Analysis.Running
import BinaryAtlas.Proofs.Analysis.Closing
import BinaryAtlas.Proofs.Analysis.Referring
import BinaryAtlas.Proofs.Types.Homes
import BinaryAtlas.Proofs.Strings.Runs
import BinaryAtlas.Proofs.Types.Identity
import BinaryAtlas.Proofs.Tags.Registering
import BinaryAtlas.Proofs.Listing.Stepping
import BinaryAtlas.Proofs.Search.Lines
import BinaryAtlas.Proofs.Strings.Replacing
import BinaryAtlas.Proofs.Analysis.Advancing
import BinaryAtlas.Proofs.Analysis.Repeating
import BinaryAtlas.Proofs.Undo.Provenance
import BinaryAtlas.Proofs.Space.Values
import BinaryAtlas.Proofs.Functions.Removing
import BinaryAtlas.Proofs.Space.Steadying
import BinaryAtlas.Proofs.Space.Forming
import BinaryAtlas.Proofs.Snapshot.Opening
import BinaryAtlas.Proofs.Scheduler.Interplay
import BinaryAtlas.Proofs.Scheduler.Ledger
import BinaryAtlas.Proofs.Scheduler.Completion
import BinaryAtlas.Proofs.Scheduler.Rehearsing
import BinaryAtlas.Proofs.Functions.Claiming
import BinaryAtlas.Proofs.Space.Extent
import BinaryAtlas.Proofs.SegmentMap.Backing
import BinaryAtlas.Proofs.Declaration.Layout
import BinaryAtlas.Proofs.Declaration.Reading
import BinaryAtlas.Proofs.Declaration.Declaring
import BinaryAtlas.Proofs.Declaration.Records
import BinaryAtlas.Proofs.Declaration.Parallel
import BinaryAtlas.Proofs.Declaration.Agreeing
import BinaryAtlas.Proofs.Declaration.Lexing
import BinaryAtlas.Proofs.Declaration.Batches
import BinaryAtlas.Proofs.Declaration.Sizes
import BinaryAtlas.Proofs.Declaration.Specifying
import BinaryAtlas.Proofs.Declaration.Bodies
import BinaryAtlas.Proofs.Declaration.Tagging
import BinaryAtlas.Proofs.Declaration.Progressing
import BinaryAtlas.Proofs.Types.Resolving
import BinaryAtlas.Proofs.Space.Scenes
import BinaryAtlas.Proofs.Types.Telling
import BinaryAtlas.Proofs.Types.Mentioning
import BinaryAtlas.Proofs.Types.Spelling
import BinaryAtlas.Proofs.Space.Delaying
import BinaryAtlas.Proofs.Space.Blindness
import BinaryAtlas.Proofs.Space.Bracketing
import BinaryAtlas.Proofs.Notifier.Delivering
import BinaryAtlas.Proofs.Strings.Locating
import BinaryAtlas.Proofs.References.Mirroring
import BinaryAtlas.Proofs.Search.Watching
import BinaryAtlas.Proofs.Mangling
import BinaryAtlas.Proofs.Json.Reading
import BinaryAtlas.Proofs.SpaceConfig
