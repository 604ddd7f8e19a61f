import PacketSchema.Compilation.Files
import PacketSchema.Files.Directory
import PacketSchema.Main
import PacketSchema.Schema.Outline
import PacketSchema.Schema.Walk
import PacketSchema.Token.Cursor
import PacketSchema.Proofs.Compilation.Recording
import PacketSchema.Proofs.Compilation.Mirroring
import PacketSchema.Proofs.Schema.Ancestors
import PacketSchema.Proofs.Schema.Updates
import PacketSchema.Proofs.Compilation.Following
import PacketSchema.Proofs.Compilation.Names
import PacketSchema.Proofs.Compilation.Branches
import PacketSchema.Proofs.Compilation.History
import PacketSchema.Proofs.Compilation.Inheritance
import PacketSchema.Proofs.Compilation.Consistency
import PacketSchema.Proofs.Compilation.Typing
import PacketSchema.Proofs.Schema.Preorder
import PacketSchema.Proofs.Schema.Walking
import PacketSchema.Proofs.Compilation.Keys
import PacketSchema.Proofs.Compilation.WalkPaths
import PacketSchema.Proofs.Declaration.Completeness
import PacketSchema.Proofs.Declaration.Fuel
import PacketSchema.Proofs.Declaration.Parsing
import PacketSchema.Proofs.Style.Fixing
import PacketSchema.Proofs.Style.Meaning
import PacketSchema.Proofs.Declaration.FieldNames
import PacketSchema.Proofs.WireType.Interning
import PacketSchema.Proofs.Schema.Linking
import PacketSchema.Proofs.Schema.Unfolding
import PacketSchema.Proofs.Compilation.Making
import PacketSchema.Proofs.Compilation.Performing
import PacketSchema.Proofs.Compilation.Framing
import PacketSchema.Proofs.Compilation.Completing
import PacketSchema.Proofs.Compilation.Visibility
import PacketSchema.Proofs.Compilation.Acyclicity
import PacketSchema.Proofs.Compilation.Identity
import PacketSchema.Proofs.Compilation.Binding
import PacketSchema.Proofs.Compilation.Declaring
import PacketSchema.Proofs.Compilation.Confining
import PacketSchema.Proofs.Compilation.Ordering
import PacketSchema.Proofs.Declaration.Joining
import PacketSchema.Proofs.Compilation.Pointing
import PacketSchema.Proofs.Compilation.Situating
import PacketSchema.Proofs.Compilation.Joining
import PacketSchema.Proofs.Schema.Renumbering
import PacketSchema.Proofs.Schema.Grouping
import PacketSchema.Proofs.Schema.GroupedUpdates
import PacketSchema.Proofs.Declaration.Grouping
import PacketSchema.Proofs.Compilation.Grouping
import PacketSchema.Proofs.Compilation.Referring
import PacketSchema.Proofs.Compilation.Regrouping
import PacketSchema.Proofs.Compilation.Transparency
import PacketSchema.Proofs.Compilation.Safety
import PacketSchema.Proofs.Compilation.Lateness
import PacketSchema.Proofs.Compilation.Rewording
import PacketSchema.Proofs.CommandLine.Fixing
import PacketSchema.Proofs.Compilation.Filtering
import PacketSchema.Proofs.Compilation.Spelling
import PacketSchema.Proofs.Token.Tape
import PacketSchema.Proofs.Token.Places
import PacketSchema.Proofs.Compilation.Lookups
import PacketSchema.Proofs.Literal.Overflow
import PacketSchema.Proofs.Literal.Printing
import PacketSchema.Proofs.Token.Spacing
import PacketSchema.Proofs.Style.Counting
import PacketSchema.Proofs.Compilation.Blaming
