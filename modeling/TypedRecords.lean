import TypedRecords.Decimal.Conversion
import TypedRecords.Decimal.Parser
import TypedRecords.Decimal.Printer
import TypedRecords.Name.Program.Compile
import TypedRecords.Name.Program.Printer
import TypedRecords.Record.Cursor
import TypedRecords.Record.Printer
import TypedRecords.Record.Target
import TypedRecords.Schema.Draft
import TypedRecords.Value.Equality
import TypedRecords.Proofs.Decimal.Digits
import TypedRecords.Proofs.Decimal.Normal
import TypedRecords.Proofs.Decimal.Value
import TypedRecords.Proofs.Lists
import TypedRecords.Proofs.Name.Bisection
import TypedRecords.Proofs.Name.Packing
import TypedRecords.Proofs.Name.Trie
import TypedRecords.Proofs.Name.Trie.Insertion
import TypedRecords.Proofs.Name.Trie.Paths
import TypedRecords.Proofs.Name.Trie.Preorder
import TypedRecords.Proofs.Name.Program.Canonical
import TypedRecords.Proofs.Name.Program.Layout
import TypedRecords.Proofs.Name.Program.Linking
import TypedRecords.Proofs.Name.Program.Shape
import TypedRecords.Proofs.Name.Program.Walk
import TypedRecords.Proofs.Presence
import TypedRecords.Proofs.Schema.Assembly
import TypedRecords.Proofs.Schema.Rejection
import TypedRecords.Proofs.Record.Contents
import TypedRecords.Proofs.Record.Enumeration
import TypedRecords.Proofs.Record.Typing
import TypedRecords.Proofs.Decimal.Checked
import TypedRecords.Proofs.Decimal.Grammar
import TypedRecords.Proofs.Decimal.Roundtrip
import TypedRecords.Proofs.Record.Equality
import TypedRecords.Proofs.Record.Replay
import TypedRecords.Proofs.Schema.Merging
import TypedRecords.Proofs.Schema.Identity
import TypedRecords.Proofs.Schema.Folding
import TypedRecords.Proofs.Decimal.TrailingZeros
import TypedRecords.Proofs.Decimal.Scientific
import TypedRecords.Proofs.Decimal.Conversion
import TypedRecords.Proofs.Decimal.Noise
import TypedRecords.Proofs.Decimal.Numeral
import TypedRecords.Proofs.Record.Admission
import TypedRecords.Proofs.Record.Reading
import TypedRecords.Proofs.Name.Chunks
import TypedRecords.Proofs.Name.Bisection.Balance
import TypedRecords.Proofs.Name.Program.Balance
import TypedRecords.Proofs.Name.Program.Size
import TypedRecords.Proofs.Record.Addressing
import TypedRecords.Proofs.Value.Equality
import TypedRecords.Proofs.Schema.Logging
import TypedRecords.Proofs.Name.Bisection.Search
import TypedRecords.Proofs.Name.Trie.Arena
import TypedRecords.Proofs.Name.Trie.Wrapping
import TypedRecords.Proofs.Schema.Conflict
import TypedRecords.Proofs.Name.Program.Wrapping
import TypedRecords.Proofs.Schema.Wrapping
