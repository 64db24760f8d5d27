import DfDerive.Lib.Runs
import DfDerive.Lib.Ragged
import DfDerive.Lib.Scan
import DfDerive.Lib.Gather
import DfDerive.Lib.Separated
import DfDerive.Lib.Scopes
import DfDerive.Lib.Rounding
import DfDerive.Lower.Errors
import DfDerive.Lower.Analysis
import DfDerive.Lower.Wrappers
import DfDerive.Runtime.Value
import DfDerive.Spec.Cells
import DfDerive.Codegen.WrapperAccess
import DfDerive.Codegen.AccessChains
import DfDerive.Codegen.ShapeWalkProofs
import DfDerive.Codegen.VecProofs
import DfDerive.Codegen.ShapeWords
import DfDerive.Codegen.SourceAccess
import DfDerive.Codegen.Leaf
import DfDerive.Codegen.LeafProofs
import DfDerive.Ir.Columns
import DfDerive.Lower.Field
import DfDerive.Lower.Projection
import DfDerive.Lower.Accepted
import DfDerive.Lower.Lossless
import DfDerive.Lower.Checks
import DfDerive.Attrs.Decimal
import DfDerive.Core.Dataframe
import DfDerive.Core.DecimalProofs
import DfDerive.Codegen.Nested
import DfDerive.Codegen.NestedProofs
import DfDerive.Codegen.Projected
import DfDerive.Codegen.LeafWalk
import DfDerive.Codegen.NestedBatch
import DfDerive.Codegen.VecColumns
import DfDerive.Codegen.ProjectedProofs
import DfDerive.Codegen.ColumnEmit
import DfDerive.Codegen.ColumnEmitProofs
import DfDerive.Spec.Columns
import DfDerive.Spec.Fields
import DfDerive.Spec.Names
import DfDerive.Spec.Paths
import DfDerive.Codegen.Columnar
import DfDerive.Codegen.BorrowedItems
import DfDerive.Codegen.Support
import DfDerive.Codegen.SupportProofs
import DfDerive.Codegen.ColumnarProofs
import DfDerive.Spec.Rows
import DfDerive.Spec.Walk
import DfDerive.Derived.Tree
import DfDerive.Derived.Batches
import DfDerive.Derived.UniqueNames
import DfDerive.Columns.Alone
import DfDerive.Columns.Lists
import DfDerive.Columns.Nullability
import DfDerive.Columns.Nested
import DfDerive.Columns.Manual
import DfDerive.Columns.Tuples
import DfDerive.Columns.Leaves
import DfDerive.Columns.Decimals
import DfDerive.Columns.Times
import DfDerive.Columns.Scalars
import DfDerive.Codegen.TypeDepsProofs
import DfDerive.Codegen.ConfigProofs
import DfDerive.Spec.Alike
import DfDerive.Columns.TupleStructs
import DfDerive.Codegen.Idents
import DfDerive.Codegen.ScopedWalks
import DfDerive.Codegen.ScopedBlocks
import DfDerive.Codegen.ScopedWalksProofs
import DfDerive.Codegen.ScopedListsProofs
import DfDerive.Codegen.ScopedLeavesProofs
import DfDerive.Codegen.ScopedBlocksProofs
import DfDerive.Codegen.ScopedNestedProofs
import DfDerive.Codegen.ScopedColumnsProofs
import DfDerive.Columns.CaptureFree
import DfDerive.Syn.FieldTypes
import DfDerive.TypeAnalysis.PathMatch
import DfDerive.TypeAnalysis.KnownTypes
import DfDerive.TypeAnalysis.Rejections
import DfDerive.TypeAnalysis.Analyzed
import DfDerive.TypeAnalysis.Wrappers
import DfDerive.TypeAnalysis.Spellings
import DfDerive.TypeAnalysis.WrappersProofs
import DfDerive.TypeAnalysis.Analysis
import DfDerive.TypeAnalysis.KnownTypesProofs
import DfDerive.TypeAnalysis.Meaning
import DfDerive.TypeAnalysis.MeaningProofs
import DfDerive.TypeAnalysis.Exact
import DfDerive.Lib.Slot
import DfDerive.Attrs.Field
import DfDerive.Attrs.ContainerProofs
import DfDerive.Attrs.FieldProofs
import DfDerive.Lower.Validation
import DfDerive.Lower.Written
import DfDerive.Lower.ValidationProofs
import DfDerive.Lower.WrittenProofs
import DfDerive.Derived.Entry
import DfDerive.Lib.FirstSeen
import DfDerive.Codegen.Bounds
import DfDerive.Codegen.BoundsProofs
import DfDerive.Derived.Origins
import DfDerive.Derived.Requirements
import DfDerive.Columns.Instants
import DfDerive.Columns.Durations
import DfDerive.Lib.Depth
import DfDerive.Derived.Programs
import DfDerive.Lower.Acceptance
import DfDerive.Spec.Kept
import DfDerive.Columns.Kept
import DfDerive.Lower.ByName
import DfDerive.Columns.Reread
import DfDerive.Columns.Inlined
import DfDerive.Columns.Chosen
import DfDerive.Spec.Canonical
import DfDerive.Lower.Canonical
import DfDerive.Columns.Canonical
import DfDerive.Derived.Instances
