import DocTree.LineTable
import DocTree.Bits.Session
import DocTree.Command.Session
import DocTree.Decl.Session
import DocTree.Node.Draft
import DocTree.Options
import DocTree.Tree.Session
import DocTree.Proofs.Resolution
import DocTree.Proofs.TemplatePath
import DocTree.Proofs.Bits
import DocTree.Proofs.Cache
import DocTree.Proofs.Reads
import DocTree.Proofs.Building
import DocTree.Proofs.Attributes
import DocTree.Proofs.SourceOrder
import DocTree.Proofs.TextEnds
import DocTree.Proofs.CommandTable
import DocTree.Proofs.TableGrowth
import DocTree.Proofs.Violations
import DocTree.Proofs.BlankReads
import DocTree.Proofs.Attaching
import DocTree.Proofs.Rebinding
import DocTree.Proofs.ResolveFrame
import DocTree.Proofs.FirstSummary
import DocTree.Proofs.Nesting
import DocTree.Proofs.Refusal
import DocTree.Proofs.Walking
import DocTree.Proofs.SpanGrowth
import DocTree.Proofs.KindViews
import DocTree.Proofs.OrderedTrees
import DocTree.Proofs.Mirroring
import DocTree.Proofs.Outline
import DocTree.Proofs.AttributeMaps
import DocTree.Proofs.Modes
import DocTree.Proofs.FieldLaws
import DocTree.Proofs.Lines
import DocTree.Proofs.Closers
import DocTree.Proofs.Guards
import DocTree.Proofs.BlankBytes
import DocTree.Proofs.BlankCounts
import DocTree.Proofs.BlankFills
import DocTree.Proofs.QuietReads
import DocTree.Proofs.PositionOrder
import DocTree.Proofs.ConfiguredTable
import DocTree.Proofs.Enclosure
import DocTree.Proofs.Reordering
import DocTree.Proofs.Restoring
import DocTree.Proofs.KindWrites
import DocTree.Proofs.CopiedReads
