import Stencil.Data.Embedding
import Stencil.Main
import Stencil.Proofs.Render.Limit
import Stencil.Template.Printer
import Stencil.Proofs.Render.Escaped
import Stencil.Proofs.Template.TagClass
import Stencil.Proofs.Template.Brackets
import Stencil.Proofs.Template.FlatList
import Stencil.Proofs.Template.Matching
import Stencil.Proofs.Template.Parsing
import Stencil.Proofs.Expr.Condensing
import Stencil.Proofs.Decimal.Integer
import Stencil.Proofs.Expr.Spelling
import Stencil.Proofs.Template.Canonical
import Stencil.Proofs.Template.Lines
import Stencil.Proofs.Template.RoundTrip
import Stencil.Proofs.Template.Seam
import Stencil.Proofs.Render.Names
import Stencil.Proofs.Storage.Tables
import Stencil.Proofs.Storage.Segments
import Stencil.Proofs.Storage.Tree
import Stencil.Proofs.Storage.Reading
import Stencil.Proofs.Storage.Keeping
import Stencil.Proofs.Storage.Memo
import Stencil.Proofs.Storage.Refreshing
import Stencil.Proofs.Storage.Preload
import Stencil.Proofs.Expr.Cutting
import Stencil.Proofs.Expr.Inversion
import Stencil.Proofs.Expr.Negation
import Stencil.Proofs.Render.Conditions
import Stencil.Proofs.Template.Places
import Stencil.Proofs.Decimal.Rounding
import Stencil.Proofs.Decimal.Whole
import Stencil.Proofs.Filter.Integers
import Stencil.Proofs.Value.Shape
import Stencil.Proofs.Value.Coherence
import Stencil.Proofs.Value.Transitivity
import Stencil.Proofs.Storage.Joining
import Stencil.Proofs.Text.Entities
import Stencil.Proofs.Format.Directive
import Stencil.Proofs.Format.Integers
import Stencil.Proofs.Data.Embedding
import Stencil.Proofs.Data.Description
import Stencil.Proofs.Render.Reaching
import Stencil.Proofs.Render.Positions
import Stencil.Proofs.Render.Pruning
import Stencil.Proofs.Text.Slices
import Stencil.Proofs.Expr.Bytewise
import Stencil.Proofs.Template.Bytewise
