import StencilForge.Query.Type
import StencilForge.Query.Collection
import StencilForge.Query.Tree
import StencilForge.Query.DataGrid
import StencilForge.Query.Compile
import StencilForge.Query.Script
import StencilForge.Query.Study
import StencilForge.Query.Drawing
import StencilForge.Proofs.Handout
import StencilForge.Proofs.Independence
import StencilForge.Proofs.Arguments
import StencilForge.Proofs.Registry
import StencilForge.Proofs.Viewing
import StencilForge.Proofs.Lines
import StencilForge.Proofs.Visiting
import StencilForge.Proofs.Strides
import StencilForge.Proofs.Differences
import StencilForge.Proofs.Texts
import StencilForge.Proofs.Shares
import StencilForge.Proofs.Masks
import StencilForge.Proofs.Boxes
import StencilForge.Proofs.Limits
import StencilForge.Proofs.Accuracy
