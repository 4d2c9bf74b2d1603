import XmlShape.Main
import XmlShape.Proofs.Absorbing
import XmlShape.Proofs.Acceptance
import XmlShape.Proofs.Agreement
import XmlShape.Proofs.Attributes
import XmlShape.Proofs.Bracketing
import XmlShape.Proofs.Coherence
import XmlShape.Proofs.Columns
import XmlShape.Proofs.Conservation
import XmlShape.Proofs.Cutoff
import XmlShape.Proofs.Discovery
import XmlShape.Proofs.Fields
import XmlShape.Proofs.Fitting
import XmlShape.Proofs.Growth
import XmlShape.Proofs.Heights
import XmlShape.Proofs.Likeness
import XmlShape.Proofs.Lines
import XmlShape.Proofs.Listing
import XmlShape.Proofs.Namespaces
import XmlShape.Proofs.Outlines
import XmlShape.Proofs.Pictures
import XmlShape.Proofs.Remarks
import XmlShape.Proofs.Rendered
import XmlShape.Proofs.Reordering
import XmlShape.Proofs.Scopes
import XmlShape.Proofs.Sketches
import XmlShape.Proofs.Sorting
import XmlShape.Proofs.Units
import XmlShape.Proofs.Verdicts
import XmlShape.Proofs.Widening
