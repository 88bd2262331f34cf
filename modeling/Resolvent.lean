import Resolvent.Main
import Resolvent.Proofs.Residual.Resume
import Resolvent.Proofs.Subst.Constraints
import Resolvent.Proofs.Subst.Objects
import Resolvent.Proofs.Element.Dict
import Resolvent.Proofs.Independence.Folding
import Resolvent.Proofs.Layout.Groups
import Resolvent.Proofs.Subst.Local
import Resolvent.Proofs.Subst.Realize
import Resolvent.Proofs.Subst.Generic
import Resolvent.Proofs.Ty.FieldOrder
import Resolvent.Proofs.Ty.Rolling
import Resolvent.Proofs.Ty.Same
import Resolvent.Proofs.Session.Capture
import Resolvent.Proofs.Val.Order
import Resolvent.Proofs.Operator.Merge
import Resolvent.Proofs.Token.Strings
import Resolvent.Proofs.Element.Extent
import Resolvent.Proofs.Val.Conversion
