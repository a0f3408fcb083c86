import DocIdent.Main
import DocIdent.Proofs.Command.Encode
import DocIdent.Proofs.Command.Failure
import DocIdent.Proofs.Element.Keys
import DocIdent.Proofs.Element.Trail
import DocIdent.Proofs.Failure.Report
import DocIdent.Proofs.Inputs.Lock
import DocIdent.Proofs.Key.Length
import DocIdent.Proofs.Lock.Neighbours
import DocIdent.Proofs.Lock.Stale
import DocIdent.Proofs.Metadata.Order
import DocIdent.Proofs.Metadata.Reading
