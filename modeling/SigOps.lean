import SigOps.Eval
import SigOps.Sighash
import SigOps.Proofs.Acceptance
import SigOps.Proofs.Consumption
import SigOps.Proofs.OpCount
import SigOps.Proofs.Ecdsa.Complement
import SigOps.Proofs.Multisig.Cursors
import SigOps.Proofs.Multisig.PairScan
import SigOps.Proofs.Multisig.Requests
import SigOps.Proofs.Multisig.SingleKey
import SigOps.Proofs.Multisig.Unreached
import SigOps.Proofs.PublicKey.Encodings
import SigOps.Proofs.Rules.NullFail
import SigOps.Proofs.Script.Occurrences
import SigOps.Proofs.ScriptNum.Truth
import SigOps.Proofs.Sighash.Removal
import SigOps.Proofs.Signature.Blob
import SigOps.Proofs.Signature.Der.Extension
import SigOps.Proofs.Signature.Pair
