import ClearSign.Session
import ClearSign.Transaction.Encode
import ClearSign.Proofs.Decoder
import ClearSign.Proofs.ChainId
import ClearSign.Proofs.Transaction.Spelling
import ClearSign.Proofs.Transaction.Layout
import ClearSign.Proofs.Transaction.PrefixFree
import ClearSign.Proofs.Rlp.RoundTrip
import ClearSign.Proofs.Transaction.RoundTrip
import ClearSign.Proofs.Decimal.FixedPoint
import ClearSign.Proofs.Decimal.Amount
import ClearSign.Proofs.Page
import ClearSign.Proofs.Review.Display
import ClearSign.Proofs.Review.Walk
import ClearSign.Proofs.Review.Transcript
import ClearSign.Proofs.Session.Desk
import ClearSign.Proofs.Session.Refinement
import ClearSign.Proofs.Transfer
import ClearSign.Proofs.Review.Pages
import ClearSign.Proofs.Review.Coverage
import ClearSign.Proofs.Session.Outputs
import ClearSign.Proofs.Checked
import ClearSign.Proofs.Log
import ClearSign.Proofs.Transaction.Kinds
import ClearSign.Proofs.Transaction.Refusal
import ClearSign.Proofs.Review.Report
import ClearSign.Proofs.Decimal.InPlace
import ClearSign.Proofs.Bounds
import ClearSign.Proofs.Rlp.Scan
import ClearSign.Proofs.Session.Gate
import ClearSign.Proofs.Transaction.Truncation
import ClearSign.Proofs.Review.Recognition
import ClearSign.Proofs.Transaction.Network
import ClearSign.Proofs.Decimal.Shown
import ClearSign.Proofs.Decimal.Digits
import ClearSign.Proofs.Decimal.Placed
import ClearSign.Proofs.Page.Pieces
import ClearSign.Proofs.Hex
