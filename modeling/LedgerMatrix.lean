import LedgerMatrix.Client.Address
import LedgerMatrix.Client.LedgerJs
import LedgerMatrix.Client.Path
import LedgerMatrix.Client.Sign
import LedgerMatrix.Client.Signature
import LedgerMatrix.Crypto.Address
import LedgerMatrix.Crypto.Crc8
import LedgerMatrix.Crypto.Crc8Errors
import LedgerMatrix.Crypto.Keccak
import LedgerMatrix.Crypto.KeccakHash
import LedgerMatrix.Crypto.Keys
import LedgerMatrix.Device.AddressReview
import LedgerMatrix.Device.Answers
import LedgerMatrix.Device.Approval
import LedgerMatrix.Device.Basic
import LedgerMatrix.Device.Handlers
import LedgerMatrix.Device.Refinement
import LedgerMatrix.Device.Service
import LedgerMatrix.Device.Session
import LedgerMatrix.Device.TransactionReview
import LedgerMatrix.Display.Admission
import LedgerMatrix.Display.FuzzTarget
import LedgerMatrix.Display.Kinds
import LedgerMatrix.Display.Labels
import LedgerMatrix.Display.Numbers
import LedgerMatrix.Display.Paging
import LedgerMatrix.Display.Recipients
import LedgerMatrix.Display.Screens
import LedgerMatrix.Display.Sizes
import LedgerMatrix.Display.Texts
import LedgerMatrix.Display.Validity
import LedgerMatrix.Foundation.BigEndian
import LedgerMatrix.Foundation.Command
import LedgerMatrix.Foundation.Crc
import LedgerMatrix.Foundation.CrcErrors
import LedgerMatrix.Foundation.DoubleWord
import LedgerMatrix.Foundation.Encoding
import LedgerMatrix.Foundation.Keccak
import LedgerMatrix.Foundation.KeccakSponge
import LedgerMatrix.Foundation.LittleEndian
import LedgerMatrix.Foundation.Loop
import LedgerMatrix.Foundation.Numeral
import LedgerMatrix.Foundation.Paging
import LedgerMatrix.Foundation.Pointer
import LedgerMatrix.Foundation.Radix
import LedgerMatrix.Foundation.RecursiveLength
import LedgerMatrix.Foundation.Schoolbook
import LedgerMatrix.Foundation.Simulation
import LedgerMatrix.Foundation.Sponge
import LedgerMatrix.Machine
import LedgerMatrix.Parser.Acceptance
import LedgerMatrix.Parser.Arity
import LedgerMatrix.Parser.Basic
import LedgerMatrix.Parser.Bounds
import LedgerMatrix.Parser.Canonical
import LedgerMatrix.Parser.Coverage
import LedgerMatrix.Parser.Display
import LedgerMatrix.Parser.Reader
import LedgerMatrix.Parser.Reading
import LedgerMatrix.Parser.Rendering
import LedgerMatrix.Parser.RoundTrip
import LedgerMatrix.Parser.Transaction
import LedgerMatrix.Rlp.Basic
import LedgerMatrix.Rlp.Layout
import LedgerMatrix.Rlp.Reading
import LedgerMatrix.Rlp.RoundTrip
import LedgerMatrix.Tx.Basic
import LedgerMatrix.Tx.Rejection
import LedgerMatrix.Tx.Transfer
import LedgerMatrix.Uint256.Basic
import LedgerMatrix.Uint256.Divmod
import LedgerMatrix.Uint256.Divmod128
import LedgerMatrix.Uint256.DivmodInPlace
import LedgerMatrix.Uint256.Exact
import LedgerMatrix.Uint256.InPlace
import LedgerMatrix.Uint256.Mul
import LedgerMatrix.Uint256.Printing
import LedgerMatrix.Uint256.ToString
import LedgerMatrix.Uint256.Value
import LedgerMatrix.Uint256.Writes
