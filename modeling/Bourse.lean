import Bourse.Book.Operation
import Bourse.Proofs.Result
import Bourse.Proofs.Vault.Posting
import Bourse.Proofs.Book.Taking
import Bourse.Proofs.Book.Clearing
import Bourse.Proofs.Book.Performed
import Bourse.Proofs.Book.Conservation
import Bourse.Proofs.Book.Replay
import Bourse.Proofs.Book.Authorization
import Bourse.Proofs.Machine.Height
import Bourse.Proofs.Program.Soundness
import Bourse.Proofs.Code.Assembly
import Bourse.Proofs.Book.Solvency
import Bourse.Proofs.Book.Mirror
import Bourse.Proofs.Vault.Staging
import Bourse.Proofs.Book.Splitting
import Bourse.Proofs.Bytes.Delimited
import Bourse.Proofs.Order.Preimage
import Bourse.Proofs.Machine.Coupling
import Bourse.Proofs.Program.Modes
import Bourse.Proofs.Book.Approval
import Bourse.Proofs.Book.Refusals
import Bourse.Proofs.Book.Listing
import Bourse.Proofs.Machine.Composition
import Bourse.Proofs.Machine.Room
import Bourse.Proofs.Machine.Shortage
import Bourse.Proofs.Program.Allocation
import Bourse.Proofs.Program.Completeness
import Bourse.Proofs.Book.Desk
import Bourse.Proofs.Program.Columns
import Bourse.Proofs.Program.Metering
import Bourse.Proofs.Book.Attachment
import Bourse.Proofs.Book.Secrecy
import Bourse.Proofs.Book.Crossing
import Bourse.Proofs.Book.Protection
import Bourse.Proofs.Book.Atomicity
import Bourse.Proofs.Arithmetic.Folds
import Bourse.Proofs.Arithmetic.Power
import Bourse.Proofs.Machine.Folding
import Bourse.Proofs.Vault.Transactions
import Bourse.Proofs.Decimal.Rescaling
import Bourse.Proofs.Book.Rounding
import Bourse.Proofs.Decimal.Division
import Bourse.Proofs.Decimal.Saturation
import Bourse.Proofs.Report.Packing
import Bourse.Proofs.Report.Selection
import Bourse.Proofs.Bytes.Digits
import Bourse.Proofs.Word
import Bourse.Proofs.Machine.Running
import Bourse.Proofs.Machine.Selecting
import Bourse.Proofs.Context.Building
import Bourse.Proofs.Machine.Lookup
import Bourse.Proofs.Program.Scratch
import Bourse.Proofs.Code.Shortfall
import Bourse.Proofs.Instruction.Wide
import Bourse.Proofs.Machine.Frame
import Bourse.Proofs.Report.Slots
