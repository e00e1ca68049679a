import Nmos6502.Host
import Nmos6502.Monitor
import Nmos6502.Settings
import Nmos6502.Proofs.Faults
import Nmos6502.Proofs.Requests
import Nmos6502.Proofs.Service
import Nmos6502.Proofs.Text
import Nmos6502.Proofs.Ledger
import Nmos6502.Proofs.Writes
import Nmos6502.Proofs.Flow
import Nmos6502.Proofs.Decoders
import Nmos6502.Proofs.Stack
import Nmos6502.Proofs.Delivery
import Nmos6502.Proofs.Hidden
import Nmos6502.Proofs.Marks
import Nmos6502.Proofs.Policies
import Nmos6502.Proofs.Verbosity
import Nmos6502.Proofs.Counts
import Nmos6502.Proofs.Loading
import Nmos6502.Proofs.Chains
import Nmos6502.Proofs.Addresses
import Nmos6502.Proofs.Costs
import Nmos6502.Proofs.Footprints
import Nmos6502.Proofs.Overflow
import Nmos6502.Proofs.Comparisons
import Nmos6502.Proofs.Feeds
import Nmos6502.Proofs.Shifts
import Nmos6502.Proofs.Subroutines
import Nmos6502.Proofs.Stores
import Nmos6502.Proofs.Width
import Nmos6502.Proofs.FixedBits
