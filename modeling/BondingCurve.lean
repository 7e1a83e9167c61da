import BondingCurve.Bond.Encoding
import BondingCurve.Config
import BondingCurve.Entry
import BondingCurve.Ledger
import BondingCurve.Proofs.Burn
import BondingCurve.Proofs.ConstantProduct
import BondingCurve.Proofs.Encoding
import BondingCurve.Proofs.Ledger.Cap
import BondingCurve.Proofs.Ledger.Excess
import BondingCurve.Proofs.Ledger.Neutrality
import BondingCurve.Proofs.Reporting
import BondingCurve.Proofs.WellFormed
import BondingCurve.Proofs.FeeBounds
import BondingCurve.Proofs.PowerOrder
import BondingCurve.Proofs.Decimal.ExactPower
import BondingCurve.Proofs.SpotPrice
import BondingCurve.Proofs.SigmoidAccuracy
import BondingCurve.Proofs.SigmoidOrder
import BondingCurve.Proofs.FreeMint
import BondingCurve.Proofs.Ledger.Splitting
import BondingCurve.Proofs.PoolSettlement
import BondingCurve.Proofs.ZeroSupply
import BondingCurve.Proofs.ReserveTokens
import BondingCurve.Proofs.SanityBand
import BondingCurve.Proofs.SigmoidCalls
import BondingCurve.Proofs.Decimal.Bracket
import BondingCurve.Proofs.Decimal.Binary64
import BondingCurve.Proofs.Text.Blank
import BondingCurve.Proofs.Address
import BondingCurve.Proofs.Entry
