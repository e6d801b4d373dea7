import DualDenom.Json
import DualDenom.Session
import DualDenom.Proofs.Conservation
import DualDenom.Proofs.ExactTransfer
import DualDenom.Proofs.Dust
import DualDenom.Proofs.Solvency
import DualDenom.Proofs.SupplyBalance
import DualDenom.Proofs.NoGain
import DualDenom.Proofs.Burnable
import DualDenom.Proofs.VisibleBalance
import DualDenom.Proofs.FailStop
import DualDenom.Proofs.ErrorSources
import DualDenom.Proofs.RoundTrip
import DualDenom.Proofs.ProperCalls
import DualDenom.Proofs.ForeignDenoms
import DualDenom.Proofs.BoundedConversion
import DualDenom.Proofs.Records
import DualDenom.Proofs.Exchanges
import DualDenom.Proofs.TopUps
import DualDenom.Proofs.Sweeps
import DualDenom.Proofs.Routes
import DualDenom.Proofs.MintBurn
import DualDenom.Proofs.Violations
import DualDenom.Proofs.CoinByCoin
import DualDenom.Proofs.ReadBounds
import DualDenom.Proofs.Listings
import DualDenom.Proofs.Reports
import DualDenom.Proofs.SplitMerge
import DualDenom.Proofs.EvmCoins
import DualDenom.Proofs.CoinDefects
import DualDenom.Proofs.CoinSums
import DualDenom.Proofs.DenomPattern
