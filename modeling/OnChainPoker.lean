import OnChainPoker.Holdem.TsEval
import OnChainPoker.Poker.Password
import OnChainPoker.Poker.Raises
import OnChainPoker.Poker.Actors
import OnChainPoker.Poker.TsPots
import OnChainPoker.Crypto.Extraction
import OnChainPoker.Dealer.ShareMessage
import OnChainPoker.Dealer.TranscriptRoot
import OnChainPoker.Dealer.Deal
import OnChainPoker.Dealer.HandEnds
import OnChainPoker.Dealer.Stalled
import OnChainPoker.Dealer.Traces
import OnChainPoker.Dealer.Exposure
import OnChainPoker.Dealer.BeaconValue
import OnChainPoker.Dealer.SaltReuse
import OnChainPoker.Dealer.DaemonShares
import OnChainPoker.Dealer.DaemonShuffle
import OnChainPoker.Dealer.StateFile
import OnChainPoker.Coordinator.Faucet
