import QuantovaChain.State.Copies
import QuantovaChain.Idfmt.Mistyped
import QuantovaChain.Governance.Records
import QuantovaChain.ChainBlock.Roster
import QuantovaChain.Merkle.Inclusion
import QuantovaChain.Bridge.Quorum
import QuantovaChain.Ledger.Persistence
import QuantovaChain.Ledger.Events
import QuantovaChain.Ledger.BridgeFacts
import QuantovaChain.Ledger.ContractValue
import QuantovaChain.Ledger.Weight
import QuantovaChain.Ledger.Genesis
import QuantovaChain.Ledger.Marks
import QuantovaChain.Node.Parallel
import QuantovaChain.Node.Finality
import QuantovaChain.Node.Admission
import QuantovaChain.Node.Meter
import QuantovaChain.Node.FailedCall
import QuantovaChain.Node.EvidenceLane
import QuantovaChain.Node.Guardians
import QuantovaChain.Node.SigCache
import QuantovaChain.Node.Watermark
import QuantovaChain.Net.Channel
import QuantovaChain.Net.Agreement
import QuantovaChain.Wire.Accounting
import QuantovaChain.Wire.HonestDelivery
import QuantovaChain.Devnet.Registration
import QuantovaChain.Store.Recovery
import QuantovaChain.Store.StateRuns
import QuantovaChain.Store.TxIndexRuns
