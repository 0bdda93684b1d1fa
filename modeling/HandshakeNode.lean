import HandshakeNode.Proofs.AirdropState
import HandshakeNode.Proofs.Auction
import HandshakeNode.Proofs.BrontideAttack
import HandshakeNode.Proofs.ChainView
import HandshakeNode.Proofs.CompactTarget
import HandshakeNode.Proofs.DbCursor
import HandshakeNode.Proofs.FailedCalls
import HandshakeNode.Proofs.HeaderChain
import HandshakeNode.Proofs.HnsMsgIO
import HandshakeNode.Proofs.LockTime
import HandshakeNode.Proofs.Merkle
import HandshakeNode.Proofs.Money
import HandshakeNode.Proofs.NameProof
import HandshakeNode.Proofs.NameRootCache
import HandshakeNode.Proofs.NestedReads
import HandshakeNode.Proofs.OrphanPool
import HandshakeNode.Proofs.Reconsider
import HandshakeNode.Proofs.ScriptCaches
import HandshakeNode.Proofs.ScriptVal
import HandshakeNode.Proofs.StoredCoins
import HandshakeNode.Proofs.Stratum
import HandshakeNode.Proofs.TxIndex
import HandshakeNode.Proofs.UrkelSound
