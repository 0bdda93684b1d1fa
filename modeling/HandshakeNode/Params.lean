import Mathlib.Algebra.Group.Nat.Defs

/-!
# Chain parameters

The parameters of `chaincfg` that the name rules read, and the two networks.
-/

namespace HandshakeNode

structure Params where
  nameAuctionStart : UInt32
  nameRolloutInterval : UInt32
  nameLockupPeriod : UInt32
  nameRenewalWindow : UInt32
  nameRenewalPeriod : UInt32
  nameRenewalMaturity : UInt32
  nameClaimPeriod : UInt32
  nameAlexaLockup : UInt32
  nameClaimFrequency : UInt32
  nameBiddingPeriod : UInt32
  nameRevealPeriod : UInt32
  nameTreeInterval : UInt32
  nameTransferLockup : UInt32
  nameAuctionMaturity : UInt32
  nameDeflationHeight : UInt32
  nameNoRollout : Bool
  nameNoReserved : Bool

def mainNetParams : Params where
  nameAuctionStart := 2016
  nameRolloutInterval := 1008
  nameLockupPeriod := 4320
  nameRenewalWindow := 105120
  nameRenewalPeriod := 26208
  nameRenewalMaturity := 4320
  nameClaimPeriod := 210240
  nameAlexaLockup := 420480
  nameClaimFrequency := 288
  nameBiddingPeriod := 720
  nameRevealPeriod := 1440
  nameTreeInterval := 36
  nameTransferLockup := 288
  nameAuctionMaturity := 4176
  nameDeflationHeight := 61043
  nameNoRollout := false
  nameNoReserved := false

def regressionNetParams : Params where
  nameAuctionStart := 0
  nameRolloutInterval := 2
  nameLockupPeriod := 2
  nameRenewalWindow := 5000
  nameRenewalPeriod := 2500
  nameRenewalMaturity := 50
  nameClaimPeriod := 250000
  nameAlexaLockup := 500000
  nameClaimFrequency := 0
  nameBiddingPeriod := 5
  nameRevealPeriod := 10
  nameTreeInterval := 5
  nameTransferLockup := 10
  nameAuctionMaturity := 65
  nameDeflationHeight := 200
  nameNoRollout := false
  nameNoReserved := false

structure Params.Bounded (p : Params) : Prop where
  auction : p.nameTreeInterval.toNat + 1 + p.nameBiddingPeriod.toNat + p.nameRevealPeriod.toNat <
    2 ^ 31
  lockup : p.nameLockupPeriod.toNat < 2 ^ 31
  renewal : p.nameRenewalWindow.toNat < 2 ^ 31
  maturity : p.nameAuctionMaturity.toNat < 2 ^ 31

lemma mainNetParams_bounded : mainNetParams.Bounded := by constructor <;> decide

lemma regressionNetParams_bounded : regressionNetParams.Bounded := by constructor <;> decide

end HandshakeNode
