/-
  **How many senators stand behind a combined transaction.**

  The code that proposes a combined transaction waits until more than two thirds of the
  senators have signed (`combine_sign_transaction`, `combine_coldhot_sign_transaction`).  The
  evaluators of such an operation do not count: that of withdrawals looks at the first of the
  signatures that are listed, that of transfers only asks that those listed are related to
  the transaction, and it accepts an empty list.  So there is a quorum behind what that code
  proposes, and need not be one behind what another node sends.
-/
import HyperExchange.BridgeRuns
import HyperExchange.TransferSignatures
import HyperExchange.WithdrawalSignatures

namespace HyperExchange.Bridge

open Keyed Execution Signatures Option
open Crosschain (Registry Payers sampleRegistry sampleUser eth)

variable {H : Type} {reg : Registry} (p : Payers)

/-- Signatures are those of senators of the account that pays, for what waits for them, and
    what is combined is what the code that proposes it builds. -/
def Signing (ctx : Coldhot.Context reg H) (trx : SignedTransaction H) (s : State H) :
    Operation H → Prop
  | .crosschain op => Crosschain.SignedInOrder p ctx.toContext trx.toCrosschain s.chain op
  | .coldhot op => Coldhot.SignedInOrder p.senators ctx trx.toColdhot s.transfers op

instance (ctx : Coldhot.Context reg H) (trx : SignedTransaction H) (s : State H) :
    DecidablePred (Signing p ctx trx s)
  | .crosschain op => inferInstanceAs
      (Decidable (Crosschain.SignedInOrder p ctx.toContext trx.toCrosschain s.chain op))
  | .coldhot op => inferInstanceAs
      (Decidable (Coldhot.SignedInOrder p.senators ctx trx.toColdhot s.transfers op))

/-- A quorum of the senators of the account that pays has signed what is combined, and the
    signatures that are listed are such. -/
def HasSenatorQuorum (s : State H) : Operation H → Prop
  | .crosschain (.withdrawCombineSign o) => ∃ b ∈ Crosschain.combinedBatch s.chain o,
      HasQuorum Crosschain.signOf (Crosschain.payingSenators p) s.chain.trxs b o.signedTrxIds
  | .coldhot (.transferCombineSign o) =>
    HasQuorum Coldhot.signOf (Coldhot.payingSenators p.senators) s.transfers
      o.coldhotTransferTrxId o.signedTrxIds
  | _ => True

/-! ### Runs -/

/-- All signatures there are. -/
structure AllSigned (s : State H) : Prop where
  withdrawals : Crosschain.Signed p s.chain.trxs
  transfers : Coldhot.Signed p.senators s.transfers

variable {p}

theorem allSigned_of_fresh {s : State H} (h : s.Fresh) : AllSigned p s where
  withdrawals :=
    { toSigned := .of_rows_nil h.chain.trxs
      waiting := by
        intro id r hr _
        have hmem := Table.mem_of_find hr
        rw [h.chain.trxs] at hmem
        cases hmem }
  transfers := .of_rows_nil h.transfers

variable [DecidableEq H] [Inhabited H] {ctx : Coldhot.Context reg H} {trx : SignedTransaction H}

theorem applyOperation_allSigned {s s' : State H} {op : Operation H}
    (hmem : op ∈ trx.operations) (hs : AllSigned p s)
    (hord : Signing p ctx trx s op) (happly : applyOperation ctx trx s op = some s') :
    AllSigned p s' := by
  cases op with
  | crosschain op =>
    obtain ⟨c, hc, rfl⟩ := map_eq_some_iff.1 happly
    have hmem' : op ∈ trx.toCrosschain.operations := List.mem_map.2 ⟨_, hmem, rfl⟩
    exact ⟨Crosschain.applyOperation_signed hs.withdrawals hmem' hord hc, hs.transfers⟩
  | coldhot op =>
    obtain ⟨c, hc, rfl⟩ := map_eq_some_iff.1 happly
    have hmem' : op ∈ trx.toColdhot.operations := List.mem_map.2 ⟨_, hmem, rfl⟩
    refine ⟨?_, Coldhot.applyOperation_signed hs.transfers hmem' hord hc⟩
    rw [Coldhot.applyOperation_trxs hc]
    exact hs.withdrawals

def paidBy (senators : List Nat) : Payers :=
  ⟨fun _ _ => ['m'], fun _ _ => senators, senators.length⟩

/-- The senator `7` signs a transfer. -/
def sampleSignedTransfer : State Bool :=
  [sampleTransfer 1, sampleTransferWithoutSign 2 1,
    sampleColdhot 3 (.transferWithSign ⟨2, [], 7, eth, sampleUser, []⟩)].foldl step sampleStart

/-- A batch of one withdrawal, signed by the guard `0`. -/
def sampleSignedBatch : State Bool :=
  [sampleCrosschain 1 (.crosschainWithdraw ⟨sampleUser, ['5'], eth, 1, ['a']⟩),
    sampleCrosschain 2 (.withdrawWithoutSign ⟨[1], [], eth, 1, ⟨0, 1⟩⟩),
    sampleCrosschain 3 (.withdrawWithSign ⟨2, [], 0, eth, sampleUser, []⟩)].foldl step sampleStart

end HyperExchange.Bridge
