/-
  **Addresses** (`libraries/chain/include/graphene/chain/protocol/address.hpp`) **and when an
  operation is evaluated** (`evaluator.hpp`).

  An address is a version byte and a hash.  `==` compares both, but `operator<` only the
  hash, and so every ordered index and every `std::map` with addresses as keys: there an
  address stands for all addresses with its hash.  `H` is the type of the hashes, its
  default the zero hash.

  Up to the checkpoint block an operation is applied without `do_evaluate`, unless its
  evaluator overrides `if_evluate`.
-/
import Mathlib.Algebra.Order.Ring.Int

namespace HyperExchange

structure Address (H : Type) where
  version : UInt8
  addr : H
deriving DecidableEq, Repr

namespace Address

/-! ### `addressVersion` -/

def normal : UInt8 := 0x35
def multisig : UInt8 := 0x32
def contract : UInt8 := 0x1C

variable {H : Type}

/-- `address()` -/
def null [Inhabited H] : Address H := ⟨normal, default⟩

end Address

/-! ### The checkpoint -/

/-- `HX_CHECK_POINT_BLOCK` -/
def checkPointBlock : Nat := 1800000

/-- `evaluator::evaluate`, on the chain of the checkpoint. -/
def evaluateAbove (headBlockNum : Nat) (overridden : Bool) (doEvaluate : Option Unit) :
    Option Unit :=
  if overridden || decide (checkPointBlock < headBlockNum) then doEvaluate else some ()

variable {n : Nat} {overridden : Bool} {x : Option Unit}

theorem evaluateAbove_of_lt (h : checkPointBlock < n) : evaluateAbove n overridden x = x := by
  simp [evaluateAbove, h]

theorem evaluateAbove_of_le (h : n ≤ checkPointBlock) : evaluateAbove n false x = some () := by
  simp [evaluateAbove, Nat.not_lt.2 h]

end HyperExchange
