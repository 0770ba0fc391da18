/-
  **Slots and times** (`get_slot_time` and `get_slot_at_time` in `db_witness_schedule.cpp`,
  `validate_block_header`, `update_global_dynamic_data`).

  After the first block, slots begin at multiples of the interval and leave some out after a
  maintenance block and after a block that distributes bonuses; before it they begin at the
  time of the genesis.  In either case slot `n` begins `n - 1` intervals after slot 1, which is
  all that the inverse law needs.  Times are seconds in 32 bits; `slotStart` is the time a slot
  begins at without this bound.

  The signature of a block and the miner of a slot are parameters.
-/
import Mathlib.Algebra.Order.Ring.Int
import Mathlib.Tactic.Ring

namespace HyperExchange.Slots

/-- `GRAPHENE_BONUS_DISTRIBUTE_BLOCK_NUM` -/
def bonusDistributeBlockNum : Nat := 100000

/-- `chain_parameters`, as far as slots depend on them. -/
structure Parameters where
  blockInterval : Nat
  maintenanceSkipSlots : Nat
  positive : 0 < blockInterval

/-- A block id, which starts with the number of the block. -/
structure BlockId (H : Type) where
  num : Nat
  hash : H
deriving DecidableEq, Repr

/-- The head block, with the parameters in force. -/
structure Head (H : Type) where
  headBlockNum : Nat
  headBlockId : BlockId H
  time : Nat
  maintenanceFlag : Bool
  parameters : Parameters

structure SignedBlock (H : Type) where
  id : BlockId H
  previous : BlockId H
  timestamp : Nat
  miner : Nat
  signee : Bool

def SignedBlock.blockNum {H : Type} (b : SignedBlock H) : Nat := b.previous.num + 1

namespace Head

variable {H : Type} (h : Head H)

/-- The slots that are left out. -/
def skipSlots : Nat :=
  (if h.maintenanceFlag then h.parameters.maintenanceSkipSlots else 0) +
    if h.headBlockNum % bonusDistributeBlockNum = 0 ∧ 0 < h.headBlockNum then
      h.parameters.maintenanceSkipSlots else 0

/-- The time at which a slot begins, in unbounded numbers. -/
def slotStart (slot : Nat) : Nat :=
  let interval := h.parameters.blockInterval
  if h.headBlockNum = 0 then h.time + slot * interval
  else h.time / interval * interval + (slot + h.skipSlots) * interval

def getSlotTime (slot : Nat) : Nat :=
  if slot = 0 then 0 else h.slotStart slot % 2 ^ 32

def getSlotAtTime (when_ : Nat) : Nat :=
  if when_ < h.getSlotTime 1 then 0
  else ((when_ - h.getSlotTime 1) / h.parameters.blockInterval + 1) % 2 ^ 32

variable [DecidableEq H]

/-- With the schedule as a function of the slot, and no check skipped. -/
def validateBlockHeader (scheduled : Nat → Nat) (b : SignedBlock H) : Bool :=
  h.headBlockId = b.previous && h.time < b.timestamp && b.signee &&
    0 < h.getSlotAtTime b.timestamp && b.miner = scheduled (h.getSlotAtTime b.timestamp)

/-- A block that is accepted: `update_global_dynamic_data`, and the flag and the parameters as
    the rest of the block leaves them. -/
def applyBlock (scheduled : Nat → Nat) (b : SignedBlock H) (maintNeeded : Bool) (p : Parameters) :
    Option (Head H) :=
  if h.validateBlockHeader scheduled b then
    some { headBlockNum := b.blockNum, headBlockId := b.id, time := b.timestamp,
           maintenanceFlag := maintNeeded, parameters := p }
  else none

/-! ### Equidistant slots -/

omit [DecidableEq H] in
theorem slotStart_succ (slot : Nat) :
    h.slotStart (slot + 1) = h.slotStart 1 + slot * h.parameters.blockInterval := by
  unfold slotStart
  split <;> ring

omit [DecidableEq H] in
theorem slotStart_pos : 0 < h.slotStart 1 := by
  have hpos := h.parameters.positive
  unfold slotStart
  dsimp only
  split
  · omega
  · exact Nat.add_pos_right _ (Nat.mul_pos (by omega) hpos)

variable {h}

omit [DecidableEq H] in
theorem getSlotTime_of_lt {slot : Nat} (hslot : slot ≠ 0) (hfits : h.slotStart slot < 2 ^ 32) :
    h.getSlotTime slot = h.slotStart slot := by
  rw [getSlotTime, if_neg hslot, Nat.mod_eq_of_lt hfits]

omit [DecidableEq H] in
theorem getSlotAtTime_of_le {t : Nat} (ht : t < 2 ^ 32) (hfirst : h.slotStart 1 ≤ t) :
    h.getSlotAtTime t = (t - h.slotStart 1) / h.parameters.blockInterval + 1 := by
  have hpos := h.slotStart_pos
  have hle := Nat.div_le_self (t - h.slotStart 1) h.parameters.blockInterval
  rw [getSlotAtTime, getSlotTime_of_lt (by decide) (hfirst.trans_lt ht), if_neg (by omega),
    Nat.mod_eq_of_lt (by omega)]

/-- **Slot numbers and slot times are inverse to each other**, as long as the times fit into
    32 bits. -/
theorem slots_inverse (h : Head H) :
    (∀ slot, 1 ≤ slot → h.slotStart slot < 2 ^ 32 →
      h.getSlotAtTime (h.getSlotTime slot) = slot) ∧
    (∀ t, t < 2 ^ 32 → h.slotStart 1 < 2 ^ 32 → h.getSlotTime 1 ≤ t →
      h.slotStart (h.getSlotAtTime t + 1) < 2 ^ 32 →
      h.getSlotTime (h.getSlotAtTime t) ≤ t ∧ t < h.getSlotTime (h.getSlotAtTime t + 1)) ∧
    (∀ t, t < 2 ^ 32 → h.slotStart 1 < 2 ^ 32 →
      (h.getSlotAtTime t = 0 ↔ t < h.getSlotTime 1)) ∧
    ∀ scheduled b maintNeeded p h', h.applyBlock scheduled b maintNeeded p = some h' →
      h'.slotStart 1 < 2 ^ 32 → b.timestamp < h'.getSlotTime 1 := by
  have hinterval := h.parameters.positive
  refine ⟨fun slot hslot hfits => ?_, fun t ht hfits hle hnext => ?_, fun t ht hfits => ?_,
    fun scheduled b maintNeeded p h' happly hfits => ?_⟩
  · obtain ⟨n, rfl⟩ : ∃ n, slot = n + 1 := ⟨slot - 1, by omega⟩
    rw [getSlotTime_of_lt (by omega) hfits]
    rw [slotStart_succ] at hfits ⊢
    rw [getSlotAtTime_of_le hfits (Nat.le_add_right _ _), Nat.add_sub_cancel_left,
      Nat.mul_div_cancel _ hinterval]
  · rw [getSlotTime_of_lt (by decide) hfits] at hle
    have hslot := getSlotAtTime_of_le ht hle
    have hfloor := Nat.div_mul_le_self (t - h.slotStart 1) h.parameters.blockInterval
    have hceil := Nat.lt_div_mul_add (a := t - h.slotStart 1) hinterval
    generalize (t - h.slotStart 1) / h.parameters.blockInterval = n at hslot hfloor hceil
    rw [hslot] at hnext ⊢
    have hstart := h.slotStart_succ n
    have hend := h.slotStart_succ (n + 1)
    rw [Nat.add_mul, Nat.one_mul] at hend
    rw [getSlotTime_of_lt (by omega) hnext, getSlotTime_of_lt (by omega) (by omega)]
    constructor <;> omega
  · constructor
    · intro hzero
      by_contra hle
      rw [getSlotTime_of_lt (by decide) hfits, Nat.not_lt] at hle
      rw [getSlotAtTime_of_le ht hle] at hzero
      exact Nat.succ_ne_zero _ hzero
    · intro hlt
      rw [getSlotAtTime, if_pos hlt]
  · unfold applyBlock at happly
    split at happly
    · cases happly
      rw [getSlotTime_of_lt (by decide) hfits]
      -- the next multiple of the interval is later than the block
      have hceil := Nat.lt_div_mul_add (a := b.timestamp) p.positive
      have hskip := Nat.le_mul_of_pos_left p.blockInterval (show 0 < 1 +
        skipSlots ⟨b.blockNum, b.id, b.timestamp, maintNeeded, p⟩ by omega)
      unfold slotStart
      dsimp only
      rw [if_neg (show b.blockNum ≠ 0 from Nat.succ_ne_zero _)]
      omega
    · cases happly

end Head

/-- A maintenance block that distributes bonuses, not at a multiple of the interval. -/
def sampleHead : Head Nat := ⟨200000, ⟨200000, 7⟩, 1000003, true, ⟨5, 3, by decide⟩⟩

theorem sample_slots_inverse :
    sampleHead.getSlotAtTime (sampleHead.getSlotTime 1) = 1 ∧
      sampleHead.getSlotTime 9 ≤ 1000079 ∧ 1000079 < sampleHead.getSlotTime 10 ∧
      sampleHead.getSlotAtTime 1000034 = 0 ∧
      ∃ h', sampleHead.applyBlock (fun _ => 4) ⟨⟨200001, 8⟩, ⟨200000, 7⟩, 1000038, 4, true⟩ false
        sampleHead.parameters = some h' ∧ 1000038 < h'.getSlotTime 1 := by
  obtain ⟨hinverse, hfloor, hzero, hafter⟩ := sampleHead.slots_inverse
  have happly := (rfl : sampleHead.applyBlock (fun _ => 4)
    ⟨⟨200001, 8⟩, ⟨200000, 7⟩, 1000038, 4, true⟩ false sampleHead.parameters = some _)
  have hbetween := hfloor 1000079 (by decide) (by decide) (by decide) (by decide)
  exact ⟨hinverse 1 (by decide) (by decide), hbetween.1, hbetween.2,
    (hzero 1000034 (by decide) (by decide)).mpr (by decide), _, happly,
    hafter _ _ _ _ _ happly (by decide)⟩

end HyperExchange.Slots
