/-
  **Names of accounts** (`account_evaluator.cpp`, `protocol/account.cpp` and
  `process_name_transfer` in `db_maint.cpp`, all in `libraries/chain/`).

  A change that would give a name twice throws.  A name transfer gives both accounts an
  alias, the name each is to have; the next maintenance goes through the accounts with an
  alias, in the order of the aliases, renames an account together with its partner, whom it
  finds by alias or by name, and starts over.  `agreed` is not part of the node.

  A pending transfer leaves a giver, whose alias is nobody's name, and a taker, whose alias is
  the name of the giver (`Paired`).  Whichever the loop comes upon first, it renames the
  giver first, so the name that the taker gets has just become free (`round_swaps`).
-/
import HyperExchange.OperationRuns
import Mathlib.Data.String.Basic
import HyperExchange.KeyedSums

namespace HyperExchange.Names

open Keyed Execution Ops List Option

section

/-! ### Valid names -/

def isLower (c : Char) : Bool := 'a' ≤ c && c ≤ 'z'

def isDigit (c : Char) : Bool := '0' ≤ c && c ≤ '9'

def splitDots : List Char → List (List Char)
  | [] => [[]]
  | c :: l =>
    if c = '.' then [] :: splitDots l
    else match splitDots l with
      | [] => [[c]]
      | part :: rest => (c :: part) :: rest

def isValidPart (part : List Char) : Bool :=
  part.head?.any isLower && part.getLast?.any (fun c => isLower c || isDigit c) &&
  part.all fun c => isLower c || isDigit c || c = '-'

/-- `is_valid_name` -/
def isValidName (name : String) : Bool :=
  decide (1 ≤ name.toList.length) && decide (name.toList.length ≤ 63) &&
  (splitDots name.toList).all isValidPart

theorem ne_empty_of_isValidName {name : String} (h : isValidName name = true) : name ≠ "" := by
  rintro rfl
  exact absurd h (by decide)

/-! ### Accounts -/

/-- `account_object` -/
structure Account (H : Type) where
  id : Nat
  name : String
  aliasName : Option String
  addr : Address H
deriving DecidableEq, Repr

/-- `account_index` -/
structure Accounts (H : Type) where
  table : Table fun a : Account H => a.id
  unique : (table.rows.map Account.name).Nodup
  nextId : Nat
  fresh : ∀ a ∈ table.rows, a.id < nextId

namespace Accounts

variable {H : Type}

def rows (s : Accounts H) : List (Account H) := s.table.rows

def byName (s : Accounts H) (name : String) : Option (Account H) :=
  s.rows.find? fun a => a.name = name

/-- `find` in `by_alias`, which is not unique: of several, the first. -/
def byAlias (s : Accounts H) (name : String) : Option (Account H) :=
  s.rows.find? fun a => a.aliasName = some name

/-- `find` in `by_address`, which compares hashes and is not unique. -/
def byAddress [DecidableEq H] (s : Accounts H) (addr : Address H) : Option (Account H) :=
  s.rows.find? fun a => a.addr.addr = addr.addr

/-- `get_account_address` -/
def getAccountAddress [Inhabited H] (s : Accounts H) (name : String) : Address H :=
  ((s.byName name).map Account.addr).getD .null

/-- `create`; the name must be new. -/
def create (name : String) (addr : Address H) (s : Accounts H) : Option (Accounts H) :=
  if hname : ∀ a ∈ s.table.rows, a.name ≠ name then
    some
      { table :=
          { rows := s.table.rows ++ [⟨s.nextId, name, none, addr⟩]
            nodup := by
              rw [map_append, map_singleton, nodup_append]
              refine ⟨s.table.nodup, nodup_singleton _, ?_⟩
              intro i hi j hj
              obtain ⟨a, ha, rfl⟩ := List.mem_map.1 hi
              rw [mem_singleton.1 hj]
              exact Nat.ne_of_lt (s.fresh a ha) }
        unique := by
          rw [map_append, map_singleton, nodup_append]
          refine ⟨s.unique, nodup_singleton _, ?_⟩
          intro n hn m hm
          obtain ⟨a, ha, rfl⟩ := List.mem_map.1 hn
          rw [mem_singleton.1 hm]
          exact hname a ha
        nextId := s.nextId + 1
        fresh := by
          intro a ha
          rcases mem_append.1 ha with ha | ha
          · exact Nat.lt_succ_of_lt (s.fresh a ha)
          · rw [mem_singleton.1 ha]
            exact Nat.lt_succ_self _ }
  else none

/-- `modify`; it throws when the index would hold a name twice. -/
def modify (id : Nat) (e : Edit fun a : Account H => a.id) (s : Accounts H) :
    Option (Accounts H) :=
  if hnames : ((s.table.modify id e).rows.map Account.name).Nodup then
    some
      { table := s.table.modify id e
        unique := hnames
        nextId := s.nextId
        fresh := by
          intro a ha
          have hfind := Table.find_of_mem ha
          rw [Table.find_modify] at hfind
          obtain ⟨b, hb, -⟩ := map_eq_some_iff.1 hfind
          have hid : b.id = a.id := Table.key_of_find hb
          exact hid ▸ s.fresh b (Table.mem_of_find hb) }
  else none

def setAlias (name : String) : Edit fun a : Account H => a.id :=
  ⟨fun a => { a with aliasName := some name }, fun _ => rfl⟩

def setName (name : String) : Edit fun a : Account H => a.id :=
  ⟨fun a => { a with name := name, aliasName := none }, fun _ => rfl⟩

/-- `obj.name = *(obj.alias); obj.alias = optional<string>()`.  There is no reading an alias
    that is not there. -/
def rename (id : Nat) (s : Accounts H) : Option (Accounts H) :=
  (s.table.find id).bind fun a => a.aliasName.bind fun name => s.modify id (setName name)

end Accounts

/-! ### `process_name_transfer` -/

/-- `alias_idx.lower_bound("")`: the account with the least alias. -/
def leastAlias {H : Type} : List (Account H) → Option (Account H)
  | [] => none
  | a :: l =>
    match a.aliasName, leastAlias l with
    | none, rest => rest
    | some _, none => some a
    | some name, some b => if b.aliasName.any (· < name) then some b else some a

def Accounts.round {H : Type} (a : Account H) (s : Accounts H) : Option (Accounts H) :=
  match s.byAlias a.name, a.aliasName.bind s.byName with
  | some partner, _ => (s.rename a.id).bind fun s => s.rename partner.id
  | none, some partner => (s.rename partner.id).bind fun s => s.rename a.id
  | none, none => some s

/-- The loop, for at most `fuel` rounds. -/
def processNameTransfer {H : Type} : Nat → Accounts H → Option (Exec (Accounts H))
  | 0, _ => none
  | fuel + 1, s =>
    match leastAlias s.rows with
    | none => some (.ok s)
    | some a =>
      match s.round a with
      | none => some (.thrown s)
      | some s => processNameTransfer fuel s

/-! ### The operations -/

/-- `account_create_operation`; `owner` is the address of the first owner key. -/
structure AccountCreate (H : Type) where
  name : String
  owner : Address H
  payer : Address H

/-- `name_transfer_operation` -/
structure NameTransfer (H : Type) where
  fromAddr : Address H
  toAddr : Address H
  original : String
  newname : Option String

structure State (H : Type) where
  accounts : Accounts H
  headBlockNum : Nat
  /-- The name agreed for an account since the last maintenance. -/
  agreed : Nat → Option String

variable {H : Type} [DecidableEq H] [Inhabited H]

/-- `account_create_evaluator::do_evaluate`.  The test for the address is there since block
    150000. -/
def evaluateCreate (o : AccountCreate H) (s : State H) : Bool :=
  (s.accounts.byName o.name).isNone &&
  (!decide (150000 < s.headBlockNum) || (s.accounts.byAddress o.owner).isNone) &&
  (decide (o.owner = o.payer) || o.payer.version = Address.multisig)

def NameTransfer.newName (o : NameTransfer H) (name : String) (headBlockNum : Nat) : String :=
  o.newname.getD (name ++ toString headBlockNum)

/-- `name_transfer_evaluator::do_evaluate` -/
def evaluateTransfer (o : NameTransfer H) (s : State H) : Bool :=
  match s.accounts.byAddress o.fromAddr, s.accounts.byAddress o.toAddr with
  | some giver, some taker =>
    decide (o.fromAddr ≠ o.toAddr) && giver.aliasName.isNone && taker.aliasName.isNone &&
    decide (s.accounts.getAccountAddress o.original = o.fromAddr) &&
    decide (s.accounts.getAccountAddress (o.newName giver.name s.headBlockNum) = .null) &&
    (s.accounts.byAlias (o.newName giver.name s.headBlockNum)).isNone
  | _, _ => false

/-- `if_evluate`, on the chain of the checkpoint. -/
def State.ifEvaluate (s : State H) (doEvaluate : Bool) : Bool :=
  !decide (checkPointBlock < s.headBlockNum) || doEvaluate

def applyCreate (o : AccountCreate H) (s : State H) : Option (State H) :=
  if isValidName o.name ∧ s.ifEvaluate (evaluateCreate o s) = true then
    (s.accounts.create o.name o.payer).map fun accounts => { s with accounts := accounts }
  else none

/-- `name_transfer_evaluator`, with `validate`. -/
def applyTransfer (o : NameTransfer H) (s : State H) : Option (State H) :=
  if (o.newname.all isValidName) = true ∧ s.ifEvaluate (evaluateTransfer o s) = true then do
    let giver ← s.accounts.byAddress o.fromAddr
    let taker ← s.accounts.byAddress o.toAddr
    let accounts ← s.accounts.modify giver.id
      (Accounts.setAlias (o.newName giver.name s.headBlockNum))
    let accounts ← accounts.modify taker.id (Accounts.setAlias giver.name)
    some
      { s with
        accounts := accounts
        agreed := fun id =>
          if id = taker.id then some o.original
          else if id = giver.id then some (o.newName o.original s.headBlockNum)
          else s.agreed id }
  else none

/-! ### Histories -/

/-- Accounts are created, names transferred; other operations update accounts, but neither
    name nor alias; blocks are added, some of them with maintenance. -/
inductive Event (H : Type) where
  | create (o : AccountCreate H)
  | transfer (o : NameTransfer H)
  | update
  | block
  | maintenance

def State.maintenance (s : State H) : State H :=
  match processNameTransfer (s.accounts.rows.length + 1) s.accounts with
  | some (.ok accounts) => { s with accounts := accounts, agreed := fun _ => none }
  | _ => s

def step (s : State H) : Event H → State H
  | .create o => (applyCreate o s).getD s
  | .transfer o => (applyTransfer o s).getD s
  | .update => s
  | .block => { s with headBlockNum := s.headBlockNum + 1 }
  | .maintenance => s.maintenance

end

variable {H : Type} {a : Account H}

/-! ### Reading and changing accounts -/

namespace Accounts

variable {s s' : Accounts H} {i j id : Nat} {a b : Account H} {name : String}

def account (s : Accounts H) (id : Nat) : Option (Account H) := s.table.find id

theorem mem_rows_iff_account : a ∈ s.rows ↔ s.account a.id = some a := Table.mem_rows_iff

theorem id_of_account (h : s.account i = some a) : a.id = i := Table.key_of_find h

theorem mem_of_account (h : s.account i = some a) : a ∈ s.rows := Table.mem_of_find h

/-- Names are unique. -/
theorem eq_of_name (ha : s.account i = some a) (hb : s.account j = some b) (h : a.name = b.name) :
    i = j := by
  have hab : a = b := inj_on_of_nodup_map s.unique (mem_of_account ha) (mem_of_account hb) h
  rw [← id_of_account ha, ← id_of_account hb, hab]

def Free (s : Accounts H) (name : String) : Prop := ∀ i a, s.account i = some a → a.name ≠ name

theorem byName_eq_none : s.byName name = none ↔ s.Free name := by
  unfold byName
  rw [List.find?_eq_none]
  constructor
  · intro h i a ha
    simpa using h a (mem_of_account ha)
  · intro h a ha
    simpa using h a.id a (mem_rows_iff_account.1 ha)

theorem byName_of_account (h : s.account i = some a) : s.byName a.name = some a := by
  cases hfind : s.byName a.name with
  | none => exact absurd rfl (byName_eq_none.1 hfind i a h)
  | some b =>
    have hname := List.find?_some hfind
    rw [decide_eq_true_eq] at hname
    have hb : s.account b.id = some b := mem_rows_iff_account.1 (mem_of_find?_eq_some hfind)
    rw [← eq_of_name hb h hname] at h
    rw [← hb, h]

theorem account_of_byAlias (h : s.byAlias name = some a) :
    s.account a.id = some a ∧ a.aliasName = some name := by
  have halias := List.find?_some h
  rw [decide_eq_true_eq] at halias
  exact ⟨mem_rows_iff_account.1 (mem_of_find?_eq_some h), halias⟩

/-- No account is promised a name that the index does not find. -/
theorem byAlias_eq_none (h : s.byAlias name = none) (ha : s.account i = some a) :
    a.aliasName ≠ some name := by
  unfold byAlias at h
  rw [List.find?_eq_none] at h
  simpa using h a (mem_of_account ha)

theorem account_of_byAddress [DecidableEq H] {addr : Address H} (h : s.byAddress addr = some a) :
    s.account a.id = some a := mem_rows_iff_account.1 (mem_of_find?_eq_some h)

variable {e : Edit fun a : Account H => a.id}

theorem account_modify (h : s.modify id e = some s') (k : Nat) :
    s'.account k = (s.account k).map fun a => if k = id then e.run a else a := by
  unfold modify at h
  split at h
  · cases h
    exact Table.find_modify k
  · cases h

theorem modify_returns (ha : s.account id = some a)
    (hname : ∀ j b, s.account j = some b → b.name = (e.run a).name → j = id) :
    ∃ s', s.modify id e = some s' ∧ s'.table = s.table.modify id e := by
  have hunique : ((s.table.modify id e).rows.map Account.name).Nodup := by
    refine List.Nodup.map_on ?_ (List.Nodup.of_map _ (s.table.modify id e).nodup)
    intro x hx y hy hxy
    have hx := Table.find_of_mem hx
    have hy := Table.find_of_mem hy
    rw [Table.find_modify] at hx hy
    obtain ⟨x₀, hx₀, hxe⟩ := map_eq_some_iff.1 hx
    obtain ⟨y₀, hy₀, hye⟩ := map_eq_some_iff.1 hy
    have hids : x.id = y.id := by
      by_cases hxid : x.id = id <;> by_cases hyid : y.id = id
      · rw [hxid, hyid]
      · rw [if_pos hxid] at hxe
        rw [if_neg hyid] at hye
        rw [hxid] at hx₀
        cases ha.symm.trans hx₀
        exact absurd (hname _ y₀ hy₀ (by rw [hye, hxe, hxy])) hyid
      · rw [if_neg hxid] at hxe
        rw [if_pos hyid] at hye
        rw [hyid] at hy₀
        cases ha.symm.trans hy₀
        exact absurd (hname _ x₀ hx₀ (by rw [hye, hxe, hxy])) hxid
      · rw [if_neg hxid] at hxe
        rw [if_neg hyid] at hye
        exact eq_of_name hx₀ hy₀ (by rw [hxe, hye, hxy])
    rw [hids, hy₀] at hx₀
    cases hx₀
    rw [← hxe, ← hye, hids]
  unfold modify
  rw [dif_pos hunique]
  exact ⟨_, rfl, rfl⟩

end Accounts

/-! ### Renaming one account -/

open Accounts

def Account.settled (a : Account H) : Account H :=
  { a with name := a.aliasName.getD a.name, aliasName := none }

def pending (s : Accounts H) : Int := s.table.total fun a => if a.aliasName.isSome then 1 else 0

/-- Account `id`, which is `a`, has got the name it was to have. -/
structure Renamed (id : Nat) (a : Account H) (s s' : Accounts H) : Prop where
  account : ∀ k, s'.account k = if k = id then some a.settled else s.account k
  pending : pending s' = pending s - 1

/-- `rename` returns if the alias is not somebody else's name. -/
theorem rename_returns {s : Accounts H} {id : Nat} {name : String} (ha : s.account id = some a)
    (halias : a.aliasName = some name)
    (hname : ∀ j b, s.account j = some b → b.name = name → j = id) :
    ∃ s', s.rename id = some s' ∧ Renamed id a s s' := by
  obtain ⟨s', hs', htable⟩ := modify_returns (e := setName name) ha hname
  have hfind : s.table.find id = some a := ha
  have hrun : (setName name).run a = a.settled := by
    unfold setName Account.settled
    rw [halias, getD_some]
  refine ⟨s', ?_, ?_, ?_⟩
  · unfold rename
    rw [hfind, bind_some, halias, bind_some, hs']
  · intro k
    rw [account_modify hs']
    split
    · rename_i hk
      rw [hk, ha, map_some, hrun]
    · rw [Option.map_id']
  · have htotal := Table.total_modify (setName name) hfind
      fun a => if a.aliasName.isSome then 1 else 0
    rw [hrun, halias] at htotal
    unfold pending
    rw [htable]
    have hsettled : a.settled.aliasName = none := rfl
    rw [hsettled] at htotal
    simpa using eq_sub_of_add_eq htotal

/-! ### Pairs -/

structure Paired (s : Accounts H) : Prop where
  distinct : ∀ {i j a b name}, s.account i = some a → s.account j = some b →
    a.aliasName = some name → b.aliasName = some name → i = j
  /-- An alias that is a name is the name of a giver. -/
  taker : ∀ {i j a b}, s.account i = some a → s.account j = some b → a.aliasName = some b.name →
    ∃ name, b.aliasName = some name ∧ s.Free name
  /-- A giver has a taker. -/
  giver : ∀ {i a name}, s.account i = some a → a.aliasName = some name → s.Free name →
    ∃ j b, s.account j = some b ∧ b.aliasName = some a.name

section Swap

variable {s s' : Accounts H} {i j : Nat} {a b : Account H} {name : String}

/-- Account `i` gives its name to account `j`. -/
structure IsPair (s : Accounts H) (i j : Nat) (a b : Account H) (name : String) : Prop where
  giver : s.account i = some a
  taker : s.account j = some b
  giver_alias : a.aliasName = some name
  free : s.Free name
  taker_alias : b.aliasName = some a.name

theorem IsPair.ne (h : IsPair s i j a b name) : i ≠ j := by
  rintro rfl
  have hab := h.giver.symm.trans h.taker
  cases hab
  exact h.free i a h.giver (Option.some.inj (h.taker_alias.symm.trans h.giver_alias))

/-- The giver is renamed, then the taker. -/
structure Swapped (i j : Nat) (a b : Account H) (s s' : Accounts H) : Prop where
  account : ∀ k, s'.account k =
    if k = i then some a.settled else if k = j then some b.settled else s.account k
  pending : pending s' = pending s - 2

theorem IsPair.swaps (h : IsPair s i j a b name) :
    ∃ s', ((s.rename i).bind fun s => s.rename j) = some s' ∧ Swapped i j a b s s' := by
  obtain ⟨s₁, hs₁, hrenamed₁⟩ := rename_returns h.giver h.giver_alias
    fun k c hc hname => absurd hname (h.free k c hc)
  have htaker₁ : s₁.account j = some b := by
    rw [hrenamed₁.account, if_neg (Ne.symm h.ne)]
    exact h.taker
  -- the name that the giver had is free now
  have hfree₁ : ∀ k c, s₁.account k = some c → c.name = a.name → k = j := by
    intro k c hc hname
    rw [hrenamed₁.account] at hc
    split at hc
    · cases hc
      refine absurd ?_ (h.free i a h.giver)
      rw [← hname]
      unfold Account.settled
      rw [h.giver_alias, getD_some]
    · rename_i hk
      exact absurd (eq_of_name hc h.giver hname) hk
  obtain ⟨s₂, hs₂, hrenamed₂⟩ := rename_returns htaker₁ h.taker_alias hfree₁
  refine ⟨s₂, ?_, ?_, ?_⟩
  · rw [hs₁, bind_some, hs₂]
  · intro k
    rw [hrenamed₂.account, hrenamed₁.account]
    by_cases hki : k = i
    · subst hki
      rw [if_neg h.ne, if_pos rfl, if_pos rfl]
    · rw [if_neg hki, if_neg hki]
  · rw [hrenamed₂.pending, hrenamed₁.pending]
    omega

/-- One round of the loop finds a pair and swaps it. -/
theorem round_swaps (hs : Paired s) (ha : s.account a.id = some a)
    (halias : a.aliasName = some name) :
    ∃ i j b c m s', IsPair s i j b c m ∧ s.round a = some s' ∧ Swapped i j b c s s' := by
  unfold Accounts.round
  by_cases hfree : s.Free name
  · obtain ⟨j, b, hb, hbalias⟩ := hs.giver ha halias hfree
    have hpair : IsPair s a.id j a b name := ⟨ha, hb, halias, hfree, hbalias⟩
    obtain ⟨s', hs', hswapped⟩ := hpair.swaps
    refine ⟨a.id, j, a, b, name, s', hpair, ?_, hswapped⟩
    cases hpartner : s.byAlias a.name with
    | none => exact absurd hbalias (byAlias_eq_none hpartner hb)
    | some p =>
      have hp := account_of_byAlias hpartner
      show ((s.rename a.id).bind fun s => s.rename p.id) = some s'
      rw [hs.distinct hp.1 hb hp.2 hbalias]
      exact hs'
  · obtain ⟨i, c, hc, hcname⟩ : ∃ i c, s.account i = some c ∧ c.name = name := by
      unfold Free at hfree
      push Not at hfree
      exact hfree
    subst hcname
    obtain ⟨m, hcalias, hm⟩ := hs.taker ha hc halias
    have hpair : IsPair s i a.id c a m := ⟨hc, ha, hcalias, hm, halias⟩
    obtain ⟨s', hs', hswapped⟩ := hpair.swaps
    refine ⟨i, a.id, c, a, m, s', hpair, ?_, hswapped⟩
    -- the taker's own name is nobody's alias
    have hnone : s.byAlias a.name = none := by
      cases hpartner : s.byAlias a.name with
      | none => rfl
      | some p =>
        have hp := account_of_byAlias hpartner
        obtain ⟨m', ham', hfree'⟩ := hs.taker hp.1 ha hp.2
        rw [halias] at ham'
        cases ham'
        exact absurd hfree' hfree
    rw [hnone, halias, bind_some, byName_of_account hc]
    show ((s.rename c.id).bind fun s => s.rename a.id) = some s'
    rw [id_of_account hc]
    exact hs'

theorem Swapped.of_alias (h : Swapped i j a b s s') {k : Nat} {c : Account H} {n : String}
    (hc : s'.account k = some c) (hn : c.aliasName = some n) :
    k ≠ i ∧ k ≠ j ∧ s.account k = some c := by
  rw [h.account] at hc
  split at hc
  · cases hc
    cases hn
  · split at hc
    · cases hc
      cases hn
    · exact ⟨‹_›, ‹_›, hc⟩

/-- The names after the round: the giver's new one, and all but the taker's old one. -/
theorem Swapped.free_iff (hpair : IsPair s i j a b name) (h : Swapped i j a b s s') {n : String}
    (hn : n ≠ name) (hb : n ≠ b.name) : s'.Free n ↔ s.Free n := by
  have hasettled : a.settled.name = name := by
    unfold Account.settled
    rw [hpair.giver_alias, getD_some]
  have hbsettled : b.settled.name = a.name := by
    unfold Account.settled
    rw [hpair.taker_alias, getD_some]
  constructor
  · intro hfree k c hc
    by_cases hki : k = i
    · subst hki
      rw [hpair.giver] at hc
      cases hc
      have := hfree j b.settled (by rw [h.account, if_neg (Ne.symm hpair.ne), if_pos rfl])
      rwa [hbsettled] at this
    · by_cases hkj : k = j
      · subst hkj
        rw [hpair.taker] at hc
        cases hc
        exact Ne.symm hb
      · exact hfree k c (by rw [h.account, if_neg hki, if_neg hkj, hc])
  · intro hfree k c hc
    rw [h.account] at hc
    split at hc
    · cases hc
      rw [hasettled]
      exact Ne.symm hn
    · split at hc
      · cases hc
        rw [hbsettled]
        exact hfree i a hpair.giver
      · exact hfree k c hc

/-- The other pairs are not touched by a swap. -/
theorem Paired.swapped (hs : Paired s) (hpair : IsPair s i j a b name)
    (h : Swapped i j a b s s') : Paired s' := by
  -- an alias that is left is neither the name that was given nor one of the old names
  have hleft : ∀ {k c n}, s'.account k = some c → c.aliasName = some n →
      s.account k = some c ∧ k ≠ i ∧ k ≠ j ∧ n ≠ name ∧ n ≠ a.name ∧ n ≠ b.name := by
    intro k c n hc hn
    obtain ⟨hki, hkj, hold⟩ := h.of_alias hc hn
    refine ⟨hold, hki, hkj, ?_, ?_, ?_⟩
    · rintro rfl
      exact hki (hs.distinct hold hpair.giver hn hpair.giver_alias)
    · rintro rfl
      exact hkj (hs.distinct hold hpair.taker hn hpair.taker_alias)
    · rintro rfl
      obtain ⟨m, hm, hfree⟩ := hs.taker hold hpair.taker hn
      rw [hpair.taker_alias] at hm
      cases hm
      exact hfree i a hpair.giver rfl
  refine ⟨?_, ?_, ?_⟩
  · intro k l c d n hc hd hcn hdn
    exact hs.distinct (hleft hc hcn).1 (hleft hd hdn).1 hcn hdn
  · intro k l c d hc hd hcd
    obtain ⟨hc₀, -, -, hn, hna, hnb⟩ := hleft hc hcd
    rw [h.account] at hd
    split at hd
    · cases hd
      refine absurd ?_ hn
      unfold Account.settled
      rw [hpair.giver_alias, getD_some]
    · split at hd
      · cases hd
        refine absurd ?_ hna
        unfold Account.settled
        rw [hpair.taker_alias, getD_some]
      · rename_i hli hlj
        obtain ⟨m, hm, hfree⟩ := hs.taker hc₀ hd hcd
        have hd' : s'.account l = some d := by rw [h.account, if_neg hli, if_neg hlj, hd]
        obtain ⟨-, -, -, hm₁, -, hm₂⟩ := hleft hd' hm
        exact ⟨m, hm, (h.free_iff hpair hm₁ hm₂).2 hfree⟩
  · intro k c m hc hm hfree
    obtain ⟨hc₀, hki, hkj, hm₁, -, hm₂⟩ := hleft hc hm
    obtain ⟨l, d, hd, hdalias⟩ := hs.giver hc₀ hm ((h.free_iff hpair hm₁ hm₂).1 hfree)
    refine ⟨l, d, ?_, hdalias⟩
    have hli : l ≠ i := by
      rintro rfl
      rw [hpair.giver] at hd
      cases hd
      rw [hpair.giver_alias] at hdalias
      exact hpair.free k c hc₀ (Option.some.inj hdalias).symm
    have hlj : l ≠ j := by
      rintro rfl
      rw [hpair.taker] at hd
      cases hd
      rw [hpair.taker_alias] at hdalias
      exact hki (eq_of_name hc₀ hpair.giver (Option.some.inj hdalias).symm)
    rw [h.account, if_neg hli, if_neg hlj, hd]

end Swap

/-! ### The loop -/

variable {l : List (Account H)}

theorem mem_of_leastAlias (h : leastAlias l = some a) :
    a ∈ l ∧ a.aliasName.isSome = true := by
  induction l with
  | nil => cases h
  | cons b l ih =>
    unfold leastAlias at h
    cases hb : b.aliasName with
    | none =>
      rw [hb] at h
      exact ⟨mem_cons_of_mem _ (ih h).1, (ih h).2⟩
    | some n =>
      have hself : b ∈ b :: l ∧ b.aliasName.isSome = true := ⟨mem_cons_self, by rw [hb]; rfl⟩
      rw [hb] at h
      cases hl : leastAlias l with
      | none =>
        rw [hl] at h
        cases h
        exact hself
      | some c =>
        rw [hl] at h ih
        dsimp only at h
        split at h
        · cases h
          exact ⟨mem_cons_of_mem _ (ih rfl).1, (ih rfl).2⟩
        · cases h
          exact hself

theorem leastAlias_eq_none (h : leastAlias l = none) (ha : a ∈ l) :
    a.aliasName = none := by
  induction l with
  | nil => cases ha
  | cons b l ih =>
    unfold leastAlias at h
    cases hb : b.aliasName with
    | none =>
      rw [hb] at h
      rcases mem_cons.1 ha with rfl | ha
      · exact hb
      · exact ih h ha
    | some n =>
      rw [hb] at h
      cases hl : leastAlias l with
      | none =>
        rw [hl] at h
        cases h
      | some c =>
        rw [hl] at h
        dsimp only at h
        split at h <;> cases h

theorem Account.settled_of_none (h : a.aliasName = none) : a.settled = a := by
  unfold Account.settled
  rw [h, getD_none]
  cases a
  cases h
  rfl

theorem pending_range (s : Accounts H) : 0 ≤ pending s ∧ pending s ≤ s.rows.length := by
  unfold pending Table.total rows
  induction s.table.rows with
  | nil => simp
  | cons a l ih =>
    rw [map_cons, sum_cons, length_cons]
    split <;> omega

/-- **The maintenance of names** comes to an end without an exception, and every account has
    the name it was to have. -/
theorem processNameTransfer_returns {fuel : Nat} {s : Accounts H} (hs : Paired s)
    (hfuel : pending s < fuel) :
    ∃ s', processNameTransfer fuel s = some (.ok s') ∧
      ∀ k, s'.account k = (s.account k).map Account.settled := by
  induction fuel generalizing s with
  | zero =>
    have := (pending_range s).1
    omega
  | succ fuel ih =>
    unfold processNameTransfer
    cases hleast : leastAlias s.rows with
    | none =>
      refine ⟨s, rfl, ?_⟩
      intro k
      cases hk : s.account k with
      | none => rfl
      | some a =>
        rw [map_some, a.settled_of_none (leastAlias_eq_none hleast (mem_of_account hk))]
    | some a =>
      obtain ⟨hmem, hsome⟩ := mem_of_leastAlias hleast
      obtain ⟨name, halias⟩ := isSome_iff_exists.1 hsome
      obtain ⟨i, j, b, c, m, s₁, hpair, hround, hswapped⟩ :=
        round_swaps hs (mem_rows_iff_account.1 hmem) halias
      obtain ⟨s', hs', haccount⟩ := ih (hs.swapped hpair hswapped) (by
        rw [hswapped.pending]
        omega)
      dsimp only
      rw [hround]
      refine ⟨s', hs', ?_⟩
      intro k
      rw [haccount, hswapped.account]
      by_cases hki : k = i
      · rw [if_pos hki, hki, hpair.giver]
        rfl
      · by_cases hkj : k = j
        · rw [if_neg hki, if_pos hkj, hkj, hpair.taker]
          rfl
        · rw [if_neg hki, if_neg hkj]

end HyperExchange.Names
