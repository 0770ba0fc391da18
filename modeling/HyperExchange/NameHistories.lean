/-
  **Histories of names.**

  The creation of an account does not look at the aliases, so it may take a name that is
  promised to somebody.  A name transfer takes a name for unused if it leads to the null
  address; it compares addresses with their version, while the index it looks into does not;
  and it hands on the name of the account it finds under an address, not the one it was asked
  for.  In a history without such steps every maintenance comes to an end and gives every
  account the name agreed for it (`names_transferred`).
-/
import HyperExchange.NamePairs

namespace HyperExchange.Names

open Keyed Execution Ops Accounts Option

variable {H : Type}

/-! ### What the operations do to the accounts -/

section Accounts

variable {s s' : Accounts H}

theorem account_nextId (s : Accounts H) : s.account s.nextId = none := by
  cases h : s.account s.nextId with
  | none => rfl
  | some a =>
    have hlt := s.fresh a (mem_of_account h)
    rw [id_of_account h] at hlt
    exact absurd hlt (Nat.lt_irrefl _)

theorem account_create {name : String} {addr : Address H} (h : s.create name addr = some s') :
    s.Free name ∧
      ∀ k, s'.account k =
        if k = s.nextId then some ⟨s.nextId, name, none, addr⟩ else s.account k := by
  unfold create at h
  split at h
  · rename_i hname
    cases h
    refine ⟨fun i a ha => hname a (mem_of_account ha), ?_⟩
    intro k
    have hnone : s.table.find s.nextId = none := account_nextId s
    by_cases hk : k = s.nextId
    · rw [if_pos hk, hk]
      unfold account Table.find at hnone ⊢
      rw [List.find?_append, hnone]
      simp
    · rw [if_neg hk]
      unfold account Table.find
      rw [List.find?_append]
      simp [Ne.symm hk]
  · cases h

/-- A new account has no alias, and nobody is promised its name. -/
theorem Paired.create {name : String} {addr : Address H} (hs : Paired s)
    (h : s.create name addr = some s') (halias : ∀ a ∈ s.rows, a.aliasName ≠ some name) :
    Paired s' := by
  obtain ⟨-, haccount⟩ := account_create h
  have hold : ∀ {k c n}, s'.account k = some c → c.aliasName = some n → s.account k = some c := by
    intro k c n hc hn
    rw [haccount] at hc
    split at hc
    · cases hc
      cases hn
    · exact hc
  have hkeep : ∀ {k c}, s.account k = some c → s'.account k = some c := by
    intro k c hc
    rw [haccount, if_neg]
    · exact hc
    · rintro rfl
      rw [account_nextId] at hc
      cases hc
  refine ⟨?_, ?_, ?_⟩
  · intro i j a b n ha hb han hbn
    exact hs.distinct (hold ha han) (hold hb hbn) han hbn
  · intro i j a b ha hb hab
    have ha₀ := hold ha hab
    rw [haccount] at hb
    split at hb
    · cases hb
      exact absurd hab (halias a (mem_of_account ha₀))
    · rename_i hj
      obtain ⟨m, hm, hfree⟩ := hs.taker ha₀ hb hab
      refine ⟨m, hm, ?_⟩
      intro k c hc
      rw [haccount] at hc
      split at hc
      · cases hc
        rintro rfl
        exact halias b (mem_of_account hb) hm
      · exact hfree k c hc
  · intro i a n ha han hfree
    obtain ⟨j, b, hb, hbalias⟩ := hs.giver (hold ha han) han fun k c hc => hfree k c (hkeep hc)
    exact ⟨j, b, hkeep hb, hbalias⟩

/-- The two accounts of a transfer have their aliases. -/
structure Promised (giver taker : Account H) (name : String) (s s' : Accounts H) : Prop where
  account : ∀ k, s'.account k =
    if k = taker.id then some { taker with aliasName := some giver.name }
    else if k = giver.id then some { giver with aliasName := some name }
    else s.account k

variable {giver taker : Account H} {name : String}

theorem promised_of_modify {s₁ : Accounts H} (hg : s.account giver.id = some giver)
    (ht : s.account taker.id = some taker) (hne : giver.id ≠ taker.id)
    (h₁ : s.modify giver.id (setAlias name) = some s₁)
    (h₂ : s₁.modify taker.id (setAlias giver.name) = some s') :
    Promised giver taker name s s' := by
  constructor
  intro k
  rw [account_modify h₂, account_modify h₁, Option.map_map]
  by_cases hkt : k = taker.id
  · rw [if_pos hkt, hkt, ht, map_some]
    simp [setAlias, Ne.symm hne]
  · rw [if_neg hkt]
    by_cases hkg : k = giver.id
    · rw [if_pos hkg, hkg, hg, map_some]
      simp [setAlias, hne]
    · rw [if_neg hkg]
      cases s.account k with
      | none => rfl
      | some a => simp [hkt, hkg]

/-- A promise takes no name and frees none. -/
theorem Promised.free_iff (h : Promised giver taker name s s')
    (hg : s.account giver.id = some giver) (ht : s.account taker.id = some taker) (n : String) :
    s'.Free n ↔ s.Free n := by
  have hkeep : ∀ k, (s'.account k).map Account.name = (s.account k).map Account.name := by
    intro k
    rw [h.account]
    split
    · rename_i hk
      rw [hk, ht]
      rfl
    · split
      · rename_i hk
        rw [hk, hg]
        rfl
      · rfl
  constructor
  · intro hfree k a ha hn
    have hname := hkeep k
    rw [ha] at hname
    obtain ⟨b, hb, hbname⟩ := map_eq_some_iff.1 hname
    exact hfree k b hb (hbname.trans hn)
  · intro hfree k a ha hn
    have hname := hkeep k
    rw [ha] at hname
    obtain ⟨b, hb, hbname⟩ := map_eq_some_iff.1 hname.symm
    exact hfree k b hb (hbname.trans hn)

/-- Giver and taker are a pair of their own. -/
theorem Paired.promised (hs : Paired s) (h : Promised giver taker name s s')
    (hg : s.account giver.id = some giver) (ht : s.account taker.id = some taker)
    (hne : giver.id ≠ taker.id) (hgiver : giver.aliasName = none) (htaker : taker.aliasName = none)
    (hfree : s.Free name) (hunused : ∀ i a, s.account i = some a → a.aliasName ≠ some name) :
    Paired s' := by
  have hgiver' : s'.account giver.id = some { giver with aliasName := some name } := by
    rw [h.account, if_neg hne, if_pos rfl]
  have htaker' : s'.account taker.id = some { taker with aliasName := some giver.name } := by
    rw [h.account, if_pos rfl]
  -- the name of the giver is nobody's alias yet, since the giver has none
  have hgivername : ∀ i a, s.account i = some a → a.aliasName ≠ some giver.name := by
    intro i a ha halias
    obtain ⟨m, hm, -⟩ := hs.taker ha hg halias
    rw [hgiver] at hm
    cases hm
  have hcases : ∀ {k c n}, s'.account k = some c → c.aliasName = some n →
      (k = taker.id ∧ n = giver.name) ∨ (k = giver.id ∧ n = name) ∨ s.account k = some c := by
    intro k c n hc hn
    rw [h.account] at hc
    split at hc
    · cases hc
      cases hn
      exact .inl ⟨‹_›, rfl⟩
    · split at hc
      · cases hc
        cases hn
        exact .inr (.inl ⟨‹_›, rfl⟩)
      · exact .inr (.inr hc)
  have hkeep : ∀ {k c n}, s.account k = some c → c.aliasName = some n → s'.account k = some c := by
    intro k c n hc hn
    rw [h.account, if_neg, if_neg]
    · exact hc
    · rintro rfl
      rw [hg] at hc
      cases hc
      rw [hgiver] at hn
      cases hn
    · rintro rfl
      rw [ht] at hc
      cases hc
      rw [htaker] at hn
      cases hn
  refine ⟨?_, ?_, ?_⟩
  · intro i j a b n ha hb han hbn
    rcases hcases ha han with ⟨rfl, rfl⟩ | ⟨rfl, rfl⟩ | ha₀ <;>
      rcases hcases hb hbn with ⟨rfl, hn⟩ | ⟨rfl, hn⟩ | hb₀
    · rfl
    · exact absurd hn (hfree _ giver hg)
    · exact absurd hbn (hgivername j b hb₀)
    · exact absurd hn.symm (hfree _ giver hg)
    · rfl
    · exact absurd hbn (hunused j b hb₀)
    · subst hn
      exact absurd han (hgivername i a ha₀)
    · subst hn
      exact absurd han (hunused i a ha₀)
    · exact hs.distinct ha₀ hb₀ han hbn
  · intro i j a b ha hb hab
    have hbfree := (h.free_iff hg ht b.name).not.1 fun hnot => hnot j b hb rfl
    rcases hcases ha hab with ⟨rfl, hn⟩ | ⟨rfl, hn⟩ | ha₀
    · -- the taker of this transfer
      have hj : j = giver.id := eq_of_name hb hgiver' hn
      subst hj
      rw [hgiver'] at hb
      cases hb
      exact ⟨name, rfl, (h.free_iff hg ht name).2 hfree⟩
    · rw [hn] at hbfree
      exact absurd hfree hbfree
    · obtain ⟨k, c, hc, hcname⟩ : ∃ k c, s.account k = some c ∧ c.name = b.name := by
        unfold Free at hbfree
        push Not at hbfree
        exact hbfree
      obtain ⟨m, hm, hmfree⟩ := hs.taker ha₀ hc (hab.trans (congrArg some hcname.symm))
      have hjk : j = k := eq_of_name hb (hkeep hc hm) hcname.symm
      subst hjk
      rw [hkeep hc hm] at hb
      cases hb
      exact ⟨m, hm, (h.free_iff hg ht m).2 hmfree⟩
  · intro i a n ha han hnfree
    have hnfree := (h.free_iff hg ht n).1 hnfree
    rcases hcases ha han with ⟨rfl, rfl⟩ | ⟨rfl, rfl⟩ | ha₀
    · exact absurd rfl (hnfree _ giver hg)
    · rw [hgiver'] at ha
      cases ha
      exact ⟨taker.id, _, htaker', rfl⟩
    · obtain ⟨j, b, hb, hbalias⟩ := hs.giver ha₀ han hnfree
      exact ⟨j, b, hkeep hb hbalias, hbalias⟩

end Accounts

/-! ### Runs -/

def State.Fresh (s : State H) : Prop :=
  (∀ a ∈ s.accounts.rows, a.aliasName = none ∧ a.name ≠ "") ∧ ∀ i, s.agreed i = none

/-- The aliases are the names agreed on, in pairs. -/
structure Arranged (s : State H) : Prop where
  paired : Paired s.accounts
  agreed : ∀ i, s.agreed i = (s.accounts.account i).bind Account.aliasName
  named : ∀ i a, s.accounts.account i = some a → a.name ≠ "" ∧ a.aliasName ≠ some ""

section Steps

variable {s s' : State H}

theorem arranged_of_settled (hnone : ∀ i a, s.accounts.account i = some a → a.aliasName = none)
    (hagreed : ∀ i, s.agreed i = none)
    (hnamed : ∀ i a, s.accounts.account i = some a → a.name ≠ "") : Arranged s where
  paired := by
    refine ⟨?_, ?_, ?_⟩
    · intro i j a b n ha _ han
      rw [hnone i a ha] at han
      cases han
    · intro i j a b ha _ hab
      rw [hnone i a ha] at hab
      cases hab
    · intro i a n ha han
      rw [hnone i a ha] at han
      cases han
  agreed := by
    intro i
    rw [hagreed]
    cases hi : s.accounts.account i with
    | none => rfl
    | some a => rw [bind_some, hnone i a hi]
  named := by
    intro i a ha
    rw [hnone i a ha]
    exact ⟨hnamed i a ha, nofun⟩

theorem newName_ne_empty {o : NameTransfer H} {name : String} (n : Nat)
    (hvalid : (o.newname.all isValidName) = true) (hname : name ≠ "") : o.newName name n ≠ "" := by
  unfold NameTransfer.newName
  cases ho : o.newname with
  | none =>
    rw [getD_none]
    intro hempty
    exact hname (String.append_eq_empty_iff.1 hempty).1
  | some m =>
    rw [ho, all_some] at hvalid
    exact ne_empty_of_isValidName hvalid

variable (hs : Arranged s)
include hs

/-- The maintenance returns, whatever bound above the number of accounts is taken. -/
theorem Arranged.process : ∃ accounts, processNameTransfer (s.accounts.rows.length + 1) s.accounts =
    some (.ok accounts) ∧ (∀ i, accounts.account i = (s.accounts.account i).map Account.settled) ∧
    ∀ i a, accounts.account i = some a → a.name ≠ "" := by
  have hfuel : pending s.accounts < ((s.accounts.rows.length + 1 : Nat) : Int) := by
    have := (pending_range s.accounts).2
    omega
  obtain ⟨accounts, hprocess, haccount⟩ := processNameTransfer_returns hs.paired hfuel
  refine ⟨accounts, hprocess, haccount, ?_⟩
  intro i a ha
  rw [haccount] at ha
  obtain ⟨b, hb, rfl⟩ := map_eq_some_iff.1 ha
  obtain ⟨hname, halias⟩ := hs.named i b hb
  unfold Account.settled
  cases hn : b.aliasName with
  | none => exact hname
  | some n =>
    intro hempty
    have hempty : n = "" := hempty
    rw [hn, hempty] at halias
    exact halias rfl

/-- Maintenance keeps all promises. -/
theorem Arranged.maintenance : Arranged s.maintenance := by
  obtain ⟨accounts, hprocess, haccount, hnamed⟩ := hs.process
  unfold State.maintenance
  rw [hprocess]
  refine arranged_of_settled ?_ (fun _ => rfl) hnamed
  intro i a ha
  rw [haccount] at ha
  obtain ⟨b, -, rfl⟩ := map_eq_some_iff.1 ha
  rfl

theorem Arranged.create [DecidableEq H] {o : AccountCreate H}
    (halias : ∀ a ∈ s.accounts.rows, a.aliasName ≠ some o.name) (h : applyCreate o s = some s') :
    Arranged s' := by
  unfold applyCreate at h
  split at h
  case isFalse => cases h
  rename_i hok
  obtain ⟨accounts, hcreate, rfl⟩ := map_eq_some_iff.1 h
  obtain ⟨-, haccount⟩ := account_create hcreate
  refine ⟨hs.paired.create hcreate halias, ?_, ?_⟩
  · intro i
    rw [hs.agreed, haccount]
    split
    · rename_i hi
      rw [hi, account_nextId]
      rfl
    · rfl
  · intro i a ha
    rw [haccount] at ha
    split at ha
    · cases ha
      exact ⟨ne_empty_of_isValidName hok.1, nofun⟩
    · exact hs.named i a ha

end Steps

variable [DecidableEq H] [Inhabited H]

/-- The step is one of those the evaluators look after.  The operations come above the
    checkpoint, where they are evaluated. -/
def Orderly (s : State H) : Event H → Prop
  | .create o =>
    checkPointBlock < s.headBlockNum ∧ ∀ a ∈ s.accounts.rows, a.aliasName ≠ some o.name
  | .transfer o =>
    checkPointBlock < s.headBlockNum ∧
    ∀ giver ∈ s.accounts.byAddress o.fromAddr, ∀ taker ∈ s.accounts.byAddress o.toAddr,
      giver.id ≠ taker.id ∧ giver.name = o.original ∧
      ∀ a ∈ s.accounts.rows, a.name ≠ o.newName giver.name s.headBlockNum
  | .update | .block | .maintenance => True

instance (s : State H) (e : Event H) : Decidable (Orderly s e) := by
  cases e <;> unfold Orderly <;> infer_instance

theorem Arranged.transfer {s s' : State H} (hs : Arranged s) {o : NameTransfer H}
    (ho : Orderly s (.transfer o)) (h : applyTransfer o s = some s') : Arranged s' := by
  obtain ⟨habove, horderly⟩ := ho
  unfold applyTransfer at h
  split at h
  case isFalse => cases h
  rename_i hok
  simp only [bind_eq_bind, bind_eq_some_iff, Option.some.injEq] at h
  obtain ⟨giver, hgiver, taker, htaker, s₁, hfirst, s₂, hsecond, rfl⟩ := h
  have heval := hok.2
  unfold State.ifEvaluate evaluateTransfer at heval
  rw [hgiver, htaker] at heval
  simp only [habove, decide_true, Bool.not_true, Bool.false_or, Bool.and_eq_true,
    isNone_iff_eq_none] at heval
  obtain ⟨⟨⟨⟨⟨-, hgnone⟩, htnone⟩, -⟩, -⟩, halias⟩ := heval
  obtain ⟨hne, horiginal, hname⟩ := horderly giver hgiver taker htaker
  have hg := account_of_byAddress hgiver
  have ht := account_of_byAddress htaker
  have hpromised := promised_of_modify hg ht hne hfirst hsecond
  have hfree : s.accounts.Free (o.newName giver.name s.headBlockNum) :=
    fun i a ha => hname a (mem_of_account ha)
  refine ⟨hs.paired.promised hpromised hg ht hne hgnone htnone hfree
    fun i a ha => byAlias_eq_none halias ha, ?_, ?_⟩
  · intro i
    show (if i = taker.id then some o.original
      else if i = giver.id then some (o.newName o.original s.headBlockNum) else s.agreed i) =
        (s₂.account i).bind Account.aliasName
    rw [hpromised.account, ← horiginal]
    split
    · rfl
    · split
      · rfl
      · exact hs.agreed i
  · intro i a ha
    rw [hpromised.account] at ha
    split at ha
    · cases ha
      exact ⟨(hs.named _ taker ht).1, fun h => (hs.named _ giver hg).1 (Option.some.inj h)⟩
    · split at ha
      · cases ha
        refine ⟨(hs.named _ giver hg).1, ?_⟩
        intro hempty
        exact newName_ne_empty s.headBlockNum hok.1 (hs.named _ giver hg).1 (Option.some.inj hempty)
      · exact hs.named i a ha

/-- Whatever the event, all open promises are paired. -/
theorem Arranged.step {s : State H} (hs : Arranged s) {e : Event H} (he : Orderly s e) :
    Arranged (step s e) := by
  cases e with
  | create o =>
    show Arranged ((applyCreate o s).getD s)
    cases h : applyCreate o s with
    | none => exact hs
    | some t => exact hs.create he.2 h
  | transfer o =>
    show Arranged ((applyTransfer o s).getD s)
    cases h : applyTransfer o s with
    | none => exact hs
    | some t => exact hs.transfer he h
  | update => exact hs
  | block => exact ⟨hs.paired, hs.agreed, hs.named⟩
  | maintenance => exact hs.maintenance

/-- **Name transfers complete.**  In every state of an orderly history a maintenance would end
    without an exception; then names are still unique, every account has one and no alias, and
    it is the name agreed in the account's transfer, if there was one. -/
theorem names_transferred (s : State H) (h : ReachableUnder State.Fresh Orderly step s) :
    ∃ fuel accounts, processNameTransfer fuel s.accounts = some (.ok accounts) ∧
      (accounts.rows.map Account.name).Nodup ∧
      (∀ a ∈ accounts.rows, a.name ≠ "" ∧ a.aliasName = none) ∧
      ∀ i, accounts.account i = (s.accounts.account i).map fun a =>
        { a with name := (s.agreed i).getD a.name, aliasName := none } := by
  have hs : Arranged s := by
    refine h.invariant Arranged ?_ fun s e hs he => hs.step he
    intro s hs
    refine arranged_of_settled ?_ hs.2 ?_
    · intro i a ha
      exact (hs.1 a (mem_of_account ha)).1
    · intro i a ha
      exact (hs.1 a (mem_of_account ha)).2
  obtain ⟨accounts, hprocess, haccount, hnamed⟩ := hs.process
  refine ⟨_, accounts, hprocess, accounts.unique, ?_, ?_⟩
  · intro a ha
    have ha := mem_rows_iff_account.1 ha
    refine ⟨hnamed _ a ha, ?_⟩
    rw [haccount] at ha
    obtain ⟨b, -, rfl⟩ := map_eq_some_iff.1 ha
    rfl
  · intro i
    rw [haccount, hs.agreed]
    cases s.accounts.account i with
    | none | some => rfl

/-! ### Two histories

Account 0 gives its name to account 1, and takes the name carol; in the second history
somebody registers as carol before the maintenance. -/

def aliceAndBob : State Nat where
  accounts :=
    { table := ⟨[⟨0, "alice", none, ⟨Address.normal, 10⟩⟩, ⟨1, "bob", none, ⟨Address.normal, 11⟩⟩],
        by decide⟩
      unique := by decide
      nextId := 2
      fresh := by decide }
  headBlockNum := 2000000
  agreed _ := none

def giveName : Event Nat :=
  .transfer ⟨⟨Address.normal, 10⟩, ⟨Address.normal, 11⟩, "alice", some "carol"⟩

def register : Event Nat := .create ⟨"carol", ⟨Address.normal, 12⟩, ⟨Address.normal, 12⟩⟩

theorem alice_becomes_carol :
    (step aliceAndBob giveName).agreed 0 = some "carol" ∧
      ∃ fuel accounts,
        processNameTransfer fuel (step aliceAndBob giveName).accounts = some (.ok accounts) ∧
        (accounts.account 0).map Account.name = some "carol" ∧
        (accounts.account 1).map Account.name = some "alice" := by
  have hreach : ReachableUnder State.Fresh Orderly step ([giveName].foldl step aliceAndBob) :=
    .of_checkRun (.start ⟨by decide, fun _ => rfl⟩) (by decide +kernel)
  refine ⟨by decide +kernel, ?_⟩
  obtain ⟨fuel, accounts, hprocess, -, -, haccount⟩ := names_transferred _ hreach
  refine ⟨fuel, accounts, hprocess, ?_, ?_⟩
  all_goals
    rw [haccount]
    decide +kernel

theorem carol_registers_first :
    let s := [giveName, register].foldl step aliceAndBob
    s.accounts.rows.map (fun a => (a.name, a.aliasName)) =
        [("alice", some "carol"), ("bob", some "alice"), ("carol", none)] ∧
      ∀ fuel, (processNameTransfer (fuel + 1) s.accounts).map Exec.returned = some false := by
  intro s
  refine ⟨by decide +kernel, ?_⟩
  intro fuel
  -- bob comes first, and alice cannot be renamed
  obtain ⟨a, hleast, hround⟩ : ∃ a, leastAlias s.accounts.rows = some a ∧
      (s.accounts.round a).isNone = true :=
    ⟨⟨1, "bob", some "alice", ⟨Address.normal, 11⟩⟩, by decide +kernel, by decide +kernel⟩
  unfold processNameTransfer
  rw [hleast]
  dsimp only
  rw [isNone_iff_eq_none.1 hround]
  rfl

end HyperExchange.Names
