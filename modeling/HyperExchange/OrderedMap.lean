/-
  **Ordered maps, and scans over the keys with a prefix.**

  A map is a list of entries with increasing keys, and carries the proof that they are.  For
  maps to amounts `sumOver` adds up the amounts of some keys (`sumOver_insert`).  A map to
  lists can be written as one list of keys and values (`ungroup_inj`).

  Keys that are lists are compared lexicographically.  The keys that extend a given one lie
  directly behind it, and a scan that starts there and stops at the first other key finds
  all of them (`scanFrom_eq`, `scanAfter_eq`).
-/
import Mathlib.Data.List.Lex
import Mathlib.Algebra.Order.Ring.Int

namespace HyperExchange.OrderedMap

open List Option

/-- Entries with increasing keys. -/
structure OMap (K V : Type) [LinearOrder K] where
  entries : List (K × V)
  sorted : entries.Pairwise fun x y => x.1 < y.1

namespace OMap

section Containers

variable {K V : Type} [LinearOrder K] {k : K} {v : V}

def empty : OMap K V := ⟨[], List.Pairwise.nil⟩

theorem ext_entries {m m' : OMap K V} (h : m.entries = m'.entries) : m = m' := by
  cases m
  cases m'
  cases h
  rfl

/-! ### Entries in a list -/

def lookup (k : K) : List (K × V) → Option V
  | [] => none
  | e :: l => if e.1 = k then some e.2 else lookup k l

def insertEntry (k : K) (v : V) : List (K × V) → List (K × V)
  | [] => [(k, v)]
  | e :: l =>
    if k < e.1 then (k, v) :: e :: l
    else if k = e.1 then (k, v) :: l
    else e :: insertEntry k v l

variable {l : List (K × V)}

theorem mem_insertEntry {e : K × V} (h : e ∈ insertEntry k v l) :
    e = (k, v) ∨ e ∈ l := by
  induction l with
  | nil => exact Or.inl (mem_singleton.mp h)
  | cons d l ih =>
    rw [insertEntry] at h
    split at h
    · exact mem_cons.mp h
    split at h
    · rcases mem_cons.mp h with h | h
      · exact Or.inl h
      · exact Or.inr (mem_cons_of_mem d h)
    · rcases mem_cons.mp h with rfl | h
      · exact Or.inr mem_cons_self
      · exact (ih h).imp id (mem_cons_of_mem d)

/-- Inserting keeps the keys in order. -/
theorem pairwise_insertEntry (k : K) (v : V)
    (h : l.Pairwise fun x y => x.1 < y.1) :
    (insertEntry k v l).Pairwise fun x y => x.1 < y.1 := by
  induction l with
  | nil => exact pairwise_singleton _ _
  | cons d l ih =>
    rw [pairwise_cons] at h
    rw [insertEntry]
    split
    · next hlt =>
      exact pairwise_cons.mpr
        ⟨forall_mem_cons.mpr ⟨hlt, fun e he => hlt.trans (h.1 e he)⟩, pairwise_cons.mpr h⟩
    · split
      · next heq =>
        refine pairwise_cons.mpr ⟨?_, h.2⟩
        intro e he
        rw [heq]
        exact h.1 e he
      · next hge hne =>
        refine pairwise_cons.mpr ⟨?_, ih h.2⟩
        intro e he
        rcases mem_insertEntry he with rfl | he
        · exact lt_of_le_of_ne (not_lt.mp hge) (Ne.symm hne)
        · exact h.1 e he

theorem lookup_insertEntry (k : K) (v : V) (l : List (K × V)) (k' : K) :
    lookup k' (insertEntry k v l) = if k' = k then some v else lookup k' l := by
  induction l with
  | nil => simp only [insertEntry, lookup, eq_comm]
  | cons d l ih =>
    rw [insertEntry]
    split
    · simp only [lookup, eq_comm]
    split
    · next heq =>
      simp only [lookup, ← heq]
      by_cases hk : k' = k
      · rw [if_pos hk, if_pos hk.symm]
      · rw [if_neg hk, if_neg (Ne.symm hk), if_neg (Ne.symm hk)]
    · next _ hne =>
      rw [lookup, ih, lookup]
      by_cases hk : k' = k
      · subst hk
        rw [if_neg (Ne.symm hne), if_pos rfl, if_pos rfl]
      · rw [if_neg hk, if_neg hk]

theorem lookup_filter (k : K) (l : List (K × V)) (k' : K) :
    lookup k' (l.filter fun e => decide (e.1 ≠ k)) = if k' = k then none else lookup k' l := by
  induction l with
  | nil => simp only [filter_nil, lookup, ite_self]
  | cons d l ih =>
    by_cases hd : d.1 = k
    · rw [filter_cons_of_neg (by simpa using hd), ih, lookup]
      by_cases hk : k' = k
      · rw [if_pos hk, if_pos hk]
      · rw [if_neg hk, if_neg hk, if_neg (by rw [hd]; exact Ne.symm hk)]
    · rw [filter_cons_of_pos (by simpa using hd), lookup, ih, lookup]
      by_cases hk : k' = k
      · subst hk
        rw [if_neg hd, if_pos rfl, if_pos rfl]
      · rw [if_neg hk, if_neg hk]

theorem mem_of_lookup (h : lookup k l = some v) : (k, v) ∈ l := by
  induction l with
  | nil => cases h
  | cons d l ih =>
    rw [lookup] at h
    split at h
    · next hd =>
      cases h
      rw [← hd]
      exact mem_cons_self
    · exact mem_cons_of_mem d (ih h)

theorem lookup_of_mem (hs : l.Pairwise fun x y => x.1 < y.1) (h : (k, v) ∈ l) :
    lookup k l = some v := by
  induction l with
  | nil => cases h
  | cons d l ih =>
    rw [pairwise_cons] at hs
    rcases mem_cons.mp h with rfl | hmem
    · rw [lookup, if_pos rfl]
    · have hlt : d.1 < k := hs.1 _ hmem
      rw [lookup, if_neg hlt.ne, ih hs.2 hmem]

/-! ### Containers -/

variable (m : OMap K V)

def find (k : K) : Option V := lookup k m.entries

def insert (k : K) (v : V) : OMap K V :=
  ⟨insertEntry k v m.entries, pairwise_insertEntry k v m.sorted⟩

def erase (k : K) : OMap K V :=
  ⟨m.entries.filter fun e => decide (e.1 ≠ k), m.sorted.filter _⟩

@[simp] theorem find_empty (k : K) : (empty : OMap K V).find k = none := rfl

theorem mem_entries_insert {m : OMap K V} {e : K × V} (h : e ∈ (m.insert k v).entries) :
    e = (k, v) ∨ e ∈ m.entries :=
  mem_insertEntry h

theorem find_insert (k : K) (v : V) (k' : K) :
    (m.insert k v).find k' = if k' = k then some v else m.find k' :=
  lookup_insertEntry k v m.entries k'

theorem find_erase (k k' : K) : (m.erase k).find k' = if k' = k then none else m.find k' :=
  lookup_filter k m.entries k'

theorem mem_entries_iff (k : K) (v : V) : (k, v) ∈ m.entries ↔ m.find k = some v :=
  ⟨lookup_of_mem m.sorted, mem_of_lookup⟩

def emplace (k : K) (v : V) : OMap K V :=
  if (m.find k).isSome then m else m.insert k v

theorem find_emplace (k : K) (v : V) (k' : K) :
    (m.emplace k v).find k' = (m.find k').or (if k' = k then some v else none) := by
  unfold emplace
  cases hf : m.find k with
  | some w =>
    rw [if_pos (by rfl)]
    by_cases hk : k' = k
    · rw [hk, hf]
      rfl
    · rw [if_neg hk, or_none]
  | none =>
    rw [if_neg (by simp), find_insert]
    by_cases hk : k' = k
    · rw [if_pos hk, if_pos hk, hk, hf]
      rfl
    · rw [if_neg hk, if_neg hk, or_none]

theorem find_foldl_emplace (key : V → K) (l : List V) (m : OMap K V) (k : K) :
    (l.foldl (fun m v => m.emplace (key v) v) m).find k =
      (m.find k).or (l.find? fun v => key v = k) := by
  induction l generalizing m with
  | nil => rw [foldl_nil, List.find?_nil, or_none]
  | cons v l ih =>
    rw [foldl_cons, ih, find_emplace, Option.or_assoc, List.find?_cons]
    by_cases hk : key v = k
    · rw [if_pos hk.symm, decide_eq_true hk]
      rfl
    · rw [if_neg (Ne.symm hk), decide_eq_false hk]
      rfl

/-- All entries of `n` put into `m`. -/
def insertAll (m n : OMap K V) : OMap K V := n.entries.foldl (fun m e => m.insert e.1 e.2) m

def eraseAll (l : List K) : OMap K V := l.foldl erase m

theorem find_foldl_insert (hs : l.Pairwise fun x y => x.1 < y.1)
    (m : OMap K V) (k : K) :
    (l.foldl (fun m e => m.insert e.1 e.2) m).find k = (lookup k l).or (m.find k) := by
  induction l generalizing m with
  | nil => rfl
  | cons d l ih =>
    rw [pairwise_cons] at hs
    rw [foldl_cons, ih hs.2, find_insert, lookup]
    by_cases hk : d.1 = k
    · -- no later entry has this key
      have hnone : lookup k l = none := by
        cases hl : lookup k l with
        | none => rfl
        | some v =>
          have hlt := hs.1 _ (mem_of_lookup hl)
          exact absurd hk hlt.ne
      rw [hnone, if_pos hk, if_pos hk.symm]
      rfl
    · rw [if_neg hk, if_neg (Ne.symm hk)]

theorem find_insertAll (m n : OMap K V) (k : K) :
    (m.insertAll n).find k = (n.find k).or (m.find k) :=
  find_foldl_insert n.sorted m k

theorem find_eraseAll (l : List K) (k : K) :
    (m.eraseAll l).find k = if k ∈ l then none else m.find k := by
  induction l generalizing m with
  | nil => rfl
  | cons d l ih =>
    rw [eraseAll, foldl_cons]
    refine (ih (m.erase d)).trans ?_
    rw [find_erase]
    by_cases hl : k ∈ l
    · rw [if_pos hl, if_pos (mem_cons_of_mem d hl)]
    · by_cases hk : k = d
      · rw [if_neg hl, if_pos hk, if_pos (hk ▸ mem_cons_self)]
      · rw [if_neg hl, if_neg hk, if_neg (not_mem_cons_of_ne_of_not_mem hk hl)]

end Containers

/-! ### Maps to amounts -/

section Amounts

variable {K : Type} [LinearOrder K] {l : List (K × Int)} (m : OMap K Int)

def amount (k : K) : Int := (m.find k).getD 0

def sumEntries (p : K → Bool) (l : List (K × Int)) : Int :=
  (l.map fun e => if p e.1 then e.2 else 0).sum

def sumOver (p : K → Bool) : Int := sumEntries p m.entries

@[simp] theorem amount_empty (k : K) : (empty : OMap K Int).amount k = 0 := rfl

variable (p : K → Bool)

@[simp] theorem sumOver_empty : (empty : OMap K Int).sumOver p = 0 := rfl

theorem amount_insert (k : K) (v : Int) (k' : K) :
    (m.insert k v).amount k' = if k' = k then v else m.amount k' := by
  unfold amount
  rw [find_insert]
  split
  · rfl
  · rfl

theorem amount_of_mem {m : OMap K Int} {e : K × Int} (h : e ∈ m.entries) : m.amount e.1 = e.2 := by
  unfold amount
  rw [(mem_entries_iff m e.1 e.2).mp h]
  rfl

omit [LinearOrder K] in
theorem sumEntries_cons (e : K × Int) (l : List (K × Int)) :
    sumEntries p (e :: l) = (if p e.1 then e.2 else 0) + sumEntries p l := by
  unfold sumEntries
  rw [map_cons, sum_cons]

theorem lookup_eq_none {k : K} (h : ∀ e ∈ l, k < e.1) : lookup k l = none := by
  cases hl : lookup k l with
  | none => rfl
  | some v => exact absurd (h _ (mem_of_lookup hl)) (lt_irrefl k)

/-- The old amount under the key goes, and the new one comes. -/
theorem sumEntries_insertEntry (k : K) (v : Int)
    (h : l.Pairwise fun x y => x.1 < y.1) : sumEntries p (insertEntry k v l) =
      sumEntries p l + if p k then v - (lookup k l).getD 0 else 0 := by
  induction l with
  | nil =>
    rw [insertEntry, sumEntries_cons]
    simp [sumEntries, lookup]
  | cons d l ih =>
    rw [pairwise_cons] at h
    rw [insertEntry]
    split
    · next hlt =>
      have hnone : lookup k (d :: l) = none :=
        lookup_eq_none (forall_mem_cons.mpr ⟨hlt, fun e he => hlt.trans (h.1 e he)⟩)
      rw [hnone, sumEntries_cons]
      simp only [getD_none]
      split <;> omega
    · split
      · next heq =>
        rw [sumEntries_cons, sumEntries_cons, lookup, if_pos heq.symm, ← heq]
        simp only [getD_some]
        split <;> omega
      · next _ hne =>
        rw [sumEntries_cons, sumEntries_cons, ih h.2, lookup, if_neg (Ne.symm hne)]
        omega

/-- **Sum rule.** A new amount replaces the old one. -/
theorem sumOver_insert (k : K) (v : Int) :
    (m.insert k v).sumOver p = m.sumOver p + if p k then v - m.amount k else 0 :=
  sumEntries_insertEntry p k v m.sorted

omit [LinearOrder K] in
theorem sumEntries_nonneg {p : K → Bool} (h : ∀ e ∈ l, 0 ≤ e.2) : 0 ≤ sumEntries p l := by
  induction l with
  | nil => exact Int.le_refl 0
  | cons e l ih =>
    have hrest := ih fun d hd => h d (mem_cons_of_mem e hd)
    have hfirst := h e mem_cons_self
    rw [sumEntries_cons]
    split <;> omega

theorem sumOver_eq_amount {m : OMap K Int} {p : K → Bool} {k : K} (hk : p k = true)
    (h : ∀ e ∈ m.entries, p e.1 = true → e.1 = k) : m.sumOver p = m.amount k := by
  have hsum : ∀ l : List (K × Int), l.Pairwise (fun x y => x.1 < y.1) →
      (∀ e ∈ l, p e.1 = true → e.1 = k) → sumEntries p l = (lookup k l).getD 0 := by
    intro l hs hl
    induction l with
    | nil => rfl
    | cons d l ih =>
      rw [pairwise_cons] at hs
      have hrest := ih hs.2 fun e he => hl e (mem_cons_of_mem d he)
      rw [sumEntries_cons, lookup, hrest]
      by_cases hd : d.1 = k
      · have hnone : lookup k l = none := lookup_eq_none fun e he => hd ▸ hs.1 e he
        rw [if_pos hd, hd, if_pos hk, hnone]
        simp
      · have hpd : p d.1 = false := by
          cases hpd : p d.1 with
          | false => rfl
          | true => exact absurd (hl d mem_cons_self hpd) hd
        rw [if_neg hd, hpd]
        simp
  exact hsum m.entries m.sorted h

end Amounts

end OMap

/-! ### Groups -/

section Groups

variable {K V : Type} [LinearOrder K] {l : List (K × List V)}

def ungroup (l : List (K × List V)) : List (K × V) := l.flatMap fun g => g.2.map (Prod.mk g.1)

omit [LinearOrder K] in
theorem ungroup_cons (g : K × List V) (l : List (K × List V)) :
    ungroup (g :: l) = g.2.map (Prod.mk g.1) ++ ungroup l := flatMap_cons

omit [LinearOrder K] in
theorem key_of_mem_ungroup {x : K × V} (h : x ∈ ungroup l) : ∃ g ∈ l, g.1 = x.1 := by
  obtain ⟨g, hg, hx⟩ := mem_flatMap.mp h
  obtain ⟨v, _, rfl⟩ := List.mem_map.mp hx
  exact ⟨g, hg, rfl⟩

theorem filter_ungroup_cons {g : K × List V} (h : ∀ d ∈ l, g.1 < d.1) :
    (ungroup (g :: l)).filter (fun x => decide (x.1 = g.1)) = g.2.map (Prod.mk g.1) ∧
      (ungroup (g :: l)).filter (fun x => decide (x.1 ≠ g.1)) = ungroup l := by
  have hhead : ∀ x ∈ g.2.map (Prod.mk g.1), x.1 = g.1 := by
    intro x hx
    obtain ⟨v, _, rfl⟩ := List.mem_map.mp hx
    rfl
  have htail : ∀ x ∈ ungroup l, x.1 ≠ g.1 := by
    intro x hx
    obtain ⟨d, hd, hkey⟩ := key_of_mem_ungroup hx
    rw [← hkey]
    exact (h d hd).ne'
  rw [ungroup_cons, filter_append, filter_append]
  constructor
  · rw [filter_eq_self.mpr fun x hx => decide_eq_true (hhead x hx),
      filter_eq_nil_iff.mpr fun x hx => by simpa using htail x hx, append_nil]
  · rw [filter_eq_self.mpr fun x hx => decide_eq_true (htail x hx),
      filter_eq_nil_iff.mpr fun x hx => by simpa using hhead x hx, nil_append]

/-- Groups that are not empty, in the order of their keys, can be read off their values. -/
theorem ungroup_inj {l' : List (K × List V)} (hl : l.Pairwise fun x y => x.1 < y.1)
    (hl' : l'.Pairwise fun x y => x.1 < y.1) (hne : ∀ g ∈ l, g.2 ≠ []) (hne' : ∀ g ∈ l', g.2 ≠ [])
    (h : ungroup l = ungroup l') : l = l' := by
  induction l generalizing l' with
  | nil =>
    cases l' with
    | nil => rfl
    | cons g' l' =>
      have hempty : g'.2.map (Prod.mk g'.1) ++ ungroup l' = [] := by rw [← ungroup_cons, ← h]; rfl
      exact absurd (map_eq_nil_iff.mp (append_eq_nil_iff.mp hempty).1)
        (hne' g' mem_cons_self)
  | cons g l ih =>
    cases l' with
    | nil =>
      have hempty : g.2.map (Prod.mk g.1) ++ ungroup l = [] := by rw [← ungroup_cons, h]; rfl
      exact absurd (map_eq_nil_iff.mp (append_eq_nil_iff.mp hempty).1)
        (hne g mem_cons_self)
    | cons g' l' =>
      rw [pairwise_cons] at hl hl'
      have hkey : g.1 = g'.1 := by
        obtain ⟨v, vs, hg⟩ := exists_cons_of_ne_nil (hne g mem_cons_self)
        obtain ⟨v', vs', hg'⟩ := exists_cons_of_ne_nil (hne' g' mem_cons_self)
        rw [ungroup_cons, ungroup_cons, hg, hg'] at h
        exact (Prod.mk.inj (List.cons.inj h).1).1
      obtain ⟨hvalues, hrest⟩ := filter_ungroup_cons hl.1
      obtain ⟨hvalues', hrest'⟩ := filter_ungroup_cons hl'.1
      rw [h, hkey, hvalues'] at hvalues
      rw [h, hkey, hrest'] at hrest
      have hsame : g = g' := Prod.ext hkey
        (map_injective_iff.mpr (fun v w hvw => (Prod.mk.inj hvw).2) hvalues.symm)
      rw [hsame, ih hl.2 hl'.2 (fun d hd => hne d (mem_cons_of_mem g hd))
        (fun d hd => hne' d (mem_cons_of_mem g' hd)) hrest.symm]

end Groups

/-! ### Scans -/

section Scans

variable {α V β : Type}

theorem dropWhile_eq_filter {q : β → Bool} {l : List β}
    (h : l.Pairwise fun x y => q y = true → q x = true) :
    l.dropWhile q = l.filter fun x => !q x := by
  induction l with
  | nil => rfl
  | cons d l ih =>
    rw [pairwise_cons] at h
    cases hd : q d with
    | true =>
      rw [dropWhile_cons_of_pos hd, filter_cons_of_neg (by simp [hd]), ih h.2]
    | false =>
      have hall : ∀ x ∈ l, (!q x) = true := by
        intro x hx
        cases hq : q x with
        | false => rfl
        | true =>
          rw [h.1 x hx hq] at hd
          cases hd
      rw [dropWhile_cons_of_neg (by simp [hd]), filter_cons_of_pos (by simp [hd]),
        filter_eq_self.mpr hall]

theorem takeWhile_eq_filter {q : β → Bool} {l : List β}
    (h : l.Pairwise fun x y => q y = true → q x = true) : l.takeWhile q = l.filter q := by
  induction l with
  | nil => rfl
  | cons d l ih =>
    rw [pairwise_cons] at h
    cases hd : q d with
    | true => rw [takeWhile_cons_of_pos hd, filter_cons_of_pos hd, ih h.2]
    | false =>
      have hnone : l.filter q = [] := by
        refine filter_eq_nil_iff.mpr ?_
        intro x hx hq
        rw [h.1 x hx hq] at hd
        cases hd
      rw [takeWhile_cons_of_neg (by simp [hd]), filter_cons_of_neg (by simp [hd]), hnone]

variable [LinearOrder α]

/-- Between a list and one of its extensions there are only extensions. -/
theorem isPrefix_of_between {p a b : List α} (hle : ¬ a < p) (hlt : a < b) (hb : p <+: b) :
    p <+: a := by
  obtain ⟨t, rfl⟩ := hb
  induction p generalizing a with
  | nil => exact nil_prefix
  | cons x p ih =>
    cases a with
    | nil => exact absurd (nil_lt_cons x p) hle
    | cons y a =>
      rw [cons_append] at hlt
      simp only [cons_lt_cons_iff, not_or, not_and] at hle hlt
      rcases hlt with hlt | ⟨rfl, hlt⟩
      · exact absurd hlt hle.1
      · exact (prefix_cons_inj y).mpr (ih (hle.2 rfl) hlt)

theorem not_lt_of_isPrefix {p a : List α} (h : p <+: a) : ¬ a < p := by
  obtain ⟨t, rfl⟩ := h
  induction p with
  | nil => exact not_lt_nil _
  | cons x p ih =>
    rw [cons_append, cons_lt_cons_iff]
    rintro (h | ⟨_, h⟩)
    · exact lt_irrefl _ h
    · exact ih h

/-- From the first key that is not below `p`, as long as the keys extend `p`. -/
def scanFrom (p : List α) (m : OMap (List α) V) : List (List α × V) :=
  (m.entries.dropWhile fun e => decide (e.1 < p)).takeWhile fun e => p.isPrefixOf e.1

/-- From the first key above `p`, as long as the keys extend `p`. -/
def scanAfter (p : List α) (m : OMap (List α) V) : List (List α × V) :=
  (m.entries.dropWhile fun e => !decide (p < e.1)).takeWhile fun e => p.isPrefixOf e.1

/-- The keys that are dropped come first, and those below `p` are among them. -/
theorem scan_eq {p : List α} {d : List α → Bool} (hmono : ∀ {x y}, x < y → d y = true → d x = true)
    (hd : ∀ {x}, d x = false → ¬ x < p) (m : OMap (List α) V) :
    (m.entries.dropWhile fun e => d e.1).takeWhile (fun e => p.isPrefixOf e.1) =
      m.entries.filter fun e => p.isPrefixOf e.1 && !d e.1 := by
  rw [dropWhile_eq_filter (m.sorted.imp hmono), takeWhile_eq_filter, List.filter_filter]
  refine List.Pairwise.imp_of_mem ?_ (m.sorted.filter _)
  intro x y hx _ hxy hy
  have hxp := hd (by simpa using (mem_filter.mp hx).2)
  exact List.isPrefixOf_iff_prefix.mpr
    (isPrefix_of_between hxp hxy (List.isPrefixOf_iff_prefix.mp hy))

/-- Keys with one beginning stand together, so a scan finds them all. -/
theorem scanFrom_eq (p : List α) (m : OMap (List α) V) :
    scanFrom p m = m.entries.filter fun e => p.isPrefixOf e.1 := by
  rw [scanFrom, scan_eq (d := fun k => decide (k < p))]
  · refine filter_congr ?_
    intro e _
    cases hp : p.isPrefixOf e.1 with
    | false => rfl
    | true => simp [not_lt_of_isPrefix (List.isPrefixOf_iff_prefix.mp hp)]
  · intro x y hxy hy
    simp only [decide_eq_true_eq] at hy ⊢
    exact hxy.trans hy
  · simp

theorem scanAfter_eq (p : List α) (m : OMap (List α) V) :
    scanAfter p m = m.entries.filter fun e => p.isPrefixOf e.1 && decide (e.1 ≠ p) := by
  rw [scanAfter, scan_eq (d := fun k => !decide (p < k))]
  · refine filter_congr ?_
    intro e _
    cases hp : p.isPrefixOf e.1 with
    | false => rfl
    | true =>
      have hnot := not_lt_of_isPrefix (List.isPrefixOf_iff_prefix.mp hp)
      simp [lt_iff_le_and_ne, not_lt.mp hnot, eq_comm]
  · intro x y hxy hy
    simp only [Bool.not_eq_true', decide_eq_false_iff_not] at hy ⊢
    exact fun hp => hy (hp.trans hxy)
  · intro x hx
    exact lt_asymm (by simpa using hx)

end Scans

end HyperExchange.OrderedMap
