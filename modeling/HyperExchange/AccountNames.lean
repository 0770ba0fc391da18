/-
  **The grammar of account names** (`is_valid_name` in `account.cpp`).

  The loop goes from dot to dot by index.  What it accepts are the dot-separated sequences of
  labels of the comment above it, with `GRAPHENE_MIN_ACCOUNT_NAME_LENGTH` in place of three,
  and it agrees with `isValidName`, which splits the name first.
-/
import HyperExchange.NamePairs

namespace HyperExchange.Names

open List

def minAccountNameLength : Nat := 1

def maxAccountNameLength : Nat := 63

def isLetDig (c : Char) : Bool := isLower c || isDigit c

/-- `name.find_first_of('.', start)`, or the length. -/
def labelEnd (name : List Char) (start : Nat) : Nat :=
  ((name.drop start).findIdx? (· == '.')).elim name.length (start + ·)

def checkLabel (name : List Char) (start stop : Nat) : Bool :=
  decide (minAccountNameLength ≤ stop - start) && isLower (name.getD start '\x00') &&
  isLetDig (name.getD (stop - 1) '\x00') &&
  (range' (start + 1) (stop - 1 - (start + 1))).all fun i =>
    isLetDig (name.getD i '\x00') || name.getD i '\x00' == '-'

theorem labelEnd_lt {name : List Char} {start : Nat} (h : labelEnd name start ≠ name.length) :
    start ≤ labelEnd name start ∧ labelEnd name start < name.length := by
  unfold labelEnd at h ⊢
  cases hdot : (name.drop start).findIdx? (· == '.') with
  | none =>
    rw [hdot] at h
    exact absurd rfl h
  | some i =>
    obtain ⟨hi, _⟩ := findIdx?_eq_some_iff_getElem.mp hdot
    rw [length_drop] at hi
    exact ⟨Nat.le_add_right start i, by simp only [Option.elim_some]; omega⟩

/-- The loop over the labels. -/
def checkLabels (name : List Char) (start : Nat) : Bool :=
  checkLabel name start (labelEnd name start) &&
    if h : labelEnd name start = name.length then true
    else checkLabels name (labelEnd name start + 1)
termination_by name.length - start
decreasing_by
  have := labelEnd_lt h
  omega

/-- `is_valid_name` -/
def isValidNameLoop (name : List Char) : Bool :=
  if name.length < minAccountNameLength then false
  else if maxAccountNameLength < name.length then false
  else checkLabels name 0

/-! ### The grammar -/

def IsLabel (l : List Char) : Prop :=
  minAccountNameLength ≤ l.length ∧ (∃ c ∈ l.head?, isLower c = true) ∧
    (∃ c ∈ l.getLast?, isLetDig c = true) ∧ ∀ c ∈ l, isLetDig c = true ∨ c = '-'

theorem IsLabel.dot_notMem {l : List Char} (h : IsLabel l) : '.' ∉ l := by
  intro hdot
  rcases h.2.2.2 '.' hdot with h | h <;> exact absurd h (by decide)

theorem all_range'_getD (p : Char → Bool) (before mid rest : List Char) :
    ((range' before.length mid.length).all fun i => p ((before ++ (mid ++ rest)).getD i '\x00')) =
      mid.all p := by
  induction mid generalizing before with
  | nil => rfl
  | cons c mid ih =>
    have htail := ih (before ++ [c])
    rw [length_append, append_assoc] at htail
    rw [length_cons, range'_succ, all_cons, all_cons]
    exact congrArg₂ _ (by simp [getD_eq_getElem?_getD]) htail

theorem checkLabel_iff (before part rest : List Char) :
    checkLabel (before ++ (part ++ rest)) before.length (before.length + part.length) = true ↔
      IsLabel part := by
  rcases part with _ | ⟨c, part⟩
  · simp [checkLabel, IsLabel, minAccountNameLength]
  have hletter : isLower c = true → isLetDig c = true := fun h => by simp [isLetDig, h]
  rcases eq_nil_or_concat part with rfl | ⟨mid, d, rfl⟩
  · simp [checkLabel, IsLabel, minAccountNameLength, getD_eq_getElem?_getD]
    tauto
  · have hmid := all_range'_getD (fun x => isLetDig x || x == '-') (before ++ [c]) mid (d :: rest)
    have hlen : before.length + (mid.length + 1 + 1) - 1 - (before.length + 1) = mid.length := by
      omega
    have hlast : (c :: (mid ++ [d])).getLast? = some d := by
      rw [← cons_append, getLast?_concat]
    simp only [length_append, length_singleton, append_assoc, singleton_append] at hmid
    simp only [checkLabel, IsLabel, minAccountNameLength, length_cons, length_append, length_nil,
      concat_eq_append, append_assoc, cons_append, nil_append, hlen, hmid, hlast]
    simp [getD_eq_getElem?_getD, or_imp, forall_and]
    tauto

theorem labelEnd_of_notMem {part : List Char} (h : '.' ∉ part) (before : List Char) :
    labelEnd (before ++ part) before.length = before.length + part.length ∧
      ∀ later, labelEnd (before ++ (part ++ '.' :: later)) before.length =
        before.length + part.length := by
  have hnone : part.findIdx? (· == '.') = none := by
    rw [findIdx?_eq_none_iff]
    rintro x hx
    exact beq_false_of_ne (ne_of_mem_of_not_mem hx h)
  constructor
  · rw [labelEnd, drop_left, hnone, length_append]
    rfl
  · intro later
    rw [labelEnd, drop_left, findIdx?_append, hnone, findIdx?_cons]
    simp

/-- The loop over the name checks the parts between the dots. -/
theorem checkLabels_iff (before rest : List Char) :
    checkLabels (before ++ rest) before.length = true ↔ ∀ l ∈ rest.splitOn '.', IsLabel l := by
  induction hn : rest.length using Nat.strong_induction_on generalizing before rest with
  | h n ih =>
  by_cases hdot : '.' ∈ rest
  · obtain ⟨part, later, rfl, hpart⟩ := eq_append_cons_of_mem hdot
    have hsplit : (part ++ '.' :: later).splitOn '.' = part :: later.splitOn '.' := by
      refine splitOnP_append_cons_of_forall_mem ?_ '.' rfl later
      exact fun x hx => beq_false_of_ne (ne_of_mem_of_not_mem hx hpart)
    have hnext := ih later.length (by simp at hn; omega) (before ++ (part ++ ['.'])) later rfl
    rw [length_append, length_append, append_assoc, append_assoc] at hnext
    rw [checkLabels, (labelEnd_of_notMem hpart before).2, dif_neg (by simp), Bool.and_eq_true,
      checkLabel_iff, hsplit, forall_mem_cons]
    exact and_congr_right fun _ => hnext
  · have hlabel := checkLabel_iff before rest []
    rw [append_nil] at hlabel
    rw [checkLabels, (labelEnd_of_notMem hdot before).1, dif_pos length_append.symm, Bool.and_true,
      hlabel, splitOn_eq_singleton hdot, forall_mem_singleton]

/-- A valid name has a length in range and consists of labels. -/
theorem isValidNameLoop_iff (name : List Char) :
    isValidNameLoop name = true ↔ (minAccountNameLength ≤ name.length ∧
      name.length ≤ maxAccountNameLength) ∧ ∀ l ∈ name.splitOn '.', IsLabel l := by
  rw [← checkLabels_iff [] name, isValidNameLoop, Bool.if_false_left, Bool.if_false_left]
  simp [and_assoc]

theorem splitDots_eq (name : List Char) : splitDots name = name.splitOn '.' := by
  induction name with
  | nil => rfl
  | cons c name ih =>
    obtain ⟨part, rest, hsplit⟩ := exists_cons_of_ne_nil (splitOn_ne_nil '.' name)
    have hcons : (c :: name).splitOn '.' =
        if c == '.' then [] :: name.splitOn '.' else (name.splitOn '.').modifyHead (cons c) :=
      splitOnP_cons_eq_if_modifyHead c name
    rw [splitDots, ih, hcons, hsplit]
    simp

theorem isValidPart_iff (l : List Char) : isValidPart l = true ↔ IsLabel l := by
  rcases l with _ | ⟨c, l⟩
  · simp [isValidPart, IsLabel, minAccountNameLength]
  · simp [isValidPart, IsLabel, minAccountNameLength, isLetDig, and_assoc, Option.any_eq_true]

theorem isValidName_eq_loop (name : String) : isValidName name = isValidNameLoop name.toList := by
  rw [Bool.eq_iff_iff, isValidNameLoop_iff, isValidName, splitDots_eq, Bool.and_eq_true,
    Bool.and_eq_true, decide_eq_true_eq, decide_eq_true_eq, List.all_eq_true]
  simp only [isValidPart_iff]
  rfl

/-- **Account names follow the grammar.** -/
theorem valid_name_grammar (name : List Char) :
    isValidNameLoop name = true ↔
      (minAccountNameLength ≤ name.length ∧ name.length ≤ maxAccountNameLength) ∧
        ∃ labels ≠ [], name = ['.'].intercalate labels ∧ ∀ l ∈ labels, IsLabel l := by
  rw [isValidNameLoop_iff]
  refine and_congr_right fun _ => ⟨fun hall => ?_, ?_⟩
  · exact ⟨_, splitOn_ne_nil _ _, (intercalate_splitOn '.').symm, hall⟩
  · rintro ⟨labels, hne, rfl, hall⟩
    rwa [splitOn_intercalate '.' (fun l hl => (hall l hl).dot_notMem) hne]

end HyperExchange.Names
