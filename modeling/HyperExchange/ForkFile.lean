/-
  **The fork database on disk** (`save_to_file` and `from_file`).

  A file holds the indexed blocks, in any order, with their flags and the id of the head.
  Nothing is written for an empty fork database, and a file that is already there stays.
  `from_file` collects what it reads in a map whose key is the id of the predecessor, so of
  several blocks with one predecessor only the first is kept (`sibling_lost`).  Then every
  block is linked to its predecessor if that one was kept, also the block that the fork
  database was started with.  Otherwise the same tree comes back (`reload_same_iff`).
-/
import Mathlib.Data.List.Nodup
import Mathlib.Data.Prod.Lex
import HyperExchange.ForkWindow
import HyperExchange.OrderedMap

namespace HyperExchange.Blocks

open Execution OrderedMap List Option OMap

variable {P δ : Type}

/-- `serializable_fork_item`; its `prev`, `num` and `id` are those of `data`. -/
structure SerializableForkItem (P δ : Type) where
  invalid : Bool
  data : Block P δ

structure ForkData (P δ : Type) where
  items : List (SerializableForkItem P δ)
  head : BlockId δ

/-- `fork_data` as `save_to_file` fills it. -/
def ForkData.ofItems (order : List (ForkItem P δ)) (head : BlockId δ) : ForkData P δ :=
  ⟨order.map fun y => ⟨y.invalid, y.block⟩, head⟩

/-- `get_shared_item_ptr_without_prev_set`, for every item in the file. -/
def ForkData.pointers (data : ForkData P δ) (nextAddr : Nat) : List (ForkItem P δ) :=
  data.items.mapIdx fun i it => ⟨nextAddr + i, it.data, none, it.invalid⟩

namespace ForkDatabase

variable (h : Hash P δ)

/-- `save_to_file`: what is at the path afterwards.  `order` is the index as the hashed
    container runs through it. -/
def saveToFile (f : ForkDatabase P δ) (order : List (ForkItem P δ)) (file : Option (ForkData P δ)) :
    Option (ForkData P δ) :=
  match f.head with
  | none => file
  | some x =>
    if order.isEmpty then file
    else some (.ofItems order (h.id x.block))

variable [DecidableEq δ]

/-! ### `from_file` -/

section Read

variable [LinearOrder (BlockId δ)]

/-- The first loop: `items_read.insert(make_pair(it.prev, ptr))`. -/
def itemsRead (ptrs : List (ForkItem P δ)) : OMap (BlockId δ) (ForkItem P δ) :=
  ptrs.foldl (fun m x => m.emplace x.block.previous x) OMap.empty

/-- The second loop: `itw->second->prev = itr->second` for the last `itr` with the id. -/
def linkRead (read : OMap (BlockId δ) (ForkItem P δ)) : List (ForkItem P δ) :=
  read.entries.map fun w =>
    { w.2 with prev := (read.entries.reverse.find? fun r => h.id r.2.block = w.1).map (·.2.addr) }

end Read

/-- The third loop: an item whose id is indexed already only sets the link of the indexed
    one; `none` if its predecessor is not indexed. -/
def insertRead (index : List (ForkItem P δ)) (x : ForkItem P δ) : Option (List (ForkItem P δ)) :=
  if index.any fun y => h.id y.block = h.id x.block then
    (index.find? fun y => h.id y.block = x.block.previous).map fun back =>
      index.map fun y =>
        if h.id y.block = h.id x.block then { y with prev := some back.addr } else y
  else some (index ++ [x])

def currentItem (l : List (ForkItem P δ)) (x : ForkItem P δ) : ForkItem P δ :=
  (l.find? fun y => y.addr = x.addr).getD x

/-- `from_file`; `none` if it throws. -/
def fromFile [LinearOrder (BlockId δ)] (f : ForkDatabase P δ) :
    Option (ForkData P δ) → Option (ForkDatabase P δ)
  | none => some f
  | some data =>
    let ptrs := data.pointers f.nextAddr
    let linked := linkRead h (itemsRead ptrs)
    let head := (ptrs.reverse.find? fun x => h.id x.block = data.head).or f.head
    (linked.foldlM (insertRead h) f.index).map fun index =>
      { f with
        index := index
        head := head.map (currentItem (index ++ linked))
        nextAddr := f.nextAddr + data.items.length }

/-! ### The same tree -/

omit [DecidableEq δ] in
/-- The same blocks with the same flags, the same head, and the same parent links. -/
structure SameTree (f g : ForkDatabase P δ) : Prop where
  blocks : ∀ c, (∃ x ∈ f.index, (x.block, x.invalid) = c) ↔ ∃ y ∈ g.index, (y.block, y.invalid) = c
  head : f.head.map (·.block) = g.head.map (·.block)
  links : ∀ x ∈ f.index, ∀ y ∈ g.index, x.block = y.block →
    (f.lock x.prev).map (·.block) = (g.lock y.prev).map (·.block)

/-! ### What the three loops make of a file -/

section Loops

variable (data : ForkData P δ)

omit [DecidableEq δ] in
theorem map_pointers (a : Nat) : (data.pointers a).map (fun x => (x.block, x.invalid)) =
    data.items.map fun it => (it.data, it.invalid) := by
  apply ext_getElem
  · simp [ForkData.pointers]
  · intro i h₁ h₂
    simp [ForkData.pointers]

omit [DecidableEq δ] in
theorem nodup_addr_pointers (a : Nat) : ((data.pointers a).map (·.addr)).Nodup := by
  have hmap : (data.pointers a).map (·.addr) = List.range' a data.items.length := by
    apply ext_getElem
    · simp [ForkData.pointers]
    · intro i h₁ h₂
      simp [ForkData.pointers]
  rw [hmap]
  exact nodup_range'

variable {h} {ptrs : List (ForkItem P δ)}

variable (h ptrs) in
def relinked (x : ForkItem P δ) : ForkItem P δ :=
  { x with prev := (ptrs.find? fun p => h.id p.block = x.block.previous).map (·.addr) }

omit [DecidableEq δ] in
/-- A list with one item for the key has one answer to a search. -/
theorem find?_key {α κ : Type} [DecidableEq κ] {k : α → κ} {l : List α} {p : α} (hp : p ∈ l)
    (huniq : ∀ q ∈ l, k q = k p → q = p) : l.find? (fun q => k q = k p) = some p := by
  cases hf : l.find? fun q => k q = k p with
  | none =>
    rw [List.find?_eq_none] at hf
    exact absurd (decide_eq_true rfl) (hf p hp)
  | some q =>
    have hkey := List.find?_some hf
    rw [huniq q (mem_of_find?_eq_some hf) (of_decide_eq_true hkey)]

theorem find_itemsRead {δ : Type} [LinearOrder (BlockId δ)] {ptrs : List (ForkItem P δ)}
    (k : BlockId δ) :
    (itemsRead ptrs).find k = ptrs.find? fun x => x.block.previous = k := by
  rw [itemsRead, find_foldl_emplace fun x : ForkItem P δ => x.block.previous, find_empty, none_or]

omit [DecidableEq δ] in
theorem mem_itemsRead [LinearOrder (BlockId δ)] {k : BlockId δ} {x : ForkItem P δ}
    (hmem : (k, x) ∈ (itemsRead ptrs).entries) : x ∈ ptrs ∧ x.block.previous = k := by
  rw [mem_entries_iff, find_itemsRead] at hmem
  exact ⟨mem_of_find?_eq_some hmem, by simpa using List.find?_some hmem⟩

variable (hprev : (ptrs.map (·.block.previous)).Nodup)
include hprev

omit [DecidableEq δ] in
theorem mem_itemsRead_of_nodup [LinearOrder (BlockId δ)] {x : ForkItem P δ} (hx : x ∈ ptrs) :
    (x.block.previous, x) ∈ (itemsRead ptrs).entries := by
  rw [mem_entries_iff, find_itemsRead]
  exact find?_key hx fun y hy hkey => inj_on_of_nodup_map hprev hy hx hkey

omit hprev in
theorem find?_id {l : List (ForkItem P δ)} (hids : (l.map fun x => h.id x.block).Nodup)
    {p : ForkItem P δ} (hp : p ∈ l) {id : BlockId δ} (hid : h.id p.block = id) :
    l.find? (fun x => h.id x.block = id) = some p := by
  subst hid
  exact find?_key hp fun q hq hqid => inj_on_of_nodup_map hids hq hp hqid

variable (hids : (ptrs.map fun x => h.id x.block).Nodup)
include hids

/-- The second loop sets the links, each to the predecessor if that one was read. -/
theorem mem_linkRead [LinearOrder (BlockId δ)] {z : ForkItem P δ} : z ∈ linkRead h (itemsRead ptrs)
    ↔ ∃ x ∈ ptrs, relinked h ptrs x = z := by
  have hlink : ∀ x : ForkItem P δ, ((itemsRead ptrs).entries.reverse.find? fun r =>
      h.id r.2.block = x.block.previous).map (·.2.addr) = (relinked h ptrs x).prev := by
    intro x
    cases hf : ptrs.find? fun p => h.id p.block = x.block.previous with
    | none =>
      have hnone : (itemsRead ptrs).entries.reverse.find? (fun r =>
          h.id r.2.block = x.block.previous) = none := by
        rw [List.find?_eq_none] at hf ⊢
        intro r hr
        exact hf r.2 (mem_itemsRead (mem_reverse.mp hr)).1
      rw [relinked, hnone, hf]
      rfl
    | some p =>
      have hp := mem_of_find?_eq_some hf
      have hpid : h.id p.block = x.block.previous := by simpa using List.find?_some hf
      have hread := find?_key (k := fun r => h.id r.2.block)
        (mem_reverse.mpr (mem_itemsRead_of_nodup hprev hp)) fun r hr hid => by
          obtain ⟨hmem, hkey⟩ := mem_itemsRead (mem_reverse.mp hr)
          have hsame := inj_on_of_nodup_map hids hmem hp hid
          exact Prod.ext (by rw [← hkey, hsame]) hsame
      rw [relinked, hf, ← hpid, hread]
      rfl
  unfold linkRead
  rw [List.mem_map]
  constructor
  · rintro ⟨w, hw, rfl⟩
    obtain ⟨hx, hkey⟩ := mem_itemsRead hw
    refine ⟨w.2, hx, ?_⟩
    rw [← hkey, hlink w.2]
    rfl
  · rintro ⟨x, hx, rfl⟩
    refine ⟨(x.block.previous, x), mem_itemsRead_of_nodup hprev hx, ?_⟩
    rw [hlink x]
    rfl

variable {l index : List (ForkItem P δ)}

omit hprev hids in
/-- What is indexed in the end was read, and something is if anything was. -/
theorem foldlM_insertRead_spec (hf : l.foldlM (insertRead h) [] = some index) :
    (∀ y ∈ index, ∃ x ∈ l, y.block = x.block) ∧ (l ≠ [] → index ≠ []) := by
  refine foldlM_invariant (fun done index => (∀ y ∈ index, ∃ x ∈ done, y.block = x.block) ∧
    (done ≠ [] → index ≠ [])) ⟨nofun, id⟩ ?_ hf
  rintro done x rest mid next - ⟨hread, _⟩ hnext
  unfold insertRead at hnext
  split at hnext
  · next hany =>
    obtain ⟨back, _, rfl⟩ := map_eq_some_iff.mp hnext
    refine ⟨fun y hy => ?_, fun _ hnil => ?_⟩
    · obtain ⟨w, hw, rfl⟩ := List.mem_map.mp hy
      obtain ⟨z, hz, hblock⟩ := hread w hw
      refine ⟨z, mem_append_left _ hz, Eq.trans ?_ hblock⟩
      split <;> rfl
    · rw [map_eq_nil_iff.mp hnil] at hany
      cases hany
  · cases hnext
    refine ⟨fun y hy => ?_, fun _ => append_ne_nil_of_right_ne_nil mid (cons_ne_nil x [])⟩
    rcases mem_append.mp hy with hy | hy
    · obtain ⟨z, hz, hblock⟩ := hread y hy
      exact ⟨z, mem_append_left _ hz, hblock⟩
    · exact ⟨y, mem_append_right _ hy, rfl⟩

omit hprev hids in
theorem foldlM_insertRead
    (hids : ((index ++ l).map fun x => h.id x.block).Nodup) :
    l.foldlM (insertRead h) index = some (index ++ l) := by
  induction l generalizing index with
  | nil => rw [foldlM_nil, append_nil]; rfl
  | cons x l ih =>
    have hnew : insertRead h index x = some (index ++ [x]) := by
      unfold insertRead
      rw [if_neg]
      intro hany
      obtain ⟨y, hy, hid⟩ := List.any_eq_true.mp hany
      rw [map_append, nodup_append] at hids
      exact hids.2.2 _ (List.mem_map_of_mem hy) _ (List.mem_map_of_mem (mem_cons_self ..))
        (of_decide_eq_true hid)
    rw [foldlM_cons, hnew]
    refine (ih ?_).trans ?_
    · rw [append_assoc]
      exact hids
    · rw [append_assoc]
      rfl

omit hprev in
theorem nodup_id_linkRead [LinearOrder (BlockId δ)] :
    ((linkRead h (itemsRead ptrs)).map fun x => h.id x.block).Nodup := by
  have hmap : (linkRead h (itemsRead ptrs)).map (fun x => h.id x.block) =
      (itemsRead ptrs).entries.map fun w => h.id w.2.block := by
    rw [linkRead, List.map_map]
    rfl
  have hentries : (itemsRead ptrs).entries.Nodup :=
    (itemsRead ptrs).sorted.imp fun hlt heq => absurd (congrArg Prod.fst heq) hlt.ne
  rw [hmap]
  refine hentries.map_on ?_
  intro w hw r hr hid
  obtain ⟨hw, hwk⟩ := mem_itemsRead hw
  obtain ⟨hr, hrk⟩ := mem_itemsRead hr
  have hsame := inj_on_of_nodup_map hids hw hr hid
  exact Prod.ext (by rw [← hwk, ← hrk, hsame]) hsame

theorem find?_addr_linkRead [LinearOrder (BlockId δ)] (haddr : (ptrs.map (·.addr)).Nodup)
    {p : ForkItem P δ} (hp : p ∈ ptrs) : (linkRead h (itemsRead ptrs)).find?
    (fun y => y.addr = p.addr) = some (relinked h ptrs p) := by
  have hmem := (mem_linkRead hprev hids).mpr ⟨p, hp, rfl⟩
  refine find?_key (k := ForkItem.addr) hmem fun y hy hya => ?_
  obtain ⟨q, hq, rfl⟩ := (mem_linkRead hprev hids).mp hy
  rw [inj_on_of_nodup_map haddr hq hp hya]

end Loops

/-! ### Reading into an empty fork database -/

section Reload

variable {h} [LinearOrder (BlockId δ)] {data : ForkData P δ} {g : ForkDatabase P δ}

variable (h) in
/-- What is read from a file with one block for each predecessor. -/
structure Reloaded (data : ForkData P δ) (ptrs : List (ForkItem P δ)) (g : ForkDatabase P δ) :
    Prop where
  index : ∀ z, z ∈ g.index ↔ ∃ x ∈ ptrs, relinked h ptrs x = z
  head : ∀ x ∈ ptrs, h.id x.block = data.head → g.head = some (relinked h ptrs x)
  lock : ∀ p ∈ ptrs, g.lock (some p.addr) = some (relinked h ptrs p)

theorem reloaded (hprev : ((data.pointers 0).map (·.block.previous)).Nodup)
    (hids : ((data.pointers 0).map fun x => h.id x.block).Nodup) :
    ∃ g, (empty : ForkDatabase P δ).fromFile h (some data) = some g ∧
      Reloaded h data (data.pointers 0) g := by
  have haddr := nodup_addr_pointers data 0
  have hfold : (linkRead h (itemsRead (data.pointers 0))).foldlM (insertRead h) [] =
      some (linkRead h (itemsRead (data.pointers 0))) := foldlM_insertRead (nodup_id_linkRead hids)
  have hfile : (empty : ForkDatabase P δ).fromFile h (some data) =
      ((linkRead h (itemsRead (data.pointers 0))).foldlM (insertRead h) []).map _ := rfl
  rw [hfold, map_some] at hfile
  refine ⟨_, hfile, fun z => mem_linkRead hprev hids, ?_, ?_⟩
  · intro x hx hid
    have hrev : ((data.pointers 0).reverse.map fun x => h.id x.block).Nodup := by
      rw [map_reverse, nodup_reverse]
      exact hids
    have hfind := find?_id hrev (mem_reverse.mpr hx) hid
    have hcur := find?_addr_linkRead hprev hids haddr hx
    show (((data.pointers 0).reverse.find? fun x => h.id x.block = data.head).or none).map _ = _
    rw [hfind, or_none, map_some, currentItem, List.find?_append, hcur]
    rfl
  · intro p hp
    rw [lock, find?_addr_linkRead hprev hids haddr hp]
    rfl

omit [LinearOrder (BlockId δ)] in
theorem Reloaded.lock_relinked {ptrs : List (ForkItem P δ)} (hr : Reloaded h data ptrs g)
    (x : ForkItem P δ) : (g.lock (relinked h ptrs x).prev).map (·.block) =
      (ptrs.find? fun p => h.id p.block = x.block.previous).map (·.block) := by
  cases hf : ptrs.find? fun p => h.id p.block = x.block.previous with
  | none => rw [relinked, hf]; rfl
  | some p =>
    have hprev : (relinked h ptrs x).prev = some p.addr := by rw [relinked, hf]; rfl
    rw [hprev, hr.lock p (mem_of_find?_eq_some hf)]
    rfl

end Reload

/-! ### What pushes make -/

/-- The ids in the index are all different, the head is one of the indexed blocks, and an
    item that was given a link points to its predecessor as long as that is indexed. -/
structure Savable (h : Hash P δ) (f : ForkDatabase P δ) : Prop where
  tidy : f.Tidy h
  ids : (f.index.map fun x => h.id x.block).Nodup
  head : ∃ x ∈ f.index, f.head = some x
  linked : ∀ x ∈ f.index, x.prev ≠ none → ∀ p ∈ f.index, h.id p.block = x.block.previous →
    x.prev = some p.addr

/-- A link to an item that left the index leads below the window. -/
structure Grown (h : Hash P δ) (f : ForkDatabase P δ) : Prop where
  window : ∃ accepted, ForkRun.Windowed h ⟨f, accepted⟩
  ids : (f.index.map fun x => h.id x.block).Nodup
  links : ∀ x ∈ f.index, ∀ a, x.prev = some a →
    (∃ p ∈ f.index, p.addr = a ∧ h.id p.block = x.block.previous) ∨
      ∀ top, f.head = some top → x.block.previous.num < top.block.num - f.maxSize

section Pushes

variable {h} {f f' : ForkDatabase P δ}

omit [DecidableEq δ] in
theorem Grown.savable (hg : f.Grown h) : f.Savable h := by
  obtain ⟨_, hw⟩ := hg.window
  obtain ⟨top, htop, hhead, _, hbounds⟩ := hw.top
  refine ⟨hw.tidy, hg.ids, ⟨top, htop, hhead⟩, ?_⟩
  intro x hx hne p hp hid
  obtain ⟨a, ha⟩ := ne_none_iff_exists'.mp hne
  rcases hg.links x hx a ha with ⟨q, hq, rfl, hqid⟩ | hbelow
  · rw [ha, inj_on_of_nodup_map hg.ids hq hp (hqid.trans hid.symm)]
  · have hlow := hbelow top hhead
    have hnum : p.block.num = x.block.previous.num := congrArg BlockId.num hid
    have hge : top.block.num - f.maxSize ≤ p.block.num := (hbounds p hp).2
    omega

omit [DecidableEq δ] in
/-- A new item has an id of its own, and its link leads into the index. -/
theorem Grown.append (hg : f.Grown h) {b : Block P δ} {item : ForkItem P δ}
    (hitem : f.NewItem h b item) (hnew : ¬ ∃ y ∈ f.index, h.id y.block = h.id b) :
    ((f.index ++ [item]).map fun x => h.id x.block).Nodup ∧
      ∀ x ∈ f.index ++ [item], ∀ a, x.prev = some a →
        (∃ p ∈ f.index ++ [item], p.addr = a ∧ h.id p.block = x.block.previous) ∨
          ∀ top, f.head = some top → x.block.previous.num < top.block.num - f.maxSize := by
  constructor
  · rw [map_append, nodup_append]
    refine ⟨hg.ids, nodup_singleton _, ?_⟩
    intro i hi j hj hij
    obtain ⟨y, hy, rfl⟩ := List.mem_map.mp hi
    rw [map_singleton, mem_singleton, hitem.block] at hj
    exact hnew ⟨y, hy, hij.trans hj⟩
  · intro x hx a ha
    rcases mem_append.mp hx with hx | hx
    · rcases hg.links x hx a ha with ⟨p, hp, hpa, hid⟩ | hbelow
      · exact Or.inl ⟨p, mem_append_left _ hp, hpa, hid⟩
      · exact Or.inr hbelow
    · rw [mem_singleton.mp hx] at ha ⊢
      rcases hitem.linked with ⟨hnone, _⟩ | ⟨p, hp, hprev, hid⟩
      · rw [hnone] at ha
        cases ha
      · rw [hprev] at ha
        exact Or.inl ⟨p, mem_append_left _ hp, Option.some.inj ha, by rw [hitem.block]; exact hid⟩

/-- Items leave the index only when the window has moved past them. -/
theorem Grown.push (hg : f.Grown h) {b : Block P δ} (hp : f.pushBlock h b = some f') :
    f'.Grown h := by
  obtain ⟨accepted, hw⟩ := hg.window
  obtain ⟨top, _, hhead, _, hbounds⟩ := hw.top
  have hpushed : _ ∧ f'.maxSize = f.maxSize ∧ f.Pushed h top b f' :=
    pushBlock_started hhead (fun y hy => (hbounds y hy).1) hp
  obtain ⟨_, hsize, hcase⟩ := hpushed
  have hwindow : ∃ accepted, ForkRun.Windowed h ⟨f', accepted⟩ := ⟨_, hw.push hp⟩
  cases hcase with
  | known _ _ hhead' hindex =>
    refine ⟨hwindow, by rw [hindex]; exact hg.ids, ?_⟩
    rw [hindex, hhead', ← hhead, hsize]
    exact hg.links
  | below item hitem _ hnew hhead' hindex =>
    obtain ⟨hids, hlinks⟩ := hg.append hitem hnew
    refine ⟨hwindow, by rw [hindex]; exact hids, ?_⟩
    rw [hindex, hhead', ← hhead, hsize]
    exact hlinks
  | raised item hitem hlt hhead' hindex =>
    have hnew : ¬ ∃ y ∈ f.index, h.id y.block = h.id b := by
      rintro ⟨y, hy, hid⟩
      have hnum : y.block.num = b.num := congrArg BlockId.num hid
      have hle : y.block.num ≤ top.block.num := (hbounds y hy).1
      omega
    obtain ⟨hids, hlinks⟩ := hg.append hitem hnew
    refine ⟨hwindow, ?_, ?_⟩
    · rw [hindex]
      exact hids.sublist (filter_sublist.map _)
    · rw [hindex, hhead', hsize]
      intro x hx a ha
      obtain ⟨hx, _⟩ := mem_filter.mp hx
      rcases hlinks x hx a ha with ⟨p, hp, hpa, hid⟩ | hbelow
      · have hnum : p.block.num = x.block.previous.num := congrArg BlockId.num hid
        by_cases hkept : b.num - f.maxSize ≤ p.block.num
        · exact Or.inl ⟨p, mem_filter.mpr ⟨hp, decide_eq_true hkept⟩, hpa, hid⟩
        -- the predecessor is lopped off
        refine Or.inr ?_
        rintro t ht
        cases ht
        rw [hitem.block]
        omega
      · refine Or.inr ?_
        rintro t ht
        cases ht
        have hlow := hbelow top hhead
        rw [hitem.block]
        omega

def Unfilled (f : ForkDatabase P δ) : Prop := ∃ n, f = empty.setMaxSize n

variable (h) in
/-- The state after `push_block`, which may have thrown. -/
def afterPush (f : ForkDatabase P δ) (b : Block P δ) : ForkDatabase P δ := (f.pushBlock h b).getD f

theorem Grown.of_unfilled (hf : f.Unfilled) (b : Block P δ) : (f.startBlock h b).Grown h := by
  obtain ⟨n, rfl⟩ := hf
  refine ⟨⟨[b], ForkRun.Windowed.of_started ⟨n, b, rfl⟩⟩, nodup_singleton _, ?_⟩
  intro x hx a ha
  rw [mem_singleton.mp hx] at ha
  cases ha

theorem unfilled_or_grown
    (hrun : ReachableUnder Unfilled (fun _ _ => True) (afterPush h) f) :
    f.Unfilled ∨ f.Grown h := by
  refine hrun.invariant (fun f : ForkDatabase P δ => f.Unfilled ∨ f.Grown h)
    (fun _ hf => Or.inl hf) ?_
  intro f b hf _
  unfold afterPush
  rcases hf with hf | hg
  · have hhead : f.head = none := by
      obtain ⟨n, rfl⟩ := hf
      rfl
    rw [pushBlock_unstarted hhead]
    exact Or.inr (Grown.of_unfilled hf b)
  · cases hp : f.pushBlock h b with
    | none => exact Or.inr hg
    | some f' => exact Or.inr (hg.push hp)

end Pushes

/-! ### Saving and reloading -/

section SaveReload

variable {h} {f g : ForkDatabase P δ} {order : List (ForkItem P δ)}

omit [DecidableEq δ] in
theorem map_pointers_saved {β : Type} (k : Block P δ × Bool → β) (order : List (ForkItem P δ))
    (id : BlockId δ) :
    ((ForkData.ofItems order id).pointers 0).map (fun x => k (x.block, x.invalid)) =
      order.map fun x => k (x.block, x.invalid) := by
  have hmap := congrArg (List.map k) (map_pointers (ForkData.ofItems order id) 0)
  simpa [ForkData.ofItems, List.map_map, Function.comp_def] using hmap

omit [DecidableEq δ] in
theorem exists_pointer_iff (id : BlockId δ) {c : Block P δ × Bool} :
    (∃ y ∈ (ForkData.ofItems order id).pointers 0, (y.block, y.invalid) = c) ↔
      ∃ x ∈ order, (x.block, x.invalid) = c := by
  rw [← List.mem_map, ← List.mem_map, map_pointers_saved (fun c => c)]

theorem find?_pointer (id k : BlockId δ) :
    (((ForkData.ofItems order id).pointers 0).find? fun p => h.id p.block = k).map (·.block) =
      (order.find? fun p => h.id p.block = k).map (·.block) := by
  have hfind : ∀ l : List (ForkItem P δ), (l.find? fun p => h.id p.block = k).map (·.block) =
      (l.map (·.block)).find? fun b => h.id b = k := fun l => by
    rw [List.find?_map]
    rfl
  rw [hfind, hfind, map_pointers_saved Prod.fst order id]

theorem find?_parent (hs : f.Savable h) (hperm : order.Perm f.index) {p : ForkItem P δ}
    (hp : p ∈ f.index) {k : BlockId δ} (hid : h.id p.block = k) :
    order.find? (fun p => h.id p.block = k) = some p :=
  find?_id ((hperm.map _).nodup_iff.mpr hs.ids) (hperm.mem_iff.mpr hp) hid

/-- The links that are kept are those that a reload makes, unless an item without a link
    has its predecessor in the index. -/
theorem lock_eq_parent_iff (hs : f.Savable h) (hperm : order.Perm f.index) {x : ForkItem P δ}
    (hx : x ∈ f.index) :
    (f.lock x.prev).map (·.block) =
        (order.find? fun p => h.id p.block = x.block.previous).map (·.block) ↔
      ∀ p ∈ f.index, h.id p.block = x.block.previous → x.prev ≠ none := by
  constructor
  · intro heq p hp hid hnone
    rw [find?_parent hs hperm hp hid, hnone] at heq
    cases heq
  · intro hlink
    by_cases hparent : ∃ p ∈ f.index, h.id p.block = x.block.previous
    · obtain ⟨p, hp, hid⟩ := hparent
      rw [hs.linked x hx (hlink p hp hid) p hp hid, lock_of_mem_index hs.tidy hp,
        find?_parent hs hperm hp hid]
    · have hnone : order.find? (fun p => h.id p.block = x.block.previous) = none := by
        rw [List.find?_eq_none]
        intro p hp hid
        exact hparent ⟨p, hperm.mem_iff.mp hp, of_decide_eq_true hid⟩
      rw [hnone]
      cases hl : f.lock x.prev with
      | none => rfl
      | some q =>
        -- what can be locked is the predecessor, and it is indexed
        have hqid := hs.tidy.id_lock (mem_items.mpr (Or.inl hx)) hl
        obtain ⟨top, htop, hhead⟩ := hs.head
        rcases mem_items.mp (lock_eq_some hl).1 with hq | hq
        · exact absurd ⟨q, hq, hqid⟩ hparent
        · rw [hhead] at hq
          cases hq
          exact absurd ⟨q, htop, hqid⟩ hparent

variable [LinearOrder (BlockId δ)]

/-- With one block for each predecessor everything is read back; what may differ are the
    links of items that had none. -/
theorem reload_of_nodup (hs : f.Savable h) (hperm : order.Perm f.index) {top : ForkItem P δ}
    (hhead : f.head = some top) (hprev : (f.index.map (·.block.previous)).Nodup) :
    ∃ g, (empty : ForkDatabase P δ).fromFile h (some (.ofItems order (h.id top.block))) = some g ∧
      (f.SameTree g ↔ ∀ x ∈ f.index, ∀ p ∈ f.index, h.id p.block = x.block.previous →
        x.prev ≠ none) := by
  have hids : (((ForkData.ofItems order (h.id top.block)).pointers 0).map
      fun x => h.id x.block).Nodup := by
    rw [map_pointers_saved (fun c => h.id c.1) order, (hperm.map _).nodup_iff]
    exact hs.ids
  have hprevs : (((ForkData.ofItems order (h.id top.block)).pointers 0).map
      (·.block.previous)).Nodup := by
    rw [map_pointers_saved (fun c => c.1.previous) order, (hperm.map _).nodup_iff]
    exact hprev
  obtain ⟨g, hg, hr⟩ := reloaded hprevs hids
  have hblocks : ∀ c, (∃ x ∈ f.index, (x.block, x.invalid) = c) ↔
      ∃ y ∈ g.index, (y.block, y.invalid) = c := by
    intro c
    have hsaved : (∃ x ∈ f.index, (x.block, x.invalid) = c) ↔
        ∃ x ∈ order, (x.block, x.invalid) = c := by
      simp only [hperm.mem_iff]
    rw [hsaved, ← exists_pointer_iff (h.id top.block)]
    constructor
    · rintro ⟨y, hy, hc⟩
      exact ⟨relinked h _ y, (hr.index _).mpr ⟨y, hy, rfl⟩, hc⟩
    · rintro ⟨z, hz, hc⟩
      obtain ⟨y, hy, rfl⟩ := (hr.index z).mp hz
      exact ⟨y, hy, hc⟩
  have hlinks : ∀ x ∈ f.index, ∀ z ∈ g.index, x.block = z.block →
      (g.lock z.prev).map (·.block) =
        (order.find? fun p => h.id p.block = x.block.previous).map (·.block) := by
    intro x _ z hz hxz
    obtain ⟨y, _, rfl⟩ := (hr.index z).mp hz
    have hxy : x.block = y.block := hxz
    rw [hr.lock_relinked y, find?_pointer, hxy]
  have hheads : f.head.map (·.block) = g.head.map (·.block) := by
    obtain ⟨x, hx, hx'⟩ := hs.head
    rw [hhead] at hx'
    cases hx'
    obtain ⟨y, hy, hc⟩ := (exists_pointer_iff (h.id top.block)).mpr
      ⟨top, hperm.mem_iff.mpr hx, rfl⟩
    have hblock : y.block = top.block := congrArg Prod.fst hc
    rw [hr.head y hy (by rw [hblock]; rfl), hhead]
    exact congrArg some hblock.symm
  refine ⟨g, hg, ?_⟩
  constructor
  · intro hsame x hx
    obtain ⟨z, hz, hc⟩ := (hblocks _).mp ⟨x, hx, rfl⟩
    have hxz : x.block = z.block := (congrArg Prod.fst hc).symm
    rw [← lock_eq_parent_iff hs hperm hx, ← hlinks x hx z hz hxz]
    exact hsame.links x hx z hz hxz
  · intro hlink
    refine ⟨hblocks, hheads, ?_⟩
    intro x hx z hz hxz
    rw [hlinks x hx z hz hxz]
    exact (lock_eq_parent_iff hs hperm hx).mpr (hlink x hx)

variable {data : ForkData P δ}

/-- A tree that comes back had no two children of one block. -/
theorem nodup_of_reload (hs : f.Savable h)
    (hg : (empty : ForkDatabase P δ).fromFile h (some data) = some g) (hsame : f.SameTree g) :
    (f.index.map (·.block.previous)).Nodup := by
  have hread : ∀ y ∈ g.index, ∃ x, (y.block.previous, x) ∈ (itemsRead (data.pointers 0)).entries ∧
      x.block = y.block := by
    intro y hy
    obtain ⟨index, hfold, rfl⟩ := map_eq_some_iff.mp hg
    obtain ⟨z, hz, hyz⟩ := (foldlM_insertRead_spec hfold).1 y hy
    have hz' : z ∈ linkRead h (itemsRead (data.pointers 0)) := hz
    obtain ⟨w, hw, rfl⟩ := List.mem_map.mp hz'
    refine ⟨w.2, ?_, hyz.symm⟩
    rw [hyz, show w.2.block.previous = w.1 from (mem_itemsRead hw).2]
    exact hw
  refine hs.ids.of_map.map_on ?_
  intro x hx y hy hxy
  obtain ⟨x', hx', hxc⟩ := (hsame.blocks _).mp ⟨x, hx, rfl⟩
  obtain ⟨y', hy', hyc⟩ := (hsame.blocks _).mp ⟨y, hy, rfl⟩
  have hxb : x'.block = x.block := congrArg Prod.fst hxc
  have hyb : y'.block = y.block := congrArg Prod.fst hyc
  obtain ⟨v, hv, hvx⟩ := hread x' hx'
  obtain ⟨w, hw, hwy⟩ := hread y' hy'
  rw [hxb, hxy, mem_entries_iff] at hv
  rw [hyb, mem_entries_iff, hv] at hw
  cases hw
  refine inj_on_of_nodup_map hs.ids hx hy ?_
  rw [← hxb, ← hyb, ← hvx, ← hwy]

theorem index_ne_nil_of_reload (hitems : data.items ≠ [])
    (hg : (empty : ForkDatabase P δ).fromFile h (some data) = some g) : g.index ≠ [] := by
  obtain ⟨index, hfold, rfl⟩ := map_eq_some_iff.mp hg
  obtain ⟨x, hx⟩ : ∃ x, x ∈ data.pointers 0 := by
    refine exists_mem_of_ne_nil _ fun hnil => hitems ?_
    exact mapIdx_eq_nil_iff.mp hnil
  have hread : ∃ w, w ∈ (itemsRead (data.pointers 0)).entries := by
    cases hf : (itemsRead (data.pointers 0)).find x.block.previous with
    | some y => exact ⟨_, (mem_entries_iff _ _ _).mpr hf⟩
    | none =>
      rw [find_itemsRead, List.find?_eq_none] at hf
      simpa using hf x hx
  obtain ⟨w, hw⟩ := hread
  exact (foldlM_insertRead_spec hfold).2 (ne_nil_of_mem (List.mem_map_of_mem hw))

variable (h f) in
/-- No two indexed blocks have one predecessor, no indexed block that was pushed without a
    link has its predecessor in the index, and an empty fork database finds no file of old. -/
structure Restorable (file : Option (ForkData P δ)) : Prop where
  written : f.head = none → ∀ data, file = some data → data.items = []
  parents : (f.index.map (·.block.previous)).Nodup
  rooted : ∀ x ∈ f.index, ∀ p ∈ f.index, h.id p.block = x.block.previous → x.prev ≠ none

/-- **When saving and reloading loses nothing.** -/
theorem reload_same_iff (hrun : ReachableUnder Unfilled (fun _ _ => True) (afterPush h) f)
    (hperm : order.Perm f.index) (file : Option (ForkData P δ)) :
    (∃ g, (empty : ForkDatabase P δ).fromFile h (f.saveToFile h order file) = some g ∧
        f.SameTree g) ↔ f.Restorable h file := by
  rcases unfilled_or_grown hrun with hf | hgrown
  · obtain ⟨n, rfl⟩ := hf
    have hsave : (empty.setMaxSize n : ForkDatabase P δ).saveToFile h order file = file := rfl
    rw [hsave]
    constructor
    · rintro ⟨g, hg, hsame⟩
      refine ⟨fun _ data hdata => ?_, nodup_nil, nofun⟩
      by_contra hitems
      rw [hdata] at hg
      obtain ⟨y, hy⟩ := exists_mem_of_ne_nil _ (index_ne_nil_of_reload hitems hg)
      obtain ⟨x, hx, _⟩ := (hsame.blocks _).mpr ⟨y, hy, rfl⟩
      cases hx
    · intro hr
      cases file with
      | none => exact ⟨empty, rfl, ⟨fun c => Iff.rfl, rfl, nofun⟩⟩
      | some data =>
        obtain ⟨items, id⟩ := data
        cases hr.written rfl _ rfl
        exact ⟨_, rfl, ⟨fun c => Iff.rfl, rfl, nofun⟩⟩
  · have hs := hgrown.savable
    obtain ⟨top, htop, hhead⟩ := hs.head
    have hne : order ≠ [] := ne_nil_of_mem (hperm.mem_iff.mpr htop)
    have hsave : f.saveToFile h order file = some (.ofItems order (h.id top.block)) := by
      unfold saveToFile
      rw [hhead]
      simp only [List.isEmpty_iff, hne, if_false]
    rw [hsave]
    constructor
    · rintro ⟨g, hg, hsame⟩
      have hprev := nodup_of_reload hs hg hsame
      obtain ⟨g', hg', hiff⟩ := reload_of_nodup hs hperm hhead hprev
      cases hg.symm.trans hg'
      refine ⟨fun hnone => ?_, hprev, hiff.mp hsame⟩
      rw [hhead] at hnone
      cases hnone
    · intro hr
      obtain ⟨g, hg, hiff⟩ := reload_of_nodup hs hperm hhead hr.parents
      exact ⟨g, hg, hiff.mpr hr.rooted⟩

end SaveReload

/-! ### Siblings -/

instance : LinearOrder (BlockId Nat) :=
  LinearOrder.lift' (fun i => toLex (i.num, i.digest)) fun a b hab => by
    cases a
    cases b
    cases hab
    rfl

-- a block and two blocks on top of it
def rootBlock : Block Nat Nat := ⟨⟨0, 0⟩, 5, 1⟩

def olderSibling : Block Nat Nat := ⟨⟨1, 1⟩, 10, 2⟩

def youngerSibling : Block Nat Nat := ⟨⟨1, 1⟩, 15, 3⟩

def oneBranch : ForkDatabase Nat Nat :=
  afterPush ForkRun.payloadHash (afterPush ForkRun.payloadHash empty rootBlock) olderSibling

def twoBranches : ForkDatabase Nat Nat := afterPush ForkRun.payloadHash oneBranch youngerSibling

theorem oneBranch_reached :
    ReachableUnder Unfilled (fun _ _ => True) (afterPush ForkRun.payloadHash) oneBranch := by
  have hstart : (empty : ForkDatabase Nat Nat).Unfilled := ⟨1500, rfl⟩
  exact .call (.call (.start hstart) trivial) trivial

theorem one_branch_comes_back :
    ∃ g, (empty : ForkDatabase Nat Nat).fromFile ForkRun.payloadHash
        (oneBranch.saveToFile ForkRun.payloadHash oneBranch.index none) = some g ∧
      oneBranch.SameTree g := by
  refine (reload_same_iff oneBranch_reached (List.Perm.refl _) none).mpr ⟨nofun, by decide, ?_⟩
  have hindex : oneBranch.index = [⟨0, rootBlock, none, false⟩, ⟨1, olderSibling, some 0, false⟩] :=
    rfl
  rw [hindex]
  intro x hx p hp hid hnone
  simp only [mem_cons, not_mem_nil, or_false] at hx hp
  rcases hx with rfl | rfl
  · rcases hp with rfl | rfl <;> exact absurd hid (by decide)
  · cases hnone

/-- Three blocks are saved and two come back. -/
theorem sibling_lost :
    ReachableUnder Unfilled (fun _ _ => True) (afterPush ForkRun.payloadHash) twoBranches ∧
      ¬ ∃ g, (empty : ForkDatabase Nat Nat).fromFile ForkRun.payloadHash
          (twoBranches.saveToFile ForkRun.payloadHash twoBranches.index none) = some g ∧
        twoBranches.SameTree g := by
  refine ⟨.call oneBranch_reached trivial, ?_⟩
  rintro ⟨g, hg, hsame⟩
  have hblocks : g.index.map (·.block) = [rootBlock, olderSibling] := by
    have hread := congrArg (Option.map fun f => f.index.map (·.block)) hg
    exact Option.some.inj (hread.symm.trans rfl)
  obtain ⟨y, hy, hc⟩ := (hsame.blocks (youngerSibling, false)).mp
    ⟨⟨2, youngerSibling, some 0, false⟩, mem_of_getElem? (i := 2) rfl, rfl⟩
  have hmem := List.mem_map_of_mem (f := ForkItem.block) hy
  have hblock : y.block = youngerSibling := congrArg Prod.fst hc
  rw [hblocks, hblock] at hmem
  exact absurd hmem (by decide)

end ForkDatabase

end HyperExchange.Blocks
