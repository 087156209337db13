import EarbudFirmware.Norflash.State
import Mathlib.Tactic.Common

/-!
# Flash service: the operation queue of a module

The functions of `norflash_api.cpp` that search and change one module's list of operations. The
list starts with the newest node.

## Main definitions

* `lockTail`, `operaDel` — `_get_tail` and `_opera_del` on the list
* `eOperaAdd`, `wOperaAdd`, `operaRead` — `_e_opera_add`, `_w_opera_add`, `_opera_read`

## Main results

* `eOperaMerge_eq` — what the deletion loop of `_e_opera_add` leaves
* `eOperaAdd_cases`, `wOperaAdd_cases` — everything the two functions can do
-/

namespace EarbudFirmware.Norflash

open NorMemory (Content Op InRange overlay)

/-- The first address of the sector of `addr`. -/
def secStart (secLen addr : Nat) : Nat := addr / secLen * secLen

/-! ### The tail of the queue -/

/-- `_get_tail` sets the lock of the last node. -/
def lockTail : List OperaInfo → List OperaInfo
  | [] => []
  | [n] => [{ n with lock := true }]
  | n :: n' :: q => n :: lockTail (n' :: q)

/-- `_opera_del` cuts the list off at the node; `none` when the node is not in the list. -/
def operaDel (q : List OperaInfo) (slot : Nat) : Option (List OperaInfo × OperaInfo) :=
  match q.find? (·.slot == slot) with
  | some n => some (q.takeWhile (·.slot != slot), n)
  | none => none

/-! ### Adding an erase -/

/-- The node lies in the range `[addr, addr + len)`. -/
def OperaInfo.Inside (addr len : Nat) (n : OperaInfo) : Prop :=
  addr ≤ n.addr ∧ n.addr + n.len ≤ addr + len

instance (addr len : Nat) (n : OperaInfo) : Decidable (n.Inside addr len) :=
  inferInstanceAs (Decidable (_ ∧ _))

/-- The loop of `_e_opera_add`: unlocked nodes in the range are deleted. The flag reports that a
locked erase in the range ended the loop. -/
def eOperaMerge (addr len : Nat) : Pools → List OperaInfo → Pools × List OperaInfo × Bool
  | p, [] => (p, [], false)
  | p, n :: q =>
    if n.Inside addr len then
      if n.lock = false then eOperaMerge addr len (p.freeNode n) q
      else if n.isErasing then (p, n :: q, true)
      else
        let (p, q, merged) := eOperaMerge addr len p q
        (p, n :: q, merged)
    else
      let (p, q, merged) := eOperaMerge addr len p q
      (p, n :: q, merged)

/-- `_e_opera_add`; the flag is `ret == 0`. -/
def eOperaAdd (p : Pools) (q : List OperaInfo) (addr len : Nat) :
    Pools × List OperaInfo × Bool :=
  match eOperaMerge addr len p q with
  | (p, q, true) => (p, q, true)
  | (p, q, false) =>
    match allocSlot p.operaList with
    | none => (p, q, false)
    | some (slot, operaList) =>
      ({ p with operaList }, { slot, addr, len, lock := false, opera := .erasing } :: q, true)

/-! ### Adding a write -/

/-- The search loop of `_w_opera_add` ends at this node. -/
def OperaInfo.stopsWrite (start : Nat) (n : OperaInfo) : Bool :=
  n.addr == start && (n.isErasing || !n.lock)

/-- A write merged into a write node: the data are copied and the window is widened. -/
def OperaInfo.widen (wOffs wLen : Nat) (buffer : Nat → UInt8) (n : OperaInfo) : OperaInfo :=
  match n.opera with
  | .writting offs len buff =>
    let wStart := if offs ≤ wOffs then offs else wOffs
    let wEnd1 := offs + len
    let wEnd2 := wOffs + wLen
    let wEnd := if wEnd1 ≥ wEnd2 then wEnd1 else wEnd2
    { n with
      opera := .writting wStart (wEnd - wStart)
        { buff with bytes := overlay wOffs wLen buffer buff.bytes } }
  | .erasing => n

/-- Applies `f` to the first node that satisfies `p`. -/
def updateFirst (p : OperaInfo → Bool) (f : OperaInfo → OperaInfo) :
    List OperaInfo → List OperaInfo
  | [] => []
  | n :: q => if p n then f n :: q else n :: updateFirst p f q

/-- A new write node whose buffer starts from `old`. `none` is the assertion of
`_norflash_api_malloc` on the buffer size. -/
def addWriteNode (sectorSize : Nat) (p : Pools) (q : List OperaInfo) (start secLen wOffs wLen : Nat)
    (old buffer : Nat → UInt8) : Option (Pools × List OperaInfo × Bool) :=
  match allocSlot p.operaList with
  | none => some (p, q, false)
  | some (slot, operaList) =>
    if secLen ≠ sectorSize then none
    else match allocSlot p.bufferList with
      | none => some ({ p with operaList := freeSlot operaList slot }, q, false)
      | some (b, bufferList) =>
        some ({ operaList, bufferList },
          { slot, addr := start, len := secLen, lock := false,
            opera := .writting wOffs wLen ⟨b, overlay wOffs wLen buffer old⟩ } :: q, true)

/-- `_w_opera_add`; the flag is `ret == 0`. -/
def wOperaAdd (sectorSize : Nat) (flash : Content) (p : Pools) (q : List OperaInfo)
    (secLen addr len : Nat) (buffer : Nat → UInt8) : Option (Pools × List OperaInfo × Bool) :=
  let start := secStart secLen addr
  let wOffs := addr - start
  match q.find? (·.stopsWrite start) with
  | some n =>
    match n.opera with
    | .writting .. => some (p, updateFirst (·.stopsWrite start) (·.widen wOffs len buffer) q, true)
    | .erasing => addWriteNode sectorSize p q start secLen wOffs len (fun _ => 0xFF) buffer
  | none =>
    addWriteNode sectorSize p q start secLen wOffs len (fun i => flash (physAddr (start + i)))
      buffer

/-! ### Reading -/

/-- `_opera_read`: the `i`-th byte copied to the caller. -/
def operaRead (flash : Content) (q : List OperaInfo) (secLen addr : Nat) (i : Nat) : UInt8 :=
  let start := secStart secLen addr
  match q.find? (·.addr == start) with
  | some n =>
    match n.opera with
    | .writting _ _ buff => buff.bytes (addr - start + i)
    | .erasing => 0xFF
  | none => flash (physAddr (addr + i))

/-! ### Lemmas about the pools -/

namespace Pools

/-- The used nodes. -/
def nodes (p : Pools) : Set Nat := {i | p.operaList[i]? = some true}

/-- The used buffers. -/
def buffers (p : Pools) : Set Nat := {i | p.bufferList[i]? = some true}

end Pools

/-- The entry that is taken was not used, and it is the only one that changes. -/
theorem allocSlot_spec {used used' : List Bool} {i : Nat} (h : allocSlot used = some (i, used')) :
    used[i]? = some false ∧ ∀ j, used'[j]? = some true ↔ used[j]? = some true ∨ j = i := by
  unfold allocSlot at h
  cases hi : used.findIdx? (· == false) with
  | none =>
    rw [hi] at h
    cases h
  | some k =>
    simp only [hi, Option.some.injEq, Prod.mk.injEq] at h
    obtain ⟨rfl, rfl⟩ := h
    obtain ⟨hlt, hk, -⟩ := List.findIdx?_eq_some_iff_getElem.1 hi
    have hk : used[k] = false := by simpa using hk
    refine ⟨by rw [List.getElem?_eq_getElem hlt, hk], fun j => ?_⟩
    rw [List.getElem?_set]
    by_cases hj : k = j
    · subst hj
      simp [hlt, hk]
    · simp [hj, Ne.symm hj]

/-- No entry can be taken only when all entries are used. -/
theorem allocSlot_eq_none {used : List Bool} :
    allocSlot used = none ↔ ∀ i, i < used.length → used[i]? = some true := by
  unfold allocSlot
  cases hi : used.findIdx? (· == false) with
  | none =>
    rw [List.findIdx?_eq_none_iff] at hi
    simp only [true_iff]
    intro i hlt
    rw [List.getElem?_eq_getElem hlt]
    simpa using hi _ (List.getElem_mem hlt)
  | some k =>
    obtain ⟨hlt, hk, -⟩ := List.findIdx?_eq_some_iff_getElem.1 hi
    have hk : used[k] = false := by simpa using hk
    simp only [reduceCtorEq, false_iff, not_forall]
    exact ⟨k, hlt, by simp [List.getElem?_eq_getElem hlt, hk]⟩

/-- An entry that is taken and given back leaves the pool as it was. -/
theorem freeSlot_of_allocSlot {used used' : List Bool} {i : Nat}
    (h : allocSlot used = some (i, used')) : freeSlot used' i = used := by
  have hfree := (allocSlot_spec h).1
  unfold allocSlot at h
  cases hi : used.findIdx? (· == false) with
  | none =>
    rw [hi] at h
    cases h
  | some k =>
    simp only [hi, Option.some.injEq, Prod.mk.injEq] at h
    obtain ⟨rfl, rfl⟩ := h
    obtain ⟨hlt, hk⟩ := List.getElem?_eq_some_iff.1 hfree
    rw [freeSlot, List.set_set, ← hk, List.set_getElem_self]

theorem freeSlot_spec (used : List Bool) (i j : Nat) :
    (freeSlot used i)[j]? = some true ↔ used[j]? = some true ∧ j ≠ i := by
  unfold freeSlot
  rw [List.getElem?_set]
  by_cases hj : i = j
  · subst hj
    simp
  · simp [hj, Ne.symm hj]

theorem mem_nodes_freeNode {p : Pools} {n : OperaInfo} {i : Nat} :
    i ∈ (p.freeNode n).nodes ↔ i ∈ p.nodes ∧ i ≠ n.slot := freeSlot_spec _ _ _

theorem mem_buffers_freeNode {p : Pools} {n : OperaInfo} {i : Nat} :
    i ∈ (p.freeNode n).buffers ↔ i ∈ p.buffers ∧ n.buffSlot ≠ some i := by
  unfold Pools.buffers Pools.freeNode
  cases h : n.buffSlot with
  | none => simp
  | some b =>
    simp only [Set.mem_ofPred_eq, freeSlot_spec, ne_eq, Option.some.injEq]
    exact and_congr_right fun _ => not_congr eq_comm

/-! ### Lemmas about adding an erase -/

/-- Only the last node of the queue may be locked. -/
def UnlockedInit (q : List OperaInfo) : Prop := ∀ n ∈ q.dropLast, n.lock = false

/-- The nodes that an erase of the range does not delete. -/
def OperaInfo.survives (addr len : Nat) (n : OperaInfo) : Bool :=
  n.lock || !decide (n.Inside addr len)

theorem survives_eq_false_iff {addr len : Nat} {n : OperaInfo} :
    n.survives addr len = false ↔ n.lock = false ∧ n.Inside addr len := by
  simp [OperaInfo.survives]

theorem UnlockedInit.tail {n : OperaInfo} {q : List OperaInfo} (h : UnlockedInit (n :: q)) :
    UnlockedInit q := by
  cases q with
  | nil => simp [UnlockedInit]
  | cons m q => exact fun n' hn' => h n' (List.mem_cons_of_mem _ hn')

theorem unlockedInit_cons {n : OperaInfo} {q : List OperaInfo} :
    UnlockedInit (n :: q) ↔ (q ≠ [] → n.lock = false) ∧ UnlockedInit q := by
  cases q with
  | nil => simp [UnlockedInit]
  | cons m q => simp [UnlockedInit]

/-- A locked erase in the range, which ends the loop of `_e_opera_add`. -/
def OperaInfo.absorbs (addr len : Nat) (n : OperaInfo) : Bool :=
  decide (n.Inside addr len) && n.lock && n.isErasing

/-- The loop of `_e_opera_add` deletes the unlocked nodes in the range. -/
theorem eOperaMerge_eq {addr len : Nat} {p : Pools} {q : List OperaInfo} (h : UnlockedInit q) :
    eOperaMerge addr len p q =
      ((q.filter fun n => !n.survives addr len).foldl Pools.freeNode p,
        q.filter (·.survives addr len), q.any (·.absorbs addr len)) := by
  induction q generalizing p with
  | nil => rfl
  | cons n q ih =>
    by_cases hin : n.Inside addr len
    · cases hl : n.lock with
      | false => simp [eOperaMerge, OperaInfo.survives, OperaInfo.absorbs, hin, hl, ih h.tail]
      | true =>
        have hq : q = [] := by
          by_contra hne
          rw [unlockedInit_cons] at h
          simp [h.1 hne] at hl
        subst hq
        cases he : n.isErasing <;>
          simp [eOperaMerge, OperaInfo.survives, OperaInfo.absorbs, hl, hin, he]
    · simp [eOperaMerge, OperaInfo.survives, OperaInfo.absorbs, hin, ih h.tail]

theorem mem_nodes_foldl_freeNode {l : List OperaInfo} {p : Pools} {i : Nat} :
    i ∈ (l.foldl Pools.freeNode p).nodes ↔ i ∈ p.nodes ∧ ∀ n ∈ l, n.slot ≠ i := by
  induction l generalizing p with
  | nil => simp
  | cons n l ih =>
    simp only [List.foldl_cons, ih, mem_nodes_freeNode, List.forall_mem_cons, and_assoc, ne_comm]

theorem mem_buffers_foldl_freeNode {l : List OperaInfo} {p : Pools} {i : Nat} :
    i ∈ (l.foldl Pools.freeNode p).buffers ↔ i ∈ p.buffers ∧ ∀ n ∈ l, n.buffSlot ≠ some i := by
  induction l generalizing p with
  | nil => simp
  | cons n l ih =>
    simp only [List.foldl_cons, ih, mem_buffers_freeNode, List.forall_mem_cons, and_assoc]

theorem length_operaList_foldl_freeNode (l : List OperaInfo) (p : Pools) :
    (l.foldl Pools.freeNode p).operaList.length = p.operaList.length := by
  induction l generalizing p with
  | nil => rfl
  | cons n l ih => rw [List.foldl_cons, ih]; exact List.length_set

/-- Everything `_e_opera_add` can do: it leaves the erase to a locked one, it adds a node, or the
node pool is exhausted and nothing has changed. -/
theorem eOperaAdd_cases {p p' : Pools} {q q' : List OperaInfo} {addr len : Nat} {ok : Bool}
    (h : UnlockedInit q) (hown : ∀ n ∈ q, n.slot ∈ p.nodes)
    (hadd : eOperaAdd p q addr len = (p', q', ok)) :
    (ok = true ∧ (∃ t ∈ q, t.absorbs addr len = true) ∧
        p' = (q.filter fun n => !n.survives addr len).foldl Pools.freeNode p ∧
        q' = q.filter (·.survives addr len)) ∨
      (ok = true ∧ (∀ t ∈ q, t.absorbs addr len = false) ∧ ∃ slot operaList,
        allocSlot ((q.filter fun n => !n.survives addr len).foldl Pools.freeNode p).operaList =
          some (slot, operaList) ∧
        p' = { (q.filter fun n => !n.survives addr len).foldl Pools.freeNode p with operaList } ∧
        q' = { slot, addr, len, lock := false, opera := .erasing } ::
          q.filter (·.survives addr len)) ∨
      (ok = false ∧ allocSlot p.operaList = none ∧ p' = p ∧ q' = q) := by
  unfold eOperaAdd at hadd
  rw [eOperaMerge_eq h] at hadd
  cases ha : q.any (·.absorbs addr len) with
  | true =>
    simp only [ha, Prod.mk.injEq] at hadd
    obtain ⟨rfl, rfl, rfl⟩ := hadd
    exact .inl ⟨rfl, by simpa using ha, rfl, rfl⟩
  | false =>
    simp only [ha] at hadd
    split at hadd
    case h_2 slot operaList halloc =>
      obtain ⟨rfl, rfl, rfl⟩ := hadd
      exact .inr (.inl ⟨rfl, by simpa using ha, slot, operaList, halloc, rfl, rfl⟩)
    case h_1 halloc =>
      obtain ⟨rfl, rfl, rfl⟩ := hadd
      -- a deleted node would have left a free entry
      have hall : ∀ n ∈ q, n.survives addr len = true := by
        intro n hn
        by_contra hdel
        rw [allocSlot_eq_none] at halloc
        have hlt : n.slot < p.operaList.length := by
          by_contra hge
          have := hown n hn
          simp [Pools.nodes, List.getElem?_eq_none (not_lt.1 hge)] at this
        have hused := halloc n.slot (by rwa [length_operaList_foldl_freeNode])
        have hfree := (mem_nodes_foldl_freeNode.1 hused).2 n
          (List.mem_filter.2 ⟨hn, by simpa using hdel⟩)
        exact hfree rfl
      have hnil : (q.filter fun n => !n.survives addr len) = [] := by
        simpa [List.filter_eq_nil_iff] using hall
      rw [hnil] at halloc ⊢
      exact .inr (.inr ⟨rfl, halloc, rfl, by simpa [List.filter_eq_self] using hall⟩)

/-! ### Lemmas about adding a write -/

@[simp] theorem widen_slot (n : OperaInfo) (wOffs wLen : Nat) (buffer : Nat → UInt8) :
    (n.widen wOffs wLen buffer).slot = n.slot := by
  unfold OperaInfo.widen
  split <;> rfl

@[simp] theorem widen_buffSlot (n : OperaInfo) (wOffs wLen : Nat) (buffer : Nat → UInt8) :
    (n.widen wOffs wLen buffer).buffSlot = n.buffSlot := by
  cases h : n.opera <;> simp [OperaInfo.widen, OperaInfo.buffSlot, h]

@[simp] theorem widen_lock (n : OperaInfo) (wOffs wLen : Nat) (buffer : Nat → UInt8) :
    (n.widen wOffs wLen buffer).lock = n.lock := by
  unfold OperaInfo.widen
  split <;> rfl

@[simp] theorem widen_addr (n : OperaInfo) (wOffs wLen : Nat) (buffer : Nat → UInt8) :
    (n.widen wOffs wLen buffer).addr = n.addr := by
  unfold OperaInfo.widen
  split <;> rfl

@[simp] theorem widen_len (n : OperaInfo) (wOffs wLen : Nat) (buffer : Nat → UInt8) :
    (n.widen wOffs wLen buffer).len = n.len := by
  unfold OperaInfo.widen
  split <;> rfl

/-- The merged window is the hull of the two windows. -/
theorem widen_opera {n : OperaInfo} {offs len wOffs wLen : Nat} {buff : SectorBuffer}
    (ho : n.opera = .writting offs len buff) (buffer : Nat → UInt8) :
    (n.widen wOffs wLen buffer).opera =
      .writting (min offs wOffs) (max (offs + len) (wOffs + wLen) - min offs wOffs)
        { buff with bytes := overlay wOffs wLen buffer buff.bytes } := by
  simp only [OperaInfo.widen, ho, Opera.writting.injEq, and_true]
  constructor <;> (try split_ifs) <;> omega

/-- The update takes place at the node where the search ended. -/
theorem updateFirst_append {p : OperaInfo → Bool} {f : OperaInfo → OperaInfo}
    {l r : List OperaInfo} {n : OperaInfo} (hl : ∀ m ∈ l, p m = false) (hn : p n = true) :
    updateFirst p f (l ++ n :: r) = l ++ f n :: r := by
  induction l with
  | nil => simp [updateFirst, hn]
  | cons m l ih =>
    rw [List.forall_mem_cons] at hl
    simp [updateFirst, hl.1, ih hl.2]

/-- Everything `addWriteNode` can do. -/
theorem addWriteNode_cases {sectorSize start secLen wOffs wLen : Nat} {p p' : Pools}
    {q q' : List OperaInfo} {old buffer : Nat → UInt8} {ok : Bool}
    (hadd : addWriteNode sectorSize p q start secLen wOffs wLen old buffer = some (p', q', ok)) :
    (ok = true ∧ ∃ slot operaList b bufferList,
        allocSlot p.operaList = some (slot, operaList) ∧
        allocSlot p.bufferList = some (b, bufferList) ∧ p' = { operaList, bufferList } ∧
        q' = { slot, addr := start, len := secLen, lock := false,
               opera := .writting wOffs wLen ⟨b, overlay wOffs wLen buffer old⟩ } :: q) ∨
      (ok = false ∧ p' = p ∧ q' = q) := by
  unfold addWriteNode at hadd
  cases hslot : allocSlot p.operaList with
  | none =>
    simp only [hslot, Option.some.injEq, Prod.mk.injEq] at hadd
    obtain ⟨rfl, rfl, rfl⟩ := hadd
    exact .inr ⟨rfl, rfl, rfl⟩
  | some r =>
    obtain ⟨slot, operaList⟩ := r
    simp only [hslot] at hadd
    split at hadd
    · cases hadd
    · cases hb : allocSlot p.bufferList with
      | some r =>
        obtain ⟨b, bufferList⟩ := r
        simp only [hb, Option.some.injEq, Prod.mk.injEq] at hadd
        obtain ⟨rfl, rfl, rfl⟩ := hadd
        exact .inl ⟨rfl, slot, operaList, b, bufferList, rfl, rfl, rfl, rfl⟩
      | none =>
        simp only [hb, Option.some.injEq, Prod.mk.injEq] at hadd
        obtain ⟨rfl, rfl, rfl⟩ := hadd
        exact .inr ⟨rfl, by rw [freeSlot_of_allocSlot hslot], rfl⟩

/-- Everything `_w_opera_add` can do: it merges the write into the first node of the sector that is
an unlocked write, it adds a node whose buffer starts from erased bytes or from the flash, or a
pool is exhausted and the queue has not changed. -/
theorem wOperaAdd_cases {sectorSize secLen addr len : Nat} {flash : Content} {p p' : Pools}
    {q q' : List OperaInfo} {buffer : Nat → UInt8} {ok : Bool}
    (hadd : wOperaAdd sectorSize flash p q secLen addr len buffer = some (p', q', ok)) :
    (ok = true ∧ p' = p ∧ ∃ l n r, q = l ++ n :: r ∧ n.addr = secStart secLen addr ∧
        n.isErasing = false ∧ n.lock = false ∧
        (∀ m ∈ l, m.stopsWrite (secStart secLen addr) = false) ∧
        q' = l ++ n.widen (addr - secStart secLen addr) len buffer :: r) ∨
      (ok = true ∧ ∃ old slot operaList b bufferList,
        ((∃ l n r, q = l ++ n :: r ∧ n.addr = secStart secLen addr ∧ n.isErasing = true ∧
              (∀ m ∈ l, m.stopsWrite (secStart secLen addr) = false) ∧ old = fun _ => 0xFF) ∨
          ((∀ m ∈ q, m.stopsWrite (secStart secLen addr) = false) ∧
              old = fun i => flash (physAddr (secStart secLen addr + i)))) ∧
        allocSlot p.operaList = some (slot, operaList) ∧
        allocSlot p.bufferList = some (b, bufferList) ∧ p' = { operaList, bufferList } ∧
        q' = { slot, addr := secStart secLen addr, len := secLen, lock := false,
               opera := .writting (addr - secStart secLen addr) len
                 ⟨b, overlay (addr - secStart secLen addr) len buffer old⟩ } :: q) ∨
      (ok = false ∧ p' = p ∧ q' = q) := by
  unfold wOperaAdd at hadd
  simp only at hadd
  cases hf : q.find? (·.stopsWrite (secStart secLen addr)) with
  | none =>
    have hq : ∀ m ∈ q, m.stopsWrite (secStart secLen addr) = false := by
      simpa using List.find?_eq_none.1 hf
    simp only [hf] at hadd
    rcases addWriteNode_cases hadd with ⟨hok, slot, ol, b, bl, h⟩ | h
    · exact .inr (.inl ⟨hok, _, slot, ol, b, bl, .inr ⟨hq, rfl⟩, h⟩)
    · exact .inr (.inr h)
  | some n =>
    obtain ⟨hn, l, r, rfl, hl⟩ := List.find?_eq_some_iff_append.1 hf
    have hl : ∀ m ∈ l, m.stopsWrite (secStart secLen addr) = false := by simpa using hl
    simp only [hf] at hadd
    have haddr : n.addr = secStart secLen addr := by
      simp only [OperaInfo.stopsWrite, Bool.and_eq_true, beq_iff_eq] at hn
      exact hn.1
    cases ho : n.opera with
    | writting offs wLen buff =>
      have he : n.isErasing = false := by simp [OperaInfo.isErasing, ho]
      simp only [ho, Option.some.injEq, Prod.mk.injEq, updateFirst_append hl hn] at hadd
      obtain ⟨rfl, rfl, rfl⟩ := hadd
      refine .inl ⟨rfl, rfl, l, n, r, rfl, haddr, he, ?_, hl, rfl⟩
      simpa [OperaInfo.stopsWrite, haddr, he] using hn
    | erasing =>
      have he : n.isErasing = true := by simp [OperaInfo.isErasing, ho]
      simp only [ho] at hadd
      rcases addWriteNode_cases hadd with ⟨hok, slot, ol, b, bl, h⟩ | h
      · exact .inr (.inl ⟨hok, _, slot, ol, b, bl, .inl ⟨l, n, r, rfl, haddr, he, hl, rfl⟩, h⟩)
      · exact .inr (.inr h)

end EarbudFirmware.Norflash
