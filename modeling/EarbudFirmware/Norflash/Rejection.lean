import EarbudFirmware.Norflash.Pools

/-!
# Flash service: requests that find no room

A request that is rejected because a pool is exhausted changes nothing: a node that
`_e_opera_add` deletes leaves room for the new one, and `_w_opera_add` gives the node back when it
gets no buffer. `norflash_api_get_free_buffer_count` is meant to say beforehand whether there is
room, but it looks for writes in the node pool and for erases in the buffer pool.

## Main definitions

* `FlashApi.norflashApiGetFreeBufferCount` — `norflash_api_get_free_buffer_count`
* `Promises` — the count is returned, and it is zero when the next request finds no room
* `HasRoom` — what makes the promise true

## Main results

* `unchanged_of_bufferFull` — a rejected request changes nothing
* `allocSlot_operaList`, `allocSlot_bufferList` — when the pools are exhausted
* `promises_run_iff` — the requests for which the count is right
-/

namespace EarbudFirmware.Norflash

open NorMemory (Content Op)
open Ownership (heldFrom mem_heldFrom length_le_of_nodup)
open Relation (ReflTransGen)
open Transition

variable {pf : Platform} {s s' t : FlashApi} {m : ModuleId} {d : FlashId}

/-! ### The free count -/

/-- `_get_w_count`. -/
def ModuleInfo.getWCount (mi : ModuleInfo) : Nat :=
  (mi.operaInfo.filter fun n => !n.isErasing).length

/-- `_get_e_count`. -/
def ModuleInfo.getECount (mi : ModuleInfo) : Nat :=
  (mi.operaInfo.filter fun n => n.isErasing).length

/-- The loop of `norflash_api_get_free_buffer_count` over the modules. -/
def FlashApi.usedCount (s : FlashApi) (d : FlashId) (count : ModuleInfo → Nat) : Nat :=
  ((ModuleId.all.filter fun m => (s.modInfo m).isRegistered && (s.modInfo m).devId = d).map
    fun m => count (s.modInfo m)).sum

/-- `NORFLASH_API_WRITTING`. -/
def norflashApiWritting : Nat := 0x01

/-- `NORFLASH_API_ERASING`. -/
def norflashApiErasing : Nat := 0x02

/-- `norflash_api_get_free_buffer_count`; `none` is a failing assertion. -/
def FlashApi.norflashApiGetFreeBufferCount (s : FlashApi) (d : FlashId) (type : Nat) :
    Option Nat :=
  let used := if type.testBit 0 then s.usedCount d ModuleInfo.getWCount else 0
  let operaNum := (s.pools d).operaList.length
  if type.testBit 0 ∧ operaNum < used then none
  else
    let free := if type.testBit 0 then operaNum - used else 0
    let used := if type.testBit 1 then used + s.usedCount d ModuleInfo.getECount else used
    let bufferNum := (s.pools d).bufferList.length
    if type.testBit 1 ∧ bufferNum < used then none
    else some (if type.testBit 1 then free + (bufferNum - used) else free)

/-- The write is merged into a write that is queued. -/
def Merged (q : List OperaInfo) (secLen addr : Nat) : Prop :=
  ∃ n, q.find? (·.stopsWrite (secStart secLen addr)) = some n ∧ n.isErasing = false

/-- The free count for the type of the next request is returned, and if it is positive, the request
is not rejected for want of room. -/
def Promises (pf : Platform) (s : FlashApi) : Event → Prop
  | .write m addr buffer len true polls =>
    ∃ n, s.norflashApiGetFreeBufferCount (s.modInfo m).devId norflashApiWritting = some n ∧
      (0 < n → ∀ t, call pf s (.write m addr buffer len true polls) ≠ some (t, .bufferFull))
  | .erase m addr len true polls =>
    ∃ n, s.norflashApiGetFreeBufferCount (s.modInfo m).devId norflashApiErasing = some n ∧
      (0 < n → ∀ t, call pf s (.erase m addr len true polls) ≠ some (t, .bufferFull))
  | _ => True

/-- There are not more erases than buffers. For a write there are a node and a buffer, or it does
not need them: its arguments are rejected, or it is merged. The buffer is not asked for when the
module has registered with a sector size that is not the one of the flash, which fails an
assertion. -/
def HasRoom (pf : Platform) (s : FlashApi) : Event → Prop
  | .write m addr _ len true _ =>
    checkAccess pf s (s.modInfo m) addr len ≠ .ok () ∨
      Merged (s.modInfo m).operaInfo (s.modInfo m).modSectorLen addr ∨
      (s.usedCount (s.modInfo m).devId ModuleInfo.getWCount +
          s.usedCount (s.modInfo m).devId ModuleInfo.getECount <
          (s.pools (s.modInfo m).devId).operaList.length ∧
        ((s.modInfo m).modSectorLen = pf.sectorSize (s.modInfo m).devId →
          s.usedCount (s.modInfo m).devId ModuleInfo.getWCount <
            (s.pools (s.modInfo m).devId).bufferList.length))
  | .erase m _ _ true _ =>
    s.usedCount (s.modInfo m).devId ModuleInfo.getECount ≤
      (s.pools (s.modInfo m).devId).bufferList.length
  | _ => True

/-! ### Rejected requests -/

theorem HalRet.toApiRet_ne_bufferFull (r : HalRet) : r.toApiRet ≠ .bufferFull := by
  cases r <;> decide

theorem checkErase_ne_bufferFull {mi : ModuleInfo} {addr len : Nat} :
    checkErase s mi addr len ≠ .error .bufferFull := by
  unfold checkErase
  cases s.isInited <;> cases mi.isRegistered <;>
    cases addrIsValide mi.modBaseAddr mi.modLen addr len <;>
    simp [bind, Except.bind, pure, Except.pure, throw, throwThe, MonadExceptOf.throw]
  split_ifs <;> simp

theorem checkAccess_ne_bufferFull {mi : ModuleInfo} {addr len : Nat} :
    checkAccess pf s mi addr len ≠ .error .bufferFull := by
  unfold checkAccess
  cases s.isInited <;> cases mi.isRegistered <;>
    cases addrIsValide mi.modBaseAddr mi.modLen addr len <;>
    simp [bind, Except.bind, pure, Except.pure, throw, throwThe, MonadExceptOf.throw]
  split_ifs <;> simp

/-- An erase is rejected when the node pool is exhausted. -/
theorem erase_bufferFull (hs : Wf s) {addr len : Nat} {async : Bool} {polls : List Bool}
    (h : norflashApiErase pf s m addr len async polls = some (t, .bufferFull)) :
    allocSlot (s.pools (s.modInfo m).devId).operaList = none ∧ t = s := by
  rcases norflashApiErase_cases h with ⟨hchk, -⟩ | ⟨-, ⟨-, p, q, ok, hadd, ht, hret⟩ |
    ⟨-, _, hr, -, -, hret⟩⟩
  · exact absurd hchk checkErase_ne_bufferFull
  · rcases eOperaAdd_cases (hs.unlockedInit m) (fun _ => hs.mem_nodes) hadd with
      ⟨rfl, -⟩ | ⟨rfl, -⟩ | ⟨rfl, halloc, rfl, rfl⟩
    · cases hret
    · cases hret
    · exact ⟨halloc, by simp [ht, FlashApi.setModule, FlashApi.setPools]⟩
  · exact absurd hret.symm hr.toApiRet_ne_bufferFull

theorem write_bufferFull {addr len : Nat} {buffer : Nat → UInt8} {async : Bool}
    {polls : List Bool}
    (h : norflashApiWrite pf s m addr buffer len async polls = some (t, .bufferFull)) : t = s := by
  rcases norflashApiWrite_cases h with ⟨hchk, -⟩ | ⟨-, ⟨-, p, q, ok, hadd, ht, hret⟩ |
    ⟨-, _, hr, -, -, hret⟩⟩
  · exact absurd hchk checkAccess_ne_bufferFull
  · rcases wOperaAdd_cases hadd with ⟨rfl, -⟩ | ⟨rfl, -⟩ | ⟨rfl, rfl, rfl⟩
    · cases hret
    · cases hret
    · simp [ht, FlashApi.setModule, FlashApi.setPools]
  · exact absurd hret.symm hr.toApiRet_ne_bufferFull

theorem bufferFull_unchanged (hs : Wf s) {e : Event} (h : call pf s e = some (t, .bufferFull)) :
    t = s := by
  cases e with
  | register m d base len block sector page bufferLen cb =>
    have hret : (norflashApiRegister s m d base len block sector page bufferLen cb).2 =
        .bufferFull := congrArg Prod.snd (Option.some.inj h)
    unfold norflashApiRegister at hret
    split_ifs at hret
  | erase m addr len async polls => exact (erase_bufferFull hs h).2
  | write m addr buffer len async polls => exact write_bufferFull h
  | flush polls ans =>
    obtain ⟨_, -, heq⟩ := Option.map_eq_some_iff.1 h
    cases congrArg Prod.snd heq
  | flushDisable cb => cases congrArg Prod.snd (Option.some.inj h)
  | flushEnable => cases congrArg Prod.snd (Option.some.inj h)

/-- A node is asked for, and then a buffer. -/
theorem addWriteNode_rejected_iff {sectorSize start secLen wOffs wLen : Nat} {p : Pools}
    {q : List OperaInfo} {old buffer : Nat → UInt8} :
    (∃ p' q', addWriteNode sectorSize p q start secLen wOffs wLen old buffer =
        some (p', q', false)) ↔
      allocSlot p.operaList = none ∨ secLen = sectorSize ∧ allocSlot p.bufferList = none := by
  unfold addWriteNode
  cases hslot : allocSlot p.operaList with
  | none => simp
  | some r =>
    by_cases hsize : secLen = sectorSize
    · cases hbuff : allocSlot p.bufferList <;> simp [hsize]
    · simp [hsize]

theorem wOperaAdd_rejected_iff {sectorSize secLen addr len : Nat} {flash : Content} {p : Pools}
    {q : List OperaInfo} {buffer : Nat → UInt8} :
    (∃ p' q', wOperaAdd sectorSize flash p q secLen addr len buffer = some (p', q', false)) ↔
      ¬ Merged q secLen addr ∧
        (allocSlot p.operaList = none ∨ secLen = sectorSize ∧ allocSlot p.bufferList = none) := by
  unfold wOperaAdd Merged
  simp only
  cases hfind : q.find? (·.stopsWrite (secStart secLen addr)) with
  | none =>
    rw [addWriteNode_rejected_iff]
    simp
  | some n =>
    cases hopera : n.opera with
    | writting wOffs wLen buff =>
      have he : n.isErasing = false := by simp [OperaInfo.isErasing, hopera]
      simp [hopera, he]
    | erasing =>
      have he : n.isErasing = true := by simp [OperaInfo.isErasing, hopera]
      simp only [hopera]
      rw [addWriteNode_rejected_iff]
      simp [he]

/-! ### The sizes of the pools -/

/-- The pools have the sizes of the build. -/
def Sized (pf : Platform) (s : FlashApi) : Prop :=
  ∀ d, (s.pools d).operaList.length = (pf.bufferNum d + 1) * 3 ∧
    (s.pools d).bufferList.length = pf.bufferNum d

theorem length_allocSlot {used used' : List Bool} {i : Nat} (h : allocSlot used = some (i, used')) :
    used'.length = used.length := by
  rw [← freeSlot_of_allocSlot h, freeSlot, List.length_set]

theorem length_freeNode (p : Pools) (n : OperaInfo) :
    (p.freeNode n).operaList.length = p.operaList.length ∧
      (p.freeNode n).bufferList.length = p.bufferList.length := by
  refine ⟨List.length_set, ?_⟩
  unfold Pools.freeNode
  cases n.buffSlot with
  | none => rfl
  | some b => exact List.length_set

theorem length_foldl_freeNode (l : List OperaInfo) (p : Pools) :
    (l.foldl Pools.freeNode p).operaList.length = p.operaList.length ∧
      (l.foldl Pools.freeNode p).bufferList.length = p.bufferList.length := by
  induction l generalizing p with
  | nil => exact ⟨rfl, rfl⟩
  | cons n l ih =>
    rw [List.foldl_cons, (ih _).1, (ih _).2]
    exact length_freeNode p n

/-- The pools of one device are replaced by ones of the same sizes. -/
theorem Sized.of_pools (h : Sized pf s) (d : FlashId)
    (hother : ∀ d', d' ≠ d → s'.pools d' = s.pools d')
    (hlen : (s'.pools d).operaList.length = (s.pools d).operaList.length ∧
      (s'.pools d).bufferList.length = (s.pools d).bufferList.length) : Sized pf s' := by
  intro d'
  by_cases hd : d' = d
  · rw [hd, hlen.1, hlen.2]
    exact h d
  · rw [hother d' hd]
    exact h d'

theorem Internal.sized {P : Op → Content → Content → Prop} (hstep : Internal P s s')
    (h : Sized pf s) : Sized pf s' := by
  cases hstep with
  | control => exact h
  | @complete m q t hq hfree k =>
    refine h.of_pools (s.modInfo m).devId (fun d hd => Function.update_of_ne hd _ _) ?_
    simp only [FlashApi.completeTail, Function.update_self]
    exact length_freeNode _ _
  | suspend => exact h

theorem Sized.internals {P : Op → Content → Content → Prop} (h : Sized pf s)
    (hsteps : ReflTransGen (Internal P) s s') : Sized pf s' := by
  induction hsteps with
  | refl => exact h
  | tail _ hstep ih => exact hstep.sized ih

theorem Sized.setPools (h : Sized pf s) {p : Pools} {mi : ModuleInfo}
    (hlen : p.operaList.length = (s.pools d).operaList.length ∧
      p.bufferList.length = (s.pools d).bufferList.length) :
    Sized pf ((s.setPools d p).setModule m mi) :=
  h.of_pools d (fun _ hd => Function.update_of_ne hd _ _)
    (by simpa [FlashApi.setModule, FlashApi.setPools] using hlen)

theorem Sized.halIssue_sync (h : Sized pf s) {op : Op} {addr len : Nat} {r : HalRet}
    (hhal : halIssue pf s d op addr len false .ok = some (s', r)) : Sized pf s' := by
  rcases Norflash.halIssue_sync hhal with ⟨rfl, -⟩ | ⟨-, -, rfl⟩
  · exact h
  · exact h

theorem Sized.step (h : Sized pf s) (hs : Wf s) {e : Event} (hstep : step pf s e = some s') :
    Sized pf s' := by
  obtain ⟨⟨_, r⟩, hcall, rfl⟩ := Option.map_eq_some_iff.1 hstep
  cases e with
  | register m d base len block sector page bufferLen cb =>
    have hregister : Sized pf
        (norflashApiRegister s m d base len block sector page bufferLen cb).1 := by
      unfold norflashApiRegister
      split_ifs <;> exact h
    obtain ⟨rfl, -⟩ := Prod.mk.inj (Option.some.inj hcall)
    exact hregister
  | erase m addr len async polls =>
    rcases norflashApiErase_cases hcall with ⟨-, rfl⟩ | ⟨-, ⟨-, p, q, ok, hadd, rfl, -⟩ |
      ⟨-, s₁, hr, hdrain, hhal, -⟩⟩
    · exact h
    · refine h.setPools ?_
      rcases eOperaAdd_cases (hs.unlockedInit m) (fun _ => hs.mem_nodes) hadd with
        ⟨-, -, rfl, -⟩ | ⟨-, -, slot, operaList, halloc, rfl, -⟩ | ⟨-, -, rfl, -⟩
      · exact length_foldl_freeNode _ _
      · exact ⟨(length_allocSlot halloc).trans (length_foldl_freeNode _ _).1,
          (length_foldl_freeNode _ _).2⟩
      · exact ⟨rfl, rfl⟩
    · exact (h.internals (syncDrain_internal (P := fun _ _ _ => True) hs hdrain)).halIssue_sync hhal
  | write m addr buffer len async polls =>
    rcases norflashApiWrite_cases hcall with ⟨-, rfl⟩ | ⟨-, ⟨-, p, q, ok, hadd, rfl, -⟩ |
      ⟨-, s₁, hr, hdrain, hhal, -⟩⟩
    · exact h
    · refine h.setPools ?_
      rcases wOperaAdd_cases hadd with ⟨-, rfl, -⟩ |
        ⟨-, old, slot, operaList, b, bufferList, -, hslot, hb, rfl, -⟩ | ⟨-, rfl, -⟩
      · exact ⟨rfl, rfl⟩
      · exact ⟨length_allocSlot hslot, length_allocSlot hb⟩
      · exact ⟨rfl, rfl⟩
    · exact (h.internals (syncDrain_internal (P := fun _ _ _ => True) hs hdrain)).halIssue_sync hhal
  | flush polls ans =>
    obtain ⟨⟨s₁, b⟩, hflush, heq⟩ := Option.map_eq_some_iff.1 hcall
    obtain ⟨rfl, -⟩ := Prod.mk.inj heq
    exact h.internals (norflashApiFlush_internal hs (halAllows_true s ans) hflush)
  | flushDisable cb =>
    obtain ⟨rfl, -⟩ := Prod.mk.inj (Option.some.inj hcall)
    simp only [norflashApiFlushDisable, hs.inited]
    exact h
  | flushEnable =>
    obtain ⟨rfl, -⟩ := Prod.mk.inj (Option.some.inj hcall)
    simp only [norflashApiFlushEnable, hs.inited]
    exact h

theorem sized_init (pf : Platform) (flash : FlashId → Content) : Sized pf (init pf flash) :=
  fun _ => ⟨List.length_replicate, List.length_replicate⟩

/-! ### Counting the used entries -/

/-- The modules that are not registered have no operations. -/
theorem Wf.usedCount_eq (hs : Wf s) {count : ModuleInfo → Nat}
    (hcount : ∀ mi : ModuleInfo, mi.operaInfo = [] → count mi = 0) :
    s.usedCount d count = ((ModuleId.all.filter ((fun m => (s.modInfo m).devId) · = d)).map
      fun m => count (s.modInfo m)).sum := by
  unfold FlashApi.usedCount
  induction ModuleId.all with
  | nil => rfl
  | cons m ms ih =>
    by_cases hdev : (s.modInfo m).devId = d
    · cases hreg : (s.modInfo m).isRegistered with
      | true => simp [hdev, hreg, ih]
      | false => simp [hdev, hreg, ih, hcount _ (hs.unregistered m hreg)]
    · simp [hdev, ih]

theorem length_buffSlots (q : List OperaInfo) :
    (q.filterMap (·.buffSlot)).length = (q.filter fun n => !n.isErasing).length := by
  induction q with
  | nil => rfl
  | cons n q ih =>
    cases h : n.isErasing with
    | false =>
      obtain ⟨b, hb⟩ := exists_buffSlot h
      simp [hb, h, ih]
    | true =>
      have hb : n.buffSlot = none := by
        unfold OperaInfo.isErasing at h
        unfold OperaInfo.buffSlot
        split at h
        · cases h
        · rfl
      simp [hb, h, ih]

theorem length_nodeSlots (mi : ModuleInfo) :
    (mi.operaInfo.filterMap (·.nodeSlot)).length = mi.getWCount + mi.getECount := by
  rw [filterMap_nodeSlot, List.length_map, Nat.add_comm]
  exact List.length_eq_length_filter_add OperaInfo.isErasing

/-- A pool is exhausted exactly when as many of its entries are held as it has. -/
theorem allocSlot_eq_none_iff {used : List Bool} {held : List Nat} (hnodup : held.Nodup)
    (hmem : ∀ i, i ∈ held ↔ used[i]? = some true) :
    held.length ≤ used.length ∧ (allocSlot used = none ↔ used.length ≤ held.length) := by
  have hlt : ∀ i ∈ held, i < used.length := fun i hi =>
    (List.getElem?_eq_some_iff.1 ((hmem i).1 hi)).1
  obtain ⟨hle, hiff⟩ := length_le_of_nodup hnodup hlt
  refine ⟨hle, ?_⟩
  rw [allocSlot_eq_none, hiff]
  exact forall₂_congr fun i _ => (hmem i).symm

/-- The node pool is exhausted when there are as many operations as nodes. -/
theorem allocSlot_operaList (hs : Wf s) (hl : NoLeak s) (d : FlashId) :
    s.usedCount d ModuleInfo.getWCount + s.usedCount d ModuleInfo.getECount ≤
        (s.pools d).operaList.length ∧
      (allocSlot (s.pools d).operaList = none ↔ (s.pools d).operaList.length ≤
        s.usedCount d ModuleInfo.getWCount + s.usedCount d ModuleInfo.getECount) := by
  have hlen : (heldFrom ModuleId.all (fun m => (s.modInfo m).devId)
      (fun m => (s.modInfo m).operaInfo.filterMap (·.nodeSlot)) d).length =
      s.usedCount d ModuleInfo.getWCount + s.usedCount d ModuleInfo.getECount := by
    rw [heldFrom, List.length_flatMap,
      hs.usedCount_eq fun mi h => by simp [ModuleInfo.getWCount, h],
      hs.usedCount_eq fun mi h => by simp [ModuleInfo.getECount, h], ← List.sum_map_add]
    simp only [length_nodeSlots]
  rw [← hlen]
  exact allocSlot_eq_none_iff (hs.nodes.nodup_heldFrom ModuleId.nodup_all) fun _ =>
    mem_heldFrom hs.nodes hl.nodes ModuleId.mem_all

/-- The buffer pool is exhausted when there are as many writes as buffers. -/
theorem allocSlot_bufferList (hs : Wf s) (hl : NoLeak s) (d : FlashId) :
    s.usedCount d ModuleInfo.getWCount ≤ (s.pools d).bufferList.length ∧
      (allocSlot (s.pools d).bufferList = none ↔ (s.pools d).bufferList.length ≤
        s.usedCount d ModuleInfo.getWCount) := by
  have hlen : (heldFrom ModuleId.all (fun m => (s.modInfo m).devId)
      (fun m => (s.modInfo m).operaInfo.filterMap (·.buffSlot)) d).length =
      s.usedCount d ModuleInfo.getWCount := by
    rw [heldFrom, List.length_flatMap,
      hs.usedCount_eq fun mi h => by simp [ModuleInfo.getWCount, h]]
    simp only [length_buffSlots]
    rfl
  rw [← hlen]
  exact allocSlot_eq_none_iff (hs.buffers.nodup_heldFrom ModuleId.nodup_all) fun _ =>
    mem_heldFrom hs.buffers hl.buffers ModuleId.mem_all

theorem getFreeBufferCount_writting :
    s.norflashApiGetFreeBufferCount d norflashApiWritting =
      if (s.pools d).operaList.length < s.usedCount d ModuleInfo.getWCount then none
      else some ((s.pools d).operaList.length - s.usedCount d ModuleInfo.getWCount) := by
  have hbit : Nat.testBit 1 1 = false := by decide
  simp [FlashApi.norflashApiGetFreeBufferCount, norflashApiWritting, hbit]

theorem getFreeBufferCount_erasing :
    s.norflashApiGetFreeBufferCount d norflashApiErasing =
      if (s.pools d).bufferList.length < s.usedCount d ModuleInfo.getECount then none
      else some ((s.pools d).bufferList.length - s.usedCount d ModuleInfo.getECount) := by
  have hbit : Nat.testBit 2 1 = true := by decide
  simp [FlashApi.norflashApiGetFreeBufferCount, norflashApiErasing, hbit]

/-! ### Runs -/

/-- What holds in every state. -/
structure Counted (pf : Platform) (s : FlashApi) : Prop where
  wf : Wf s
  noLeak : NoLeak s
  sized : Sized pf s

theorem counted_init (pf : Platform) (flash : FlashId → Content) : Counted pf (init pf flash) :=
  ⟨wf_init pf flash, noLeak_init pf flash, sized_init pf flash⟩

theorem Counted.step (h : Counted pf s) {e : Event} (hstep : step pf s e = some s') :
    Counted pf s' :=
  ⟨h.wf.step hstep, h.noLeak.step h.wf hstep, h.sized.step h.wf hstep⟩

theorem write_bufferFull_iff {addr len : Nat} {buffer : Nat → UInt8} {polls : List Bool} :
    (∃ t, norflashApiWrite pf s m addr buffer len true polls = some (t, .bufferFull)) ↔
      checkAccess pf s (s.modInfo m) addr len = .ok () ∧
        ¬ Merged (s.modInfo m).operaInfo (s.modInfo m).modSectorLen addr ∧
        (allocSlot (s.pools (s.modInfo m).devId).operaList = none ∨
          (s.modInfo m).modSectorLen = pf.sectorSize (s.modInfo m).devId ∧
            allocSlot (s.pools (s.modInfo m).devId).bufferList = none) := by
  rw [← wOperaAdd_rejected_iff]
  constructor
  · rintro ⟨t, h⟩
    rcases norflashApiWrite_cases h with ⟨hchk, -⟩ | ⟨hchk, ⟨-, p, q, ok, hadd, -, hret⟩ |
      ⟨hasync, -⟩⟩
    · exact absurd hchk checkAccess_ne_bufferFull
    · cases ok with
      | true => cases hret
      | false => exact ⟨hchk, p, q, hadd⟩
    · cases hasync
  · rintro ⟨hchk, p, q, hadd⟩
    refine ⟨(s.setPools (s.modInfo m).devId p).setModule m { s.modInfo m with operaInfo := q }, ?_⟩
    simp only [norflashApiWrite, hchk, hadd, if_true, Option.bind_eq_bind, Option.bind_some]
    rfl

theorem Counted.promises_write (h : Counted pf s) {addr len : Nat} {buffer : Nat → UInt8}
    {polls : List Bool} : Promises pf s (.write m addr buffer len true polls) ↔
      HasRoom pf s (.write m addr buffer len true polls) := by
  obtain ⟨hw, hbuffers⟩ := allocSlot_bufferList h.wf h.noLeak (s.modInfo m).devId
  obtain ⟨-, hnodes⟩ := allocSlot_operaList h.wf h.noLeak (s.modInfo m).devId
  obtain ⟨hopera, hbuffer⟩ := h.sized (s.modInfo m).devId
  -- the count of a write is always positive, as there are not more writes than buffers
  have hpromises : Promises pf s (.write m addr buffer len true polls) ↔
      ¬ ∃ t, norflashApiWrite pf s m addr buffer len true polls = some (t, .bufferFull) := by
    simp only [Promises, getFreeBufferCount_writting]
    rw [if_neg (by omega), not_exists]
    constructor
    · rintro ⟨n, hn, hcall⟩
      obtain rfl := Option.some.inj hn
      exact hcall (by omega)
    · exact fun hcall => ⟨_, rfl, fun _ => hcall⟩
  rw [hpromises, write_bufferFull_iff, hnodes, hbuffers]
  simp only [HasRoom, not_and_or, not_not, not_or, Nat.not_le, ne_eq, imp_iff_not_or]

theorem Counted.promises_erase (h : Counted pf s) {addr len : Nat} {polls : List Bool} :
    Promises pf s (.erase m addr len true polls) ↔
      HasRoom pf s (.erase m addr len true polls) := by
  obtain ⟨hw, -⟩ := allocSlot_bufferList h.wf h.noLeak (s.modInfo m).devId
  obtain ⟨-, hnodes⟩ := allocSlot_operaList h.wf h.noLeak (s.modInfo m).devId
  obtain ⟨hopera, hbuffer⟩ := h.sized (s.modInfo m).devId
  simp only [Promises, HasRoom, getFreeBufferCount_erasing]
  split_ifs with hmany
  · simp only [false_and, exists_false, false_iff]
    omega
  · refine ⟨fun _ => Nat.not_lt.1 hmany, fun _ => ⟨_, rfl, fun hpos t ht => ?_⟩⟩
    -- fewer erases than buffers leave a node, as there are three for each buffer
    have hfull := hnodes.1 (erase_bufferFull h.wf ht).1
    omega

/-- The promise is kept exactly when there is room. -/
theorem Counted.promises_iff (h : Counted pf s) (e : Event) : Promises pf s e ↔ HasRoom pf s e := by
  cases e with
  | write m addr buffer len async polls =>
    cases async with
    | true => exact h.promises_write
    | false => exact Iff.rfl
  | erase m addr len async polls =>
    cases async with
    | true => exact h.promises_erase
    | false => exact Iff.rfl
  | _ => exact Iff.rfl

theorem counted_of_run {flash : FlashId → Content} {es : List Event}
    (h : es.foldlM (step pf) (init pf flash) = some s) : Counted pf s :=
  (along_of_forall (fun _ _ => trivial) _ es : Along _ (fun _ _ => True) _ es).preserves
    (fun _ _ _ hs _ ht => hs.step ht) h (counted_init pf flash)

/-- A request that is rejected for want of room leaves the whole state as it was: the queues, the
pools, and what the flash and the queues say about every address. -/
theorem unchanged_of_bufferFull (pf : Platform) (flash : FlashId → Content) (es : List Event)
    (e : Event) (h : es.foldlM (step pf) (init pf flash) = some s)
    (hcall : call pf s e = some (t, .bufferFull)) : t = s :=
  bufferFull_unchanged (counted_of_run h).wf hcall

/-- The board with the pools of `FLASH_API_NORMAL`. -/
def boardNormal : Platform := { board with bufferNum := fun _ => 1 }

/-- A write to the sector `k` of the user data area. -/
def writeUserdata (k : Nat) : Event :=
  .write .userdata (0x3C700000 + k * 0x1000) (fun _ => 0) 16 true []

/-- An erase of the sector `k` of the user data area. -/
def eraseUserdata (k : Nat) : Event := .erase .userdata (0x3C700000 + k * 0x1000) 0x1000 true []

/-- The second write finds no buffer. -/
theorem unchanged_of_bufferFull_second : ∃ s t,
    [registerUserdata, writeUserdata 0].foldlM (step boardNormal)
        (init boardNormal fun _ _ => 0xFF) = some s ∧
      call boardNormal s (writeUserdata 1) = some (t, .bufferFull) ∧ t = s := by
  have hrun : (([registerUserdata, writeUserdata 0].foldlM (step boardNormal)
      (init boardNormal fun _ _ => 0xFF)).bind fun s =>
        (call boardNormal s (writeUserdata 1)).map Prod.snd) = some .bufferFull := by
    decide +kernel
  obtain ⟨s, hs, hcall⟩ := Option.bind_eq_some_iff.1 hrun
  obtain ⟨⟨t, r⟩, ht, rfl⟩ := Option.map_eq_some_iff.1 hcall
  exact ⟨s, t, hs, ht, unchanged_of_bufferFull _ _ _ _ hs ht⟩

/-- Along every run, the free count is right exactly for the requests that have room. -/
theorem promises_run_iff (pf : Platform) (flash : FlashId → Content) (es : List Event) :
    Along (step pf) (Promises pf) (init pf flash) es ↔
      Along (step pf) (HasRoom pf) (init pf flash) es :=
  along_iff_of_invariant (fun _ e h => h.promises_iff e) (fun _ _ _ h _ ht => h.step ht)
    (counted_init pf flash) es

/-- With one buffer, the free count for erases fails its assertion once two erases are queued. -/
theorem not_promises_second_erase :
    ¬ Along (step boardNormal) (Promises boardNormal) (init boardNormal fun _ _ => 0xFF)
      [registerUserdata, eraseUserdata 0, eraseUserdata 1, eraseUserdata 2] := by
  have hrun : ([registerUserdata, eraseUserdata 0, eraseUserdata 1].foldlM (step boardNormal)
      (init boardNormal fun _ _ => 0xFF)).map (fun s => s.norflashApiGetFreeBufferCount
        (s.modInfo .userdata).devId norflashApiErasing) = some none := by
    decide +kernel
  obtain ⟨s, hs, hcount⟩ := Option.map_eq_some_iff.1 hrun
  intro h
  have hlast : Promises boardNormal s (eraseUserdata 2) := h.last hs
  obtain ⟨n, hn, -⟩ := hlast
  rw [hcount] at hn
  cases hn

end EarbudFirmware.Norflash
