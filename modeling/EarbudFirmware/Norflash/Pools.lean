import EarbudFirmware.Norflash.Sync

/-!
# Flash service: the pools and the queues

Nodes and buffers are given back in three places, and `_opera_del` cuts a list off at the node that
it deletes. Nothing is lost because every used entry is in a queue, and because the node that
`_opera_flush` deletes is the last one of its list.

## Main definitions

* `PoolInvariant` — who owns the used entries, and which node of a queue can be the current one
* `FlushStep` — what the flush loops do between two states in which `_opera_flush` is called
* `FreesUsed` — nodes are given back, and each of them is in use at that time

## Main results

* `norflashApiFlush_flushSteps`, `syncDrain_flushSteps` — the flush loops are made of these steps
* `poolInvariant_run` — the invariant holds at all times, and nodes are given back once
-/

namespace EarbudFirmware.Norflash

open NorMemory (Content Op)
open Ownership (Accounted Settled)
open Relation (ReflTransGen)

variable {pf : Platform} {s s' : FlashApi} {m : ModuleId}

/-! ### Every used entry is in a queue -/

/-- The used nodes and the used buffers of a device are those of the queues. -/
structure NoLeak (s : FlashApi) : Prop where
  nodes : Accounted (fun m => (s.modInfo m).devId) (fun d => (s.pools d).nodes)
    fun m => (s.modInfo m).operaInfo.filterMap (·.nodeSlot)
  buffers : Accounted (fun m => (s.modInfo m).devId) (fun d => (s.pools d).buffers)
    fun m => (s.modInfo m).operaInfo.filterMap (·.buffSlot)

/-- What has to be checked when one module changes. -/
theorem NoLeak.of_module (h : NoLeak s) (m : ModuleId)
    (hmod : ∀ m', m' ≠ m → s'.modInfo m' = s.modInfo m')
    (hpools : ∀ d, d ≠ (s.modInfo m).devId → s'.pools d = s.pools d)
    (hdev : (s'.modInfo m).devId = (s.modInfo m).devId)
    (hnodes : Settled (s.pools (s.modInfo m).devId).nodes (s'.pools (s.modInfo m).devId).nodes
      ((s.modInfo m).operaInfo.filterMap (·.nodeSlot))
      ((s'.modInfo m).operaInfo.filterMap (·.nodeSlot)))
    (hbuffers : Settled (s.pools (s.modInfo m).devId).buffers
      (s'.pools (s.modInfo m).devId).buffers
      ((s.modInfo m).operaInfo.filterMap (·.buffSlot))
      ((s'.modInfo m).operaInfo.filterMap (·.buffSlot))) : NoLeak s' := by
  have hdev' : ∀ m', (s'.modInfo m').devId = (s.modInfo m').devId := by
    intro m'
    by_cases hm : m' = m
    · rw [hm, hdev]
    · rw [hmod m' hm]
  constructor
  · simpa only [hdev'] using h.nodes.settled (fun d => (s'.pools d).nodes)
      (fun m' => (s'.modInfo m').operaInfo.filterMap (·.nodeSlot)) m hnodes
      (fun m' hm => by rw [hmod m' hm]) fun d hd => by rw [hpools d hd]
  · simpa only [hdev'] using h.buffers.settled (fun d => (s'.pools d).buffers)
      (fun m' => (s'.modInfo m').operaInfo.filterMap (·.buffSlot)) m hbuffers
      (fun m' hm => by rw [hmod m' hm]) fun d hd => by rw [hpools d hd]

/-- The oldest node is given back with its buffer. -/
theorem NoLeak.completeTail (h : NoLeak s) {q : List OperaInfo} {t : OperaInfo}
    (hq : (s.modInfo m).operaInfo = q ++ [t]) (k : Nat) : NoLeak (s.completeTail m q t k) := by
  refine h.of_module m (fun m' hm => Function.update_of_ne hm _ _)
    (fun d hd => Function.update_of_ne hd _ _) (by simp [FlashApi.completeTail]) ?_ ?_
  · simp only [FlashApi.completeTail, Function.update_self, hq]
    refine Settled.append fun i => ?_
    simp [mem_nodes_freeNode, OperaInfo.nodeSlot, ne_comm]
  · simp only [FlashApi.completeTail, Function.update_self, hq]
    refine Settled.append fun i => ?_
    simp [mem_buffers_freeNode]

/-- A suspended operation stays in its queue. -/
theorem NoLeak.suspendTail (h : NoLeak s) {q : List OperaInfo} {t : OperaInfo}
    (hq : (s.modInfo m).operaInfo = q ++ [t]) (cells : Content) (k : Nat) :
    NoLeak (s.suspendTail m q t cells k) := by
  have hnodes := @Settled.refl _ (s.pools (s.modInfo m).devId).nodes
    ((s.modInfo m).operaInfo.filterMap (·.nodeSlot))
  have hbuffers := @Settled.refl _ (s.pools (s.modInfo m).devId).buffers
    ((s.modInfo m).operaInfo.filterMap (·.buffSlot))
  simp only [hq, List.filterMap_append] at hnodes hbuffers
  refine h.of_module m (fun m' hm => Function.update_of_ne hm _ _) (fun d _ => rfl)
    (by simp [FlashApi.suspendTail]) ?_ ?_
  · simp only [FlashApi.suspendTail, Function.update_self, hq, List.filterMap_append]
    exact hnodes
  · simp only [FlashApi.suspendTail, Function.update_self, hq, List.filterMap_append]
    exact hbuffers

/-- A module gets a new queue, and its pool the entries that go with it. -/
theorem NoLeak.setQueue (h : NoLeak s) {q : List OperaInfo} {p : Pools}
    (hnodes : Settled (s.pools (s.modInfo m).devId).nodes p.nodes
      ((s.modInfo m).operaInfo.filterMap (·.nodeSlot)) (q.filterMap (·.nodeSlot)))
    (hbuffers : Settled (s.pools (s.modInfo m).devId).buffers p.buffers
      ((s.modInfo m).operaInfo.filterMap (·.buffSlot)) (q.filterMap (·.buffSlot))) :
    NoLeak ((s.setPools (s.modInfo m).devId p).setModule m { s.modInfo m with operaInfo := q }) :=
  h.of_module m (fun m' hm => Function.update_of_ne hm _ _)
    (fun d hd => Function.update_of_ne hd _ _) (by simp [FlashApi.setModule])
    (by simpa [FlashApi.setModule, FlashApi.setPools] using hnodes)
    (by simpa [FlashApi.setModule, FlashApi.setPools] using hbuffers)

/-- The nodes of the queues are in use. -/
theorem Wf.mem_nodes (hs : Wf s) {n : OperaInfo} (hn : n ∈ (s.modInfo m).operaInfo) :
    n.slot ∈ (s.pools (s.modInfo m).devId).nodes :=
  hs.nodes.used m n.slot (List.mem_filterMap.2 ⟨n, hn, rfl⟩)

theorem NoLeak.eOperaAdd (h : NoLeak s) (hs : Wf s) {addr len : Nat} {p : Pools}
    {q : List OperaInfo} {ok : Bool}
    (hadd : eOperaAdd (s.pools (s.modInfo m).devId) (s.modInfo m).operaInfo addr len =
      (p, q, ok)) :
    NoLeak ((s.setPools (s.modInfo m).devId p).setModule m
      { s.modInfo m with operaInfo := q }) := by
  have hnodes : Settled (s.pools (s.modInfo m).devId).nodes
      (((s.modInfo m).operaInfo.filter fun n => !n.survives addr len).foldl Pools.freeNode
        (s.pools (s.modInfo m).devId)).nodes
      ((s.modInfo m).operaInfo.filterMap (·.nodeSlot))
      (((s.modInfo m).operaInfo.filter (·.survives addr len)).filterMap (·.nodeSlot)) := by
    refine Settled.filter fun i => ?_
    simp [mem_nodes_foldl_freeNode, OperaInfo.nodeSlot]
  have hbuffers : Settled (s.pools (s.modInfo m).devId).buffers
      (((s.modInfo m).operaInfo.filter fun n => !n.survives addr len).foldl Pools.freeNode
        (s.pools (s.modInfo m).devId)).buffers
      ((s.modInfo m).operaInfo.filterMap (·.buffSlot))
      (((s.modInfo m).operaInfo.filter (·.survives addr len)).filterMap (·.buffSlot)) := by
    refine Settled.filter fun i => ?_
    simp [mem_buffers_foldl_freeNode]
  rcases eOperaAdd_cases (hs.unlockedInit m) (fun _ => hs.mem_nodes) hadd with
    ⟨-, -, rfl, rfl⟩ | ⟨-, -, slot, operaList, halloc, rfl, rfl⟩ | ⟨-, -, rfl, rfl⟩
  · exact h.setQueue hnodes hbuffers
  · exact h.setQueue (hnodes.cons (allocSlot_spec halloc).2) hbuffers
  · exact h.setQueue Settled.refl Settled.refl

theorem NoLeak.wOperaAdd (h : NoLeak s) {sectorSize secLen addr len : Nat} {flash : Content}
    {buffer : Nat → UInt8} {p : Pools} {q : List OperaInfo} {ok : Bool}
    (hadd : wOperaAdd sectorSize flash (s.pools (s.modInfo m).devId) (s.modInfo m).operaInfo secLen
      addr len buffer = some (p, q, ok)) :
    NoLeak ((s.setPools (s.modInfo m).devId p).setModule m
      { s.modInfo m with operaInfo := q }) := by
  rcases wOperaAdd_cases hadd with ⟨-, rfl, l, n, r, hq, -, -, -, -, rfl⟩ |
    ⟨-, old, slot, operaList, b, bufferList, -, hslot, hb, rfl, rfl⟩ | ⟨-, rfl, rfl⟩
  · -- the merged node keeps its entries
    have hheld : ∀ f : OperaInfo → Option Nat,
        f (n.widen (addr - secStart secLen addr) len buffer) = f n →
        (l ++ n.widen (addr - secStart secLen addr) len buffer :: r).filterMap f =
          (s.modInfo m).operaInfo.filterMap f := by
      intro f hf
      simp only [hq, List.filterMap_append, List.filterMap_cons, hf]
    refine h.setQueue ?_ ?_
    · rw [hheld _ (by simp [OperaInfo.nodeSlot])]
      exact Settled.refl
    · rw [hheld _ (widen_buffSlot n _ _ _)]
      exact Settled.refl
  · exact h.setQueue (Settled.refl.cons (allocSlot_spec hslot).2)
      (Settled.refl.cons (allocSlot_spec hb).2)
  · exact h.setQueue Settled.refl Settled.refl

theorem NoLeak.register (h : NoLeak s) (hs : Wf s) (m : ModuleId) (d : FlashId)
    (base len block sector page bufferLen : Nat) (cb : Bool) :
    NoLeak (norflashApiRegister s m d base len block sector page bufferLen cb).1 := by
  unfold norflashApiRegister
  split_ifs with hi hb hr
  · exact h
  · exact h
  · exact h
  have hnil := hs.unregistered m (by simpa using hr)
  set mi : ModuleInfo :=
    { isRegistered := true, devId := d, modBaseAddr := base, modLen := len, modBlockLen := block,
      modSectorLen := sector, modPageLen := page, buffLen := bufferLen, cbFunc := cb,
      operaInfo := [], curOperaInfo := none, state := .idle } with hmi
  have hqueue : ∀ m', ((s.setModule m mi).modInfo m').operaInfo = (s.modInfo m').operaInfo := by
    intro m'
    by_cases hm : m' = m
    · subst hm
      simp [FlashApi.setModule, hmi, hnil]
    · simp [FlashApi.setModule, Function.update_of_ne hm]
  have hdev : ∀ m', (s.modInfo m').operaInfo ≠ [] →
      ((s.setModule m mi).modInfo m').devId = (s.modInfo m').devId := by
    intro m' hm'
    have hne : m' ≠ m := fun heq => hm' (heq ▸ hnil)
    simp [FlashApi.setModule, Function.update_of_ne hne]
  constructor
  · simp only [hqueue]
    exact h.nodes.of_pool_eq fun m' hm' => hdev m' fun hnil' => hm' (by simp [hnil'])
  · simp only [hqueue]
    exact h.buffers.of_pool_eq fun m' hm' => hdev m' fun hnil' => hm' (by simp [hnil'])

theorem Internal.noLeak {P : Op → Content → Content → Prop} (hstep : Internal P s s')
    (h : NoLeak s) : NoLeak s' := by
  cases hstep with
  | control => exact ⟨h.nodes, h.buffers⟩
  | complete hq _ k => exact h.completeTail hq k
  | suspend hq _ cells _ k => exact h.suspendTail hq cells k

theorem NoLeak.internals {P : Op → Content → Content → Prop} (h : NoLeak s)
    (hsteps : ReflTransGen (Internal P) s s') : NoLeak s' := by
  induction hsteps with
  | refl => exact h
  | tail _ hstep ih => exact hstep.noLeak ih

theorem NoLeak.halIssue_sync (h : NoLeak s) {d : FlashId} {op : Op} {addr len : Nat} {r : HalRet}
    (hhal : halIssue pf s d op addr len false .ok = some (s', r)) : NoLeak s' := by
  rcases Norflash.halIssue_sync hhal with ⟨rfl, -⟩ | ⟨-, -, rfl⟩
  · exact h
  · exact ⟨h.nodes, h.buffers⟩

/-- No call loses an entry. -/
theorem NoLeak.step (h : NoLeak s) (hs : Wf s) {e : Event} (hstep : step pf s e = some s') :
    NoLeak s' := by
  obtain ⟨⟨_, r⟩, hcall, rfl⟩ := Option.map_eq_some_iff.1 hstep
  cases e with
  | register m d base len block sector page bufferLen cb =>
    obtain ⟨rfl, -⟩ := Prod.mk.inj (Option.some.inj hcall)
    exact h.register hs m d base len block sector page bufferLen cb
  | erase m addr len async polls =>
    rcases norflashApiErase_cases hcall with ⟨-, rfl⟩ | ⟨-, ⟨-, p, q, ok, hadd, rfl, -⟩ |
      ⟨-, s₁, hr, hdrain, hhal, -⟩⟩
    · exact h
    · exact h.eOperaAdd hs hadd
    · exact (h.internals (syncDrain_internal (P := fun _ _ _ => True) hs hdrain)).halIssue_sync hhal
  | write m addr buffer len async polls =>
    rcases norflashApiWrite_cases hcall with ⟨-, rfl⟩ | ⟨-, ⟨-, p, q, ok, hadd, rfl, -⟩ |
      ⟨-, s₁, hr, hdrain, hhal, -⟩⟩
    · exact h
    · exact h.wOperaAdd hadd
    · exact (h.internals (syncDrain_internal (P := fun _ _ _ => True) hs hdrain)).halIssue_sync hhal
  | flush polls ans =>
    obtain ⟨⟨s₁, b⟩, hflush, heq⟩ := Option.map_eq_some_iff.1 hcall
    obtain ⟨rfl, -⟩ := Prod.mk.inj heq
    exact h.internals (norflashApiFlush_internal hs (halAllows_true s ans) hflush)
  | flushDisable cb =>
    obtain ⟨rfl, -⟩ := Prod.mk.inj (Option.some.inj hcall)
    simp only [norflashApiFlushDisable, hs.inited]
    exact ⟨h.nodes, h.buffers⟩
  | flushEnable =>
    obtain ⟨rfl, -⟩ := Prod.mk.inj (Option.some.inj hcall)
    simp only [norflashApiFlushEnable, hs.inited]
    exact ⟨h.nodes, h.buffers⟩

theorem noLeak_init (pf : Platform) (flash : FlashId → Content) : NoLeak (init pf flash) := by
  refine ⟨fun d i hi => ?_, fun d i hi => ?_⟩
  · simp [init, Pools.nodes, List.getElem?_replicate] at hi
  · simp [init, Pools.buffers, List.getElem?_replicate] at hi

/-! ### The invariant -/

/-- Who owns the used entries of the pools, and which node of a queue can be the current one. -/
structure PoolInvariant (s : FlashApi) : Prop where
  /-- A used node is in the list of exactly one module of the device. -/
  node : ∀ d, ∀ i ∈ (s.pools d).nodes,
    ∃! m, (s.modInfo m).devId = d ∧ i ∈ (s.modInfo m).operaInfo.map (·.slot)
  /-- No list runs into a node twice, and its nodes are in use. -/
  acyclic : ∀ m, ((s.modInfo m).operaInfo.map (·.slot)).Nodup
  node_used : ∀ m, ∀ n ∈ (s.modInfo m).operaInfo, n.slot ∈ (s.pools (s.modInfo m).devId).nodes
  /-- A write node has a buffer, and it is in use. -/
  write_buffer : ∀ m, ∀ n ∈ (s.modInfo m).operaInfo, n.isErasing = false →
    ∃ b ∈ (s.pools (s.modInfo m).devId).buffers, n.buffSlot = some b
  /-- A used buffer is that of exactly one node. -/
  buffer : ∀ d, ∀ b ∈ (s.pools d).buffers,
    ∃! mn : ModuleId × OperaInfo, (s.modInfo mn.1).devId = d ∧
      mn.2 ∈ (s.modInfo mn.1).operaInfo ∧ mn.2.buffSlot = some b
  /-- Only the oldest node of a list can be locked. -/
  lock : ∀ m, ∀ n ∈ (s.modInfo m).operaInfo.dropLast, n.lock = false
  /-- The current node is the oldest one. -/
  cur : ∀ m i, (s.modInfo m).curOperaInfo = some i →
    ∃ t, (s.modInfo m).operaInfo.getLast? = some t ∧ t.slot = i
  /-- A suspended module has a current node of the type that the state tells. -/
  suspended : ∀ m, (s.modInfo m).state = .writtingSuspend ∨ (s.modInfo m).state = .eraseSuspend →
    ∃ t, (s.modInfo m).operaInfo.getLast? = some t ∧ (s.modInfo m).curOperaInfo = some t.slot ∧
      t.suspendedState = (s.modInfo m).state

theorem exists_buffSlot {n : OperaInfo} (h : n.isErasing = false) : ∃ b, n.buffSlot = some b := by
  unfold OperaInfo.isErasing at h
  unfold OperaInfo.buffSlot
  split at h
  · exact ⟨_, rfl⟩
  · cases h

theorem filterMap_nodeSlot (q : List OperaInfo) :
    q.filterMap (·.nodeSlot) = q.map (·.slot) := by
  simp [OperaInfo.nodeSlot, List.filterMap_eq_map']

theorem PoolInvariant.of_wf (hs : Wf s) (h : NoLeak s) : PoolInvariant s where
  node := by
    intro d i hi
    obtain ⟨m, hm, himem⟩ := h.nodes d i hi
    refine ⟨m, ⟨hm, by rwa [← filterMap_nodeSlot]⟩, fun m' ⟨hm', hi'⟩ => ?_⟩
    by_contra hne
    rw [← filterMap_nodeSlot] at hi'
    exact hs.nodes.disjoint m' m (hm'.trans hm.symm) hne hi' himem
  acyclic := hs.slots_nodup
  node_used := fun m n hn => hs.mem_nodes hn
  write_buffer := by
    intro m n hn he
    obtain ⟨b, hb⟩ := exists_buffSlot he
    exact ⟨b, hs.buffers.used m b (List.mem_filterMap.2 ⟨n, hn, hb⟩), hb⟩
  buffer := by
    intro d b hb
    obtain ⟨m, hm, hmem⟩ := h.buffers d b hb
    obtain ⟨n, hn, hnb⟩ := List.mem_filterMap.1 hmem
    refine ⟨(m, n), ⟨hm, hn, hnb⟩, ?_⟩
    rintro ⟨m', n'⟩ ⟨hm', hn', hnb'⟩
    obtain rfl : m' = m := by
      by_contra hne
      exact hs.buffers.disjoint m' m (hm'.trans hm.symm) hne
        (List.mem_filterMap.2 ⟨n', hn', hnb'⟩) hmem
    exact Prod.ext rfl (Ownership.eq_of_nodup_filterMap (hs.buffers.nodup m') hn' hn hnb' hnb)
  lock := hs.unlockedInit
  cur := by
    intro m i hi
    rcases hs.lock m with hidle | ⟨q, t, hbusy⟩
    · simp [hidle.cur] at hi
    · exact ⟨t, by simp [hbusy.queue], by simpa [hbusy.cur] using hi⟩
  suspended := by
    intro m hst
    rcases hs.lock m with hidle | ⟨q, t, hbusy⟩
    · rw [hidle.state] at hst
      split_ifs at hst <;> simp at hst
    · exact ⟨t, by simp [hbusy.queue], hbusy.cur, hbusy.state.symm⟩

/-! ### Inside a call -/

/-- What the flush loops do: they ask the callback, they choose a module, they call `_opera_flush`
for the current module or without suspension, and they give the current module up when it has
nothing to flush. -/
inductive FlushStep (pf : Platform) (s : FlashApi) : FlashApi → Prop where
  | poll {s' : FlashApi} {polls polls' : List Bool} {b : Bool}
      (h : flushIsAllowed s polls = some (b, s', polls')) : FlushStep pf s s'
  | choose {m : ModuleId} (h : getCurMod s = some m) :
      FlushStep pf s { s with curModId := m.toNat, curMod := some m }
  | flush {s' : FlashApi} {m : ModuleId} {nosuspend b : Bool} {ans : HalAnswer}
      {r : Option OperaResult} (hm : s.curMod = some m ∨ nosuspend = true)
      (h : operaFlush pf s m nosuspend ans = some (s', b, r)) : FlushStep pf s s'
  | giveUp {s' : FlashApi} {m : ModuleId} {nosuspend : Bool} {ans : HalAnswer}
      {r : Option OperaResult} (hm : s.curMod = some m)
      (h : operaFlush pf s m nosuspend ans = some (s', false, r)) :
      FlushStep pf s { s' with curMod := none }

/-- The steps of the flush loops are internal steps of the service. -/
theorem FlushStep.internal (h : FlushStep pf s s') (hs : Wf s) :
    ReflTransGen (Internal fun _ _ _ => True) s s' := by
  cases h with
  | poll h => exact flushIsAllowed_internal hs h
  | choose h => exact .single (hs.getCurMod_control h)
  | flush hm h =>
    rcases operaFlush_cases hs h with ⟨-, rfl, -, -⟩ |
      ⟨-, hfree, q, t, k, hq, ⟨-, rfl⟩ | ⟨cells, -, hno, -, rfl⟩⟩
    · exact .refl
    · exact .single (.complete hq hfree k)
    · exact .single (.suspend hq (hm.resolve_right (by simp [hno])) cells trivial k)
  | @giveUp _ m _ _ _ hm h =>
    rcases operaFlush_cases hs h with ⟨-, rfl, -, hcur⟩ | ⟨hb, -⟩
    · refine .single (.control _ none _ (fun m' hm' => ?_) fun _ h => by cases h)
      obtain rfl := Option.some.inj (hm.symm.trans (hs.busy_curMod m' hm'))
      exact absurd hcur hm'
    · cases hb

theorem FlushStep.wf_noLeak (h : ReflTransGen (FlushStep pf) s s') (hs : Wf s) (hn : NoLeak s) :
    Wf s' ∧ NoLeak s' := by
  induction h with
  | refl => exact ⟨hs, hn⟩
  | tail _ hstep ih =>
    have hint := hstep.internal ih.1
    exact ⟨ih.1.internals hint, ih.2.internals hint⟩

/-- A flush step of the service is made of steps of the flush loops. -/
theorem norflashApiFlush_flushSteps (hs : Wf s) {polls : List Bool} {ans : HalAnswer} {b : Bool}
    (h : norflashApiFlush pf s polls ans = some (s', b)) : ReflTransGen (FlushStep pf) s s' := by
  unfold norflashApiFlush at h
  rw [if_neg (by simp [hs.inited])] at h
  split at h
  · cases h
  case h_2 s₁ _ hpoll =>
    obtain ⟨rfl, -⟩ := Prod.mk.inj (Option.some.inj h)
    exact .single (.poll hpoll)
  case h_3 s₁ _ hpoll =>
    refine .head (.poll hpoll) ?_
    split at h
    · obtain ⟨rfl, -⟩ := Prod.mk.inj (Option.some.inj h)
      exact .refl
    case h_2 m hm =>
      refine .head (.choose hm) ?_
      split at h
      · cases h
      case h_2 s₃ more _ hflush =>
        obtain ⟨rfl, -⟩ := Prod.mk.inj (Option.some.inj h)
        cases more with
        | true => exact .single (.flush (.inl rfl) hflush)
        | false => exact .single (.giveUp rfl hflush)

theorem drainModule_flushSteps {fuel : Nat} {polls : List Bool} {b : Bool}
    (h : drainModule pf m fuel s polls b = some s') : ReflTransGen (FlushStep pf) s s' := by
  induction fuel generalizing s polls b with
  | zero => cases h
  | succ fuel ih =>
    unfold drainModule at h
    split at h
    · cases h
    case h_2 s₁ _ hpoll =>
      refine .head (.poll hpoll) ?_
      split_ifs at h
      · exact ih h
      · exact Option.some.inj h ▸ .refl
    case h_3 s₁ _ hpoll =>
      refine .head (.poll hpoll) ?_
      split at h
      · cases h
      case h_2 s₂ b' _ hflush =>
        refine .head (.flush (.inr rfl) hflush) ?_
        split_ifs at h
        · exact ih h
        · exact Option.some.inj h ▸ .refl

theorem drainCurMod_flushSteps {c : ModuleId} (hs : Wf s) (hc : s.curMod = some c) {fuel : Nat}
    {polls polls' : List Bool} {b b' : Bool}
    (h : drainCurMod pf c fuel s polls b = some (s', polls', b')) :
    ReflTransGen (FlushStep pf) s s' := by
  induction fuel generalizing s polls b with
  | zero => cases h
  | succ fuel ih =>
    unfold drainCurMod at h
    split_ifs at h with hst
    · obtain ⟨rfl, -⟩ := Prod.mk.inj (Option.some.inj h)
      exact .refl
    · split at h
      · cases h
      case h_2 s₁ _ hpoll =>
        obtain ⟨hb, -⟩ | ⟨-, rfl, -⟩ := flushIsAllowed_cases hpoll
        · cases hb
        · exact ih hs hc h
      case h_3 s₁ _ hpoll =>
        have hs₁ := hs.internals (flushIsAllowed_internal (P := fun _ _ _ => True) hs hpoll)
        refine .head (.poll hpoll) ?_
        obtain ⟨-, rfl, -⟩ | ⟨hb, -⟩ := flushIsAllowed_cases hpoll
        · split at h
          · cases h
          case h_2 s₂ b₂ _ hflush =>
            rcases operaFlush_cases hs₁ hflush with ⟨rfl, rfl, -, hcur⟩ |
              ⟨rfl, hfree, q, t, k, hq, ⟨-, rfl⟩ | ⟨_, hans, -⟩⟩
            · -- a registered module without a current operation is idle
              exact absurd ((hs₁.state_eq_idle_iff (hs₁.curMod_registered c hc)).2 hcur) hst
            · exact .head (.flush (.inl hc) hflush) (ih (hs₁.completeTail hq hfree k) hc h)
            · cases hans
        · cases hb

/-- What a synchronous call does before its HAL call is made of steps of the flush loops. -/
theorem syncDrain_flushSteps (hs : Wf s) {polls : List Bool}
    (h : syncDrain pf s m polls = some s') : ReflTransGen (FlushStep pf) s s' := by
  unfold syncDrain at h
  simp only at h
  split at h
  case h_1 c hc =>
    split_ifs at h
    · exact drainModule_flushSteps h
    · split at h
      · cases h
      case h_2 s₁ _ _ hcur =>
        exact (drainCurMod_flushSteps hs hc hcur).trans (drainModule_flushSteps h)
  case h_2 => exact drainModule_flushSteps h

/-! ### Giving nodes back -/

/-- The nodes of `l` are given back one after the other, and each of them is in use when its turn
comes, with its buffer. -/
def FreesUsed (p : Pools) (l : List OperaInfo) : Prop :=
  ∀ l₁ n l₂, l = l₁ ++ n :: l₂ → n.slot ∈ (l₁.foldl Pools.freeNode p).nodes ∧
    ∀ b, n.buffSlot = some b → b ∈ (l₁.foldl Pools.freeNode p).buffers

/-- Different nodes of one queue can be given back. -/
theorem Wf.freesUsed (hs : Wf s) {l : List OperaInfo}
    (hl : l.Sublist (s.modInfo m).operaInfo) : FreesUsed (s.pools (s.modInfo m).devId) l := by
  rintro l₁ n l₂ rfl
  have hn : n ∈ (s.modInfo m).operaInfo := hl.subset (by simp)
  have hslots := (hs.nodes.nodup m).sublist (hl.filterMap (·.nodeSlot))
  have hbuffs := (hs.buffers.nodup m).sublist (hl.filterMap (·.buffSlot))
  rw [List.filterMap_append] at hslots hbuffs
  refine ⟨mem_nodes_foldl_freeNode.2 ⟨hs.mem_nodes hn, fun n' hn' heq => ?_⟩, fun b hb =>
    mem_buffers_foldl_freeNode.2 ⟨?_, fun n' hn' hb' => ?_⟩⟩
  · exact List.disjoint_of_nodup_append hslots
      (List.mem_filterMap.2 ⟨n', hn', congrArg some heq⟩)
      (List.mem_filterMap.2 ⟨n, List.mem_cons_self, rfl⟩)
  · exact hs.buffers.used m b (List.mem_filterMap.2 ⟨n, hn, hb⟩)
  · exact List.disjoint_of_nodup_append hbuffs (List.mem_filterMap.2 ⟨n', hn', hb'⟩)
      (List.mem_filterMap.2 ⟨n, List.mem_cons_self, hb⟩)

/-- `_opera_flush` for the module `m`: the lists keep their nodes, or the oldest node of `m`, which
is in use, is taken off its list and given back. -/
def TakesOldest (s s' : FlashApi) (m : ModuleId) : Prop :=
  (∀ m', m' ≠ m → (s'.modInfo m').operaInfo = (s.modInfo m').operaInfo) ∧
    ((s'.modInfo m).operaInfo.map (·.slot) = (s.modInfo m).operaInfo.map (·.slot) ∧
        s'.pools = s.pools ∨
      ∃ t, (s.modInfo m).operaInfo = (s'.modInfo m).operaInfo ++ [t] ∧
        FreesUsed (s.pools (s.modInfo m).devId) [t] ∧
        s'.pools = Function.update s.pools (s.modInfo m).devId
          ((s.pools (s.modInfo m).devId).freeNode t))

theorem Wf.takesOldest (hs : Wf s) {nosuspend b : Bool} {ans : HalAnswer}
    {r : Option OperaResult} (h : operaFlush pf s m nosuspend ans = some (s', b, r)) :
    TakesOldest s s' m := by
  rcases operaFlush_cases hs h with ⟨-, rfl, -, -⟩ |
    ⟨-, -, q, t, k, hq, ⟨-, rfl⟩ | ⟨cells, -, -, -, rfl⟩⟩
  · exact ⟨fun _ _ => rfl, .inl ⟨rfl, rfl⟩⟩
  · refine ⟨fun m' hm => ?_, .inr ⟨t, ?_, hs.freesUsed ?_, rfl⟩⟩
    · simp [FlashApi.completeTail, Function.update_of_ne hm]
    · simp [FlashApi.completeTail, hq]
    · rw [hq]
      exact List.sublist_append_right q [t]
  · refine ⟨fun m' hm => ?_, .inl ⟨?_, rfl⟩⟩
    · simp [FlashApi.suspendTail, Function.update_of_ne hm]
    · simp [FlashApi.suspendTail, hq]

/-- The loop of `_e_opera_add` gives the nodes back that it takes off the list, and each of them is
in use. -/
def MergesUsed (s : FlashApi) (m : ModuleId) (addr len : Nat) : Prop :=
  let p := s.pools (s.modInfo m).devId
  let q := (s.modInfo m).operaInfo
  ∃ l, FreesUsed p l ∧ (eOperaMerge addr len p q).1 = l.foldl Pools.freeNode p ∧
    ((eOperaMerge addr len p q).2.1 ++ l).Perm q

theorem Wf.mergesUsed (hs : Wf s) (m : ModuleId) (addr len : Nat) : MergesUsed s m addr len := by
  refine ⟨_, hs.freesUsed List.filter_sublist, by rw [eOperaMerge_eq (hs.unlockedInit m)], ?_⟩
  rw [eOperaMerge_eq (hs.unlockedInit m)]
  exact List.filter_append_perm _ _

/-! ### Runs -/

/-- In every state of a run, inside the calls too, the used entries belong to one queue each, and
only used entries are given back. -/
theorem poolInvariant_run {flash : FlashId → Content} {es : List Event} {s s' : FlashApi}
    (hrun : es.foldlM (step pf) (init pf flash) = some s)
    (hinside : ReflTransGen (FlushStep pf) s s') :
    PoolInvariant s' ∧
      (∀ m nosuspend ans s₁ b r, operaFlush pf s' m nosuspend ans = some (s₁, b, r) →
        TakesOldest s' s₁ m) ∧
      ∀ m addr len, MergesUsed s' m addr len := by
  have hinv : Wf s ∧ NoLeak s :=
    Transition.Along.preserves (I := fun s => Wf s ∧ NoLeak s)
      (fun _ _ _ hs _ h => ⟨hs.1.step h, hs.2.step hs.1 h⟩)
      (Transition.along_of_forall (fun _ _ => trivial : ∀ _ _, True) _ es) hrun
      ⟨wf_init pf flash, noLeak_init pf flash⟩
  obtain ⟨hs, hn⟩ := FlushStep.wf_noLeak hinside hinv.1 hinv.2
  exact ⟨.of_wf hs hn, fun m nosuspend ans s₁ b r h => hs.takesOldest h, hs.mergesUsed⟩

/-- A write is suspended, and an erase and a write are queued behind it. -/
def queuedBehind : List Event :=
  [registerUserdata, .write .userdata 0x3C700010 (fun _ => 0) 4 true [],
    .flush [] (.suspended fun _ => 0), .erase .userdata 0x3C701000 0x1000 true [],
    .write .userdata 0x3C701000 (fun _ => 1) 1 true []]

theorem poolInvariant_queuedBehind :
    ∃ s, queuedBehind.foldlM (step board) (init board fun _ _ => 0) = some s ∧
      (s.modInfo .userdata).operaInfo.map (·.slot) = [2, 1, 0] ∧
      (s.modInfo .userdata).state = .writtingSuspend ∧ PoolInvariant s := by
  have hend : ((queuedBehind.foldlM (step board) (init board fun _ _ => 0)).map fun s =>
      decide ((s.modInfo .userdata).operaInfo.map (·.slot) = [2, 1, 0] ∧
        (s.modInfo .userdata).state = .writtingSuspend)) = some true := by decide +kernel
  obtain ⟨s, hrun, hs⟩ := Option.map_eq_some_iff.1 hend
  obtain ⟨hslots, hstate⟩ := of_decide_eq_true hs
  exact ⟨s, hrun, hslots, hstate, (poolInvariant_run hrun .refl).1⟩

end EarbudFirmware.Norflash
