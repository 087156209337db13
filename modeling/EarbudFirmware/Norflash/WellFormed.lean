import EarbudFirmware.Norflash.Invariant

/-!
# Flash service: the structural invariant is kept

## Main results

* `Wf.of_module` — what has to be checked when one module changes
* `wf_init`, `Wf.call` — the invariant holds initially and is kept by every call
-/

namespace EarbudFirmware.Norflash

open NorMemory (Content Op)
open Ownership (Exclusive Exchange)

variable {pf : Platform} {s s' : FlashApi} {m : ModuleId}

/-- A change of one registered module keeps the invariant. -/
theorem Wf.of_module (hs : Wf s) (m : ModuleId)
    (hmod : ∀ m', m' ≠ m → s'.modInfo m' = s.modInfo m')
    (hpools : ∀ d, d ≠ (s.modInfo m).devId → s'.pools d = s.pools d)
    (hinit : s'.isInited = s.isInited) (hcurMod : s'.curMod = s.curMod)
    (hdev : (s'.modInfo m).devId = (s.modInfo m).devId)
    (hreg : (s'.modInfo m).isRegistered = true)
    (hlock : (s'.modInfo m).Idle ∨ ∃ q t, (s'.modInfo m).Busy q t)
    (hbusy : (s'.modInfo m).curOperaInfo ≠ none → s.curMod = some m)
    (hsusp : ∀ d, s'.suspendState d = true ↔
      ∃ m', (s.modInfo m').devId = d ∧ (s'.modInfo m').curOperaInfo ≠ none)
    (hne : ∀ n ∈ (s'.modInfo m).operaInfo, n.Nonempty)
    (hnodes : Exchange (s.pools (s.modInfo m).devId).nodes (s'.pools (s.modInfo m).devId).nodes
      ((s.modInfo m).operaInfo.filterMap (·.nodeSlot))
      ((s'.modInfo m).operaInfo.filterMap (·.nodeSlot)))
    (hbuffers : Exchange (s.pools (s.modInfo m).devId).buffers
      (s'.pools (s.modInfo m).devId).buffers
      ((s.modInfo m).operaInfo.filterMap (·.buffSlot))
      ((s'.modInfo m).operaInfo.filterMap (·.buffSlot))) : Wf s' := by
  have hdev' : ∀ m', (s'.modInfo m').devId = (s.modInfo m').devId := by
    intro m'
    by_cases hm : m' = m
    · rw [hm, hdev]
    · rw [hmod m' hm]
  refine ⟨hinit ▸ hs.inited, fun m' => ?_, fun m' => ?_, fun m' => ?_, fun m' => ?_, fun d => ?_,
    fun m' => ?_, ?_, ?_⟩
  · by_cases hm : m' = m
    · simp [hm, hreg]
    · rw [hmod m' hm]
      exact hs.unregistered m'
  · by_cases hm : m' = m
    · exact hm ▸ hlock
    · rw [hmod m' hm]
      exact hs.lock m'
  · rw [hcurMod]
    by_cases hm : m' = m
    · exact hm ▸ hbusy
    · rw [hmod m' hm]
      exact hs.busy_curMod m'
  · rw [hcurMod]
    by_cases hm : m' = m
    · exact fun _ => hm ▸ hreg
    · rw [hmod m' hm]
      exact hs.curMod_registered m'
  · simpa only [hdev'] using hsusp d
  · by_cases hm : m' = m
    · exact hm ▸ hne
    · rw [hmod m' hm]
      exact hs.nonempty m'
  · simpa only [hdev'] using hs.nodes.exchange (fun d => (s'.pools d).nodes)
      (fun m' => (s'.modInfo m').operaInfo.filterMap (·.nodeSlot)) m hnodes
      (fun m' hm => by rw [hmod m' hm]) fun d hd => by rw [hpools d hd]
  · simpa only [hdev'] using hs.buffers.exchange (fun d => (s'.pools d).buffers)
      (fun m' => (s'.modInfo m').operaInfo.filterMap (·.buffSlot)) m hbuffers
      (fun m' hm => by rw [hmod m' hm]) fun d hd => by rw [hpools d hd]

/-- A module with a nonempty queue is registered. -/
theorem Wf.registered_of_ne_nil (hs : Wf s) (h : (s.modInfo m).operaInfo ≠ []) :
    (s.modInfo m).isRegistered = true := by
  by_contra hne
  exact h (hs.unregistered m (by simpa using hne))

/-- The nodes above the oldest one are not locked. -/
theorem Wf.unlocked_of_append (hs : Wf s) {q : List OperaInfo} {t : OperaInfo}
    (hq : (s.modInfo m).operaInfo = q ++ [t]) : ∀ n ∈ q, n.lock = false := by
  rcases hs.lock m with hidle | ⟨q', t', hbusy⟩
  · exact fun n hn => hidle.unlocked n (by simp [hq, hn])
  · obtain ⟨rfl, -⟩ := List.append_inj' (hq.symm.trans hbusy.queue) rfl
    exact hbusy.unlocked

theorem Wf.unlockedInit (hs : Wf s) (m : ModuleId) : UnlockedInit (s.modInfo m).operaInfo := by
  rcases List.eq_nil_or_concat' (s.modInfo m).operaInfo with hnil | ⟨q, t, hq⟩
  · simp [UnlockedInit, hnil]
  · simpa [UnlockedInit, hq] using hs.unlocked_of_append hq

/-- The devices of the other modules hold no suspended operation of them while `m` works. -/
theorem Wf.cur_eq_none (hs : Wf s)
    (hfree : (s.modInfo m).curOperaInfo = none → s.suspendState (s.modInfo m).devId = false)
    {m' : ModuleId} (hm : m' ≠ m) (hdev : (s.modInfo m').devId = (s.modInfo m).devId) :
    (s.modInfo m').curOperaInfo = none := by
  by_contra hne
  have hcur' := hs.busy_curMod m' hne
  by_cases hcur : (s.modInfo m).curOperaInfo = none
  · have := (hs.suspendState (s.modInfo m).devId).2 ⟨m', hdev, hne⟩
    simp [hfree hcur] at this
  · have := hs.busy_curMod m hcur
    rw [hcur', Option.some.injEq] at this
    exact hm this

/-- Completing the oldest operation keeps the invariant. -/
theorem Wf.completeTail (hs : Wf s) {q : List OperaInfo} {t : OperaInfo}
    (hq : (s.modInfo m).operaInfo = q ++ [t])
    (hfree : (s.modInfo m).curOperaInfo = none → s.suspendState (s.modInfo m).devId = false)
    (k : Nat) : Wf (s.completeTail m q t k) := by
  have hreg := hs.registered_of_ne_nil (m := m) (by simp [hq])
  have hnodes := hs.nodes.nodup m
  have hnodes' := hs.nodes.used m
  have hbuffers := hs.buffers.nodup m
  have hbuffers' := hs.buffers.used m
  simp only [hq] at hnodes hnodes' hbuffers hbuffers'
  refine hs.of_module m ?_ ?_ rfl rfl ?_ ?_ (.inl ?_) ?_ (fun d => ?_) ?_ ?_ ?_
  · exact fun m' hm => Function.update_of_ne hm _ _
  · exact fun d hd => Function.update_of_ne hd _ _
  · simp [FlashApi.completeTail]
  · simp [FlashApi.completeTail, hreg]
  · refine ⟨by simp [FlashApi.completeTail], by simp [FlashApi.completeTail, hreg], ?_⟩
    simpa [FlashApi.completeTail] using hs.unlocked_of_append hq
  · simp [FlashApi.completeTail]
  · by_cases hd : d = (s.modInfo m).devId
    · subst hd
      simp only [FlashApi.completeTail, Function.update_self, Bool.false_eq_true, false_iff,
        not_exists, not_and, not_not]
      intro m' hdev
      by_cases hm : m' = m
      · simp [hm]
      · rw [Function.update_of_ne hm]
        exact hs.cur_eq_none hfree hm hdev
    · have : ∀ m', (s.modInfo m').devId = d → m' ≠ m := by
        rintro m' rfl rfl
        exact hd rfl
      simp only [FlashApi.completeTail, Function.update_of_ne hd, hs.suspendState]
      refine exists_congr fun m' => and_congr_right fun hdev => ?_
      rw [Function.update_of_ne (this m' hdev)]
  · intro n hn
    refine hs.nonempty m n ?_
    simp only [FlashApi.completeTail, Function.update_self] at hn
    simp [hq, hn]
  · simp only [FlashApi.completeTail, Function.update_self, hq]
    refine Exchange.append hnodes hnodes' fun i => ?_
    simp [mem_nodes_freeNode, OperaInfo.nodeSlot, ne_comm]
  · simp only [FlashApi.completeTail, Function.update_self, hq]
    refine Exchange.append hbuffers hbuffers' fun i => ?_
    simp [mem_buffers_freeNode]

/-- Suspending the oldest operation of the current module keeps the invariant. -/
theorem Wf.suspendTail (hs : Wf s) {q : List OperaInfo} {t : OperaInfo}
    (hq : (s.modInfo m).operaInfo = q ++ [t]) (hcur : s.curMod = some m) (cells : Content)
    (k : Nat) : Wf (s.suspendTail m q t cells k) := by
  have hreg := hs.registered_of_ne_nil (m := m) (by simp [hq])
  have hnodes := Exchange.refl (hs.nodes.nodup m) (hs.nodes.used m)
  have hbuffers := Exchange.refl (hs.buffers.nodup m) (hs.buffers.used m)
  simp only [hq, List.filterMap_append] at hnodes hbuffers
  refine hs.of_module m ?_ ?_ rfl rfl ?_ ?_ (.inr ⟨q, { t with lock := true }, ?_⟩) ?_
    (fun d => ?_) ?_ ?_ ?_
  · exact fun m' hm => Function.update_of_ne hm _ _
  · exact fun d _ => rfl
  · simp [FlashApi.suspendTail]
  · simp [FlashApi.suspendTail, hreg]
  · refine ⟨?_, ?_, ?_, ?_, rfl, hs.unlocked_of_append hq⟩ <;> simp [FlashApi.suspendTail, hreg]
  · exact fun _ => hcur
  · by_cases hd : d = (s.modInfo m).devId
    · subst hd
      simp only [FlashApi.suspendTail, Function.update_self, true_iff]
      exact ⟨m, rfl, by simp⟩
    · have : ∀ m', (s.modInfo m').devId = d → m' ≠ m := by
        rintro m' rfl rfl
        exact hd rfl
      simp only [FlashApi.suspendTail, Function.update_of_ne hd, hs.suspendState]
      refine exists_congr fun m' => and_congr_right fun hdev => ?_
      rw [Function.update_of_ne (this m' hdev)]
  · intro n hn
    simp only [FlashApi.suspendTail, Function.update_self, List.mem_append,
      List.mem_singleton] at hn
    rcases hn with hn | rfl
    · exact hs.nonempty m n (by simp [hq, hn])
    · exact hs.nonempty m t (by simp [hq])
  · simp only [FlashApi.suspendTail, Function.update_self, hq, List.filterMap_append]
    exact hnodes
  · simp only [FlashApi.suspendTail, Function.update_self, hq, List.filterMap_append]
    exact hbuffers

/-! ### Changing the queue of a module -/

/-- A new queue of a registered module keeps the invariant when the locked node stays last. -/
theorem Wf.setQueue (hs : Wf s) {q : List OperaInfo} {p : Pools}
    (hreg : (s.modInfo m).isRegistered = true)
    (hidle : (s.modInfo m).Idle → ∀ n ∈ q, n.lock = false)
    (hbusy : ∀ q₀ t, (s.modInfo m).Busy q₀ t → ∃ q', q = q' ++ [t] ∧ ∀ n ∈ q', n.lock = false)
    (hne : ∀ n ∈ q, n.Nonempty)
    (hnodes : Exchange (s.pools (s.modInfo m).devId).nodes p.nodes
      ((s.modInfo m).operaInfo.filterMap (·.nodeSlot)) (q.filterMap (·.nodeSlot)))
    (hbuffers : Exchange (s.pools (s.modInfo m).devId).buffers p.buffers
      ((s.modInfo m).operaInfo.filterMap (·.buffSlot)) (q.filterMap (·.buffSlot))) :
    Wf ((s.setPools (s.modInfo m).devId p).setModule m { s.modInfo m with operaInfo := q }) := by
  have hcur : ∀ m',
      (Function.update s.modInfo m { s.modInfo m with operaInfo := q } m').curOperaInfo
      = (s.modInfo m').curOperaInfo := by
    intro m'
    by_cases hm : m' = m
    · subst hm
      simp
    · rw [Function.update_of_ne hm]
  refine hs.of_module m (fun m' hm => Function.update_of_ne hm _ _)
    (fun d hd => Function.update_of_ne hd _ _) rfl rfl (by simp [FlashApi.setModule])
    (by simp [FlashApi.setModule, hreg]) ?_ ?_ (fun d => ?_)
    (by simpa [FlashApi.setModule] using hne)
    (by simpa [FlashApi.setModule, FlashApi.setPools] using hnodes)
    (by simpa [FlashApi.setModule, FlashApi.setPools] using hbuffers)
  · rcases hs.lock m with hi | ⟨q₀, t, hb⟩
    · refine .inl ⟨?_, ?_, ?_⟩
      · simpa [FlashApi.setModule] using hi.cur
      · simpa [FlashApi.setModule] using hi.state
      · simpa [FlashApi.setModule] using hidle hi
    · obtain ⟨q', hq', hunlocked⟩ := hbusy q₀ t hb
      refine .inr ⟨q', t, ?_, ?_, ?_, ?_, hb.locked, hunlocked⟩
      · simpa [FlashApi.setModule] using hb.registered
      · simpa [FlashApi.setModule] using hq'
      · simpa [FlashApi.setModule] using hb.cur
      · simpa [FlashApi.setModule] using hb.state
  · simp only [FlashApi.setModule, FlashApi.setPools, hcur]
    exact hs.busy_curMod m
  · simp only [FlashApi.setModule, FlashApi.setPools, hcur]
    exact hs.suspendState d

/-- The entry taken by `allocSlot` was not used. -/
theorem not_mem_of_allocSlot {used used' : List Bool} {i : Nat}
    (h : allocSlot used = some (i, used')) : i ∉ {j | used[j]? = some true} := by
  simp [(allocSlot_spec h).1]

/-- Adding an erase keeps the invariant. -/
theorem Wf.eOperaAdd (hs : Wf s) {addr len : Nat} {p : Pools} {q : List OperaInfo} {ok : Bool}
    (hreg : (s.modInfo m).isRegistered = true)
    (h : eOperaAdd (s.pools (s.modInfo m).devId) (s.modInfo m).operaInfo addr len = (p, q, ok)) :
    Wf ((s.setPools (s.modInfo m).devId p).setModule m { s.modInfo m with operaInfo := q }) := by
  have hown : ∀ n ∈ (s.modInfo m).operaInfo, n.slot ∈ (s.pools (s.modInfo m).devId).nodes :=
    fun n hn => hs.nodes.used m n.slot (List.mem_filterMap.2 ⟨n, hn, rfl⟩)
  have hnodes : Exchange (s.pools (s.modInfo m).devId).nodes
      (((s.modInfo m).operaInfo.filter fun n => !n.survives addr len).foldl Pools.freeNode
        (s.pools (s.modInfo m).devId)).nodes
      ((s.modInfo m).operaInfo.filterMap (·.nodeSlot))
      (((s.modInfo m).operaInfo.filter (·.survives addr len)).filterMap (·.nodeSlot)) := by
    refine Exchange.filter (hs.nodes.nodup m) (hs.nodes.used m) fun i => ?_
    simp [mem_nodes_foldl_freeNode, OperaInfo.nodeSlot]
  have hbuffers : Exchange (s.pools (s.modInfo m).devId).buffers
      (((s.modInfo m).operaInfo.filter fun n => !n.survives addr len).foldl Pools.freeNode
        (s.pools (s.modInfo m).devId)).buffers
      ((s.modInfo m).operaInfo.filterMap (·.buffSlot))
      (((s.modInfo m).operaInfo.filter (·.survives addr len)).filterMap (·.buffSlot)) := by
    refine Exchange.filter (hs.buffers.nodup m) (hs.buffers.used m) fun i => ?_
    simp [mem_buffers_foldl_freeNode]
  have hbusy : ∀ q₀ t, (s.modInfo m).Busy q₀ t →
      (s.modInfo m).operaInfo.filter (·.survives addr len) =
        q₀.filter (·.survives addr len) ++ [t] := by
    intro q₀ t hb
    rw [hb.queue, List.filter_append]
    simp [OperaInfo.survives, hb.locked]
  rcases eOperaAdd_cases (hs.unlockedInit m) hown h with
    ⟨-, -, rfl, rfl⟩ | ⟨-, -, slot, operaList, halloc, rfl, rfl⟩ | ⟨-, -, rfl, rfl⟩
  · refine hs.setQueue hreg (fun hi n hn => hi.unlocked n (List.mem_filter.1 hn).1) ?_
      (fun n hn => hs.nonempty m n (List.mem_filter.1 hn).1) hnodes hbuffers
    exact fun q₀ t hb => ⟨_, hbusy q₀ t hb, fun n hn => hb.unlocked n (List.mem_filter.1 hn).1⟩
  · refine hs.setQueue hreg ?_ ?_ ?_ ?_ hbuffers
    · intro hi
      exact List.forall_mem_cons.2
        ⟨rfl, fun n hn => hi.unlocked n (List.mem_filter.1 hn).1⟩
    · intro q₀ t hb
      rw [hbusy q₀ t hb, ← List.cons_append]
      exact ⟨_, rfl, List.forall_mem_cons.2
        ⟨rfl, fun n hn => hb.unlocked n (List.mem_filter.1 hn).1⟩⟩
    · exact List.forall_mem_cons.2 ⟨fun _ _ _ ho => (by cases ho),
        fun n hn => hs.nonempty m n (List.mem_filter.1 hn).1⟩
    · exact hnodes.cons (not_mem_of_allocSlot halloc) (allocSlot_spec halloc).2
  · exact hs.setQueue hreg (fun hi => hi.unlocked) (fun q₀ t hb => ⟨q₀, hb.queue, hb.unlocked⟩)
      (hs.nonempty m) (Exchange.refl (hs.nodes.nodup m) (hs.nodes.used m))
      (Exchange.refl (hs.buffers.nodup m) (hs.buffers.used m))

theorem OperaInfo.Nonempty.widen {n : OperaInfo} {wOffs wLen : Nat} (hn : n.Nonempty)
    (hlen : 0 < wLen) (buffer : Nat → UInt8) : (n.widen wOffs wLen buffer).Nonempty := by
  unfold OperaInfo.widen
  split
  · intro offs len buff ho
    simp only [Opera.writting.injEq] at ho
    split_ifs at ho <;> omega
  · exact hn

/-- Adding a write keeps the invariant. -/
theorem Wf.wOperaAdd (hs : Wf s) {sectorSize secLen addr len : Nat} {flash : Content}
    {buffer : Nat → UInt8} {p : Pools} {q : List OperaInfo} {ok : Bool}
    (hreg : (s.modInfo m).isRegistered = true) (hlen : 0 < len)
    (h : wOperaAdd sectorSize flash (s.pools (s.modInfo m).devId) (s.modInfo m).operaInfo secLen
      addr len buffer = some (p, q, ok)) :
    Wf ((s.setPools (s.modInfo m).devId p).setModule m { s.modInfo m with operaInfo := q }) := by
  have hnodes := Exchange.refl (hs.nodes.nodup m) (hs.nodes.used m)
  have hbuffers := Exchange.refl (hs.buffers.nodup m) (hs.buffers.used m)
  rcases wOperaAdd_cases h with ⟨-, rfl, l, n, r, hq, -, -, hlock, -, rfl⟩ |
    ⟨-, old, slot, operaList, b, bufferList, -, hslot, hb, rfl, rfl⟩ | ⟨-, rfl, rfl⟩
  · have hmem : ∀ n' ∈ l ++ n.widen (addr - secStart secLen addr) len buffer :: r,
        n' ∈ (s.modInfo m).operaInfo ∨ n' = n.widen (addr - secStart secLen addr) len buffer := by
      intro n' hn'
      simp only [List.mem_append, List.mem_cons] at hn'
      simp only [hq, List.mem_append, List.mem_cons]
      tauto
    refine hs.setQueue hreg ?_ ?_ ?_ ?_ ?_
    · intro hi n' hn'
      rcases hmem n' hn' with hn' | rfl
      · exact hi.unlocked n' hn'
      · simpa using hlock
    · intro q₀ t hb
      rcases List.eq_nil_or_concat' r with rfl | ⟨r', t', rfl⟩
      · -- the merged node is not the locked one
        have : n = t := by simpa using (List.append_inj' (hq.symm.trans hb.queue) rfl).2
        simp [this, hb.locked] at hlock
      · have hq' : (l ++ n :: r') ++ [t'] = q₀ ++ [t] := by
          rw [← hb.queue, hq]
          simp
        obtain ⟨rfl, ht⟩ := List.append_inj' hq' rfl
        obtain rfl : t' = t := by simpa using ht
        refine ⟨l ++ n.widen (addr - secStart secLen addr) len buffer :: r', by simp, ?_⟩
        intro n' hn'
        simp only [List.mem_append, List.mem_cons] at hn'
        rcases hn' with hn' | rfl | hn'
        · exact hb.unlocked n' (by simp [hn'])
        · simpa using hlock
        · exact hb.unlocked n' (by simp [hn'])
    · intro n' hn'
      rcases hmem n' hn' with hn' | rfl
      · exact hs.nonempty m n' hn'
      · exact (hs.nonempty m n (by simp [hq])).widen hlen buffer
    · have heq : (l ++ n.widen (addr - secStart secLen addr) len buffer :: r).filterMap
          (·.nodeSlot) = (s.modInfo m).operaInfo.filterMap (·.nodeSlot) := by
        simp [hq, OperaInfo.nodeSlot]
      rw [heq]
      exact hnodes
    · have heq : (l ++ n.widen (addr - secStart secLen addr) len buffer :: r).filterMap
          (·.buffSlot) = (s.modInfo m).operaInfo.filterMap (·.buffSlot) := by
        simp [hq, List.filterMap_append, List.filterMap_cons]
      rw [heq]
      exact hbuffers
  · refine hs.setQueue hreg ?_ ?_ ?_ ?_ ?_
    · exact fun hi => List.forall_mem_cons.2 ⟨rfl, hi.unlocked⟩
    · intro q₀ t hb
      rw [hb.queue, ← List.cons_append]
      exact ⟨_, rfl, List.forall_mem_cons.2 ⟨rfl, hb.unlocked⟩⟩
    · refine List.forall_mem_cons.2 ⟨fun _ _ _ ho => ?_, hs.nonempty m⟩
      cases ho
      exact hlen
    · exact hnodes.cons (not_mem_of_allocSlot hslot) (allocSlot_spec hslot).2
    · exact hbuffers.cons (not_mem_of_allocSlot hb) (allocSlot_spec hb).2
  · exact hs.setQueue hreg (fun hi => hi.unlocked)
      (fun q₀ t hb => ⟨q₀, hb.queue, hb.unlocked⟩) (hs.nonempty m) hnodes hbuffers

end EarbudFirmware.Norflash
