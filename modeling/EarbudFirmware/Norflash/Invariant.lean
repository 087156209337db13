import EarbudFirmware.Lib.Ownership
import EarbudFirmware.Norflash.Api

/-!
# Flash service: the structural invariant

At all times only the oldest node of the current module can be locked, and it is locked while its
operation is suspended. Nodes and buffers belong to one queue each.

## Main definitions

* `Wf` — the invariant
* `FlashApi.completeTail`, `FlashApi.suspendTail` — the two effects a flush step can have

## Main results

* `operaFlush_cases` — everything `_opera_flush` can do
-/

namespace EarbudFirmware.Norflash

open NorMemory (Content Op)
open Ownership (Exclusive)

/-! ### The two effects of a flush step -/

namespace FlashApi

/-- The operation of the oldest node `t` is complete and the node is gone. -/
def completeTail (s : FlashApi) (m : ModuleId) (q : List OperaInfo) (t : OperaInfo) (k : Nat) :
    FlashApi :=
  let mi := s.modInfo m
  { s with
    modInfo := Function.update s.modInfo m
      { mi with operaInfo := q, curOperaInfo := none, state := .idle }
    flash := Function.update s.flash mi.devId (t.physOp.apply (s.flash mi.devId))
    suspendState := Function.update s.suspendState mi.devId false
    pools := Function.update s.pools mi.devId ((s.pools mi.devId).freeNode t)
    suspendNumber := k }

/-- The operation of the oldest node `t` is suspended and has left `cells` on the device. -/
def suspendTail (s : FlashApi) (m : ModuleId) (q : List OperaInfo) (t : OperaInfo)
    (cells : Content) (k : Nat) : FlashApi :=
  let mi := s.modInfo m
  { s with
    modInfo := Function.update s.modInfo m
      { mi with
        operaInfo := q ++ [{ t with lock := true }], curOperaInfo := some t.slot
        state := t.suspendedState }
    flash := Function.update s.flash mi.devId cells
    suspendState := Function.update s.suspendState mi.devId true
    suspendNumber := k }

end FlashApi

/-! ### The invariant -/

namespace ModuleInfo

/-- No operation of the module is in progress. -/
structure Idle (mi : ModuleInfo) : Prop where
  cur : mi.curOperaInfo = none
  state : mi.state = if mi.isRegistered then .idle else .uninited
  unlocked : ∀ n ∈ mi.operaInfo, n.lock = false

/-- The operation of the oldest node `t` is suspended; `q` are the newer nodes. -/
structure Busy (mi : ModuleInfo) (q : List OperaInfo) (t : OperaInfo) : Prop where
  registered : mi.isRegistered = true
  queue : mi.operaInfo = q ++ [t]
  cur : mi.curOperaInfo = some t.slot
  state : mi.state = t.suspendedState
  locked : t.lock = true
  unlocked : ∀ n ∈ q, n.lock = false

end ModuleInfo

/-- A write node has a nonempty window. -/
def OperaInfo.Nonempty (n : OperaInfo) : Prop :=
  ∀ wOffs wLen buff, n.opera = .writting wOffs wLen buff → 0 < wLen

/-- The structural invariant of the service. -/
structure Wf (s : FlashApi) : Prop where
  inited : s.isInited = true
  unregistered : ∀ m, (s.modInfo m).isRegistered = false → (s.modInfo m).operaInfo = []
  lock : ∀ m, (s.modInfo m).Idle ∨ ∃ q t, (s.modInfo m).Busy q t
  busy_curMod : ∀ m, (s.modInfo m).curOperaInfo ≠ none → s.curMod = some m
  curMod_registered : ∀ m, s.curMod = some m → (s.modInfo m).isRegistered = true
  suspendState : ∀ d, s.suspendState d = true ↔
    ∃ m, (s.modInfo m).devId = d ∧ (s.modInfo m).curOperaInfo ≠ none
  nonempty : ∀ m, ∀ n ∈ (s.modInfo m).operaInfo, n.Nonempty
  nodes : Exclusive (fun m => (s.modInfo m).devId) (fun d => (s.pools d).nodes)
    fun m => (s.modInfo m).operaInfo.filterMap (·.nodeSlot)
  buffers : Exclusive (fun m => (s.modInfo m).devId) (fun d => (s.pools d).buffers)
    fun m => (s.modInfo m).operaInfo.filterMap (·.buffSlot)

theorem Wf.slots_nodup {s : FlashApi} (hs : Wf s) (m : ModuleId) :
    ((s.modInfo m).operaInfo.map (·.slot)).Nodup := by
  simpa [OperaInfo.nodeSlot, List.filterMap_eq_map'] using hs.nodes.nodup m

/-! ### The tail of the queue -/

@[simp] theorem lockTail_append (q : List OperaInfo) (t : OperaInfo) :
    lockTail (q ++ [t]) = q ++ [{ t with lock := true }] := by
  induction q with
  | nil => rfl
  | cons n q ih =>
    cases q with
    | nil => rfl
    | cons n' q => simpa [lockTail] using ih

/-- Deleting the oldest node leaves the newer ones. -/
theorem operaDel_append {q : List OperaInfo} {t : OperaInfo}
    (h : ((q ++ [t]).map (·.slot)).Nodup) : operaDel (q ++ [t]) t.slot = some (q, t) := by
  have hq : ∀ n ∈ q, n.slot ≠ t.slot := by
    intro n hn heq
    rw [List.map_append, List.nodup_append] at h
    exact h.2.2 _ (List.mem_map_of_mem hn) _ (by simp) heq
  have hfind : (q ++ [t]).find? (·.slot == t.slot) = some t :=
    List.find?_eq_some_iff_append.2 ⟨by simp, q, [], rfl, by simpa using hq⟩
  have htake : (q ++ [t]).takeWhile (·.slot != t.slot) = q := by
    rw [List.takeWhile_append_of_pos (by simpa using hq)]
    simp
  simp [operaDel, hfind, htake]

theorem ModuleInfo.getTail_of_nil {mi : ModuleInfo} (h : mi.operaInfo = [])
    (hcur : mi.curOperaInfo = none) : mi.getTail = mi := by
  cases mi
  simp only at h hcur
  subst h hcur
  rfl

@[simp] theorem physOp_lock (t : OperaInfo) (b : Bool) :
    ({ t with lock := b } : OperaInfo).physOp = t.physOp := rfl

@[simp] theorem freeNode_lock (p : Pools) (t : OperaInfo) (b : Bool) :
    p.freeNode { t with lock := b } = p.freeNode t := rfl

@[simp] theorem suspendedState_lock (t : OperaInfo) (b : Bool) :
    ({ t with lock := b } : OperaInfo).suspendedState = t.suspendedState := rfl

theorem OperaInfo.suspendedState_ne_idle (t : OperaInfo) : t.suspendedState ≠ .idle := by
  unfold OperaInfo.suspendedState
  split <;> simp

/-! ### What a flush step does -/

/-- Everything the HAL can do with an operation it works on. -/
theorem halRun_cases {s s' : FlashApi} {d : FlashId} {op : Op} {suspend : Bool} {ans : HalAnswer}
    {r : HalRet} (h : halRun s d op suspend ans = some (s', r)) :
    (ans = .ok ∧ r = .ok ∧
        s' = (s.setFlash d (op.apply (s.flash d))).setSuspendState d false) ∨
      (∃ cells, ans = .suspended cells ∧ suspend = true ∧ r = .suspended ∧
        s' = (s.setFlash d cells).setSuspendState d true) := by
  cases ans with
  | ok =>
    simp only [halRun, Option.some.injEq, Prod.mk.injEq] at h
    exact .inl ⟨rfl, h.2.symm, h.1.symm⟩
  | suspended cells =>
    cases suspend with
    | false => simp [halRun] at h
    | true =>
      simp only [halRun, if_true, Option.some.injEq, Prod.mk.injEq] at h
      exact .inr ⟨cells, rfl, rfl, h.2.symm, h.1.symm⟩

/-- An operation that is issued and executed: the HAL was not holding a suspended one. -/
theorem halIssue_cases {pf : Platform} {s s' : FlashApi} {d : FlashId} {op : Op}
    {addr len : Nat} {suspend : Bool} {ans : HalAnswer} {r : HalRet}
    (h : halIssue pf s d op addr len suspend ans = some (s', r)) :
    (s' = s ∧ r ≠ .ok ∧ r ≠ .suspended) ∨
      (s.suspendState d = false ∧ halRun s d op suspend ans = some (s', r)) := by
  unfold halIssue at h
  split_ifs at h with h₁ h₂ h₃
  · simp only [Option.some.injEq, Prod.mk.injEq] at h
    exact .inl ⟨h.1.symm, by simp [← h.2]⟩
  · simp only [Option.some.injEq, Prod.mk.injEq] at h
    exact .inl ⟨h.1.symm, by simp [← h.2]⟩
  · simp only [Option.some.injEq, Prod.mk.injEq] at h
    exact .inl ⟨h.1.symm, by simp [← h.2]⟩
  · exact .inr ⟨by simpa using h₁, h⟩

/-- The HAL call of a flush step, when it does not fail: the operation is executed, from the start
when nothing is suspended on the device, or it is resumed. -/
theorem flushCall_cases {pf : Platform} {s s' : FlashApi} {m : ModuleId} {n : OperaInfo}
    {suspend : Bool} {ans : HalAnswer} {r : HalRet} (hn : n.Nonempty)
    (h : flushCall pf s m n suspend ans = some (s', r)) (hr : r = .ok ∨ r = .suspended) :
    ((s.modInfo m).state = .idle → s.suspendState (s.modInfo m).devId = false) ∧
      ∃ k, halRun { s with suspendNumber := k } (s.modInfo m).devId n.physOp suspend ans =
        some (s', r) := by
  have hbad : ¬(r ≠ .ok ∧ r ≠ .suspended) := fun h => hr.elim h.1 h.2
  unfold flushCall at h
  simp only at h
  split at h
  case h_1 hst =>
    split at h
    case h_1 wOffs wLen buff ho =>
      rw [if_pos (hn wOffs wLen buff ho)] at h
      rcases halIssue_cases h with ⟨-, hne⟩ | ⟨hs, hrun⟩
      · exact absurd hne hbad
      · exact ⟨fun _ => hs, 0, hrun⟩
    case h_2 ho =>
      rcases halIssue_cases h with ⟨-, hne⟩ | ⟨hs, hrun⟩
      · exact absurd hne hbad
      · exact ⟨fun _ => hs, 0, hrun⟩
  case h_2 hst =>
    refine ⟨fun hidle => absurd hidle hst, s.suspendNumber + 1, ?_⟩
    split_ifs at h
    unfold halResume at h
    split_ifs at h
    · exact h
    · simp only [Option.some.injEq, Prod.mk.injEq] at h
      exact absurd (by simp [← h.2]) hbad

/-- A flush step of a module whose oldest node is the current one. -/
theorem flushCur_cases {pf : Platform} {s s' : FlashApi} {m : ModuleId} {nosuspend b : Bool}
    {ans : HalAnswer} {r : Option OperaResult} {q : List OperaInfo} {t : OperaInfo}
    (hq : (s.modInfo m).operaInfo = q ++ [t]) (hcur : (s.modInfo m).curOperaInfo = some t.slot)
    (hlock : t.lock = true) (hnodup : ((q ++ [t]).map (·.slot)).Nodup) (hn : t.Nonempty)
    (h : flushCur pf s m nosuspend ans = some (s', b, r)) :
    b = true ∧ ((s.modInfo m).state = .idle → s.suspendState (s.modInfo m).devId = false) ∧
      ∃ k, (ans = .ok ∧ s' = s.completeTail m q t k) ∨
        (∃ cells, ans = .suspended cells ∧ nosuspend = false ∧ pf.flashSuspend = true ∧
          s' = s.suspendTail m q t cells k) := by
  have ht : ({ t with lock := true } : OperaInfo) = t := by rw [← hlock]
  simp only [flushCur, hcur, hq, operaDel_append hnodup] at h
  split at h
  case h_1 s₁ hcall =>
    simp only [Option.some.injEq, Prod.mk.injEq] at h
    obtain ⟨rfl, rfl, -⟩ := h
    obtain ⟨hidle, k, hrun⟩ := flushCall_cases hn hcall (.inl rfl)
    refine ⟨rfl, hidle, k, .inl ?_⟩
    rcases halRun_cases hrun with ⟨hans, -, rfl⟩ | ⟨-, -, -, hr, -⟩
    · exact ⟨hans, rfl⟩
    · cases hr
  case h_2 s₁ hcall =>
    simp only [Option.some.injEq, Prod.mk.injEq] at h
    obtain ⟨rfl, rfl, -⟩ := h
    obtain ⟨hidle, k, hrun⟩ := flushCall_cases hn hcall (.inr rfl)
    refine ⟨rfl, hidle, k, .inr ?_⟩
    rcases halRun_cases hrun with ⟨-, hr, -⟩ | ⟨cells, hans, hsusp, -, rfl⟩
    · cases hr
    · refine ⟨cells, hans, ?_⟩
      cases nosuspend with
      | true => simp at hsusp
      | false =>
        refine ⟨rfl, by simpa using hsusp, ?_⟩
        simp only [FlashApi.suspendTail, ht, ← hq, ← hcur]
        rfl
  case h_3 => cases h

/-- Everything `_opera_flush` can do: the queue is empty and nothing happens, or the oldest
operation is completed or suspended. -/
theorem operaFlush_cases {pf : Platform} {s s' : FlashApi} {m : ModuleId} {nosuspend b : Bool}
    {ans : HalAnswer} {r : Option OperaResult} (hs : Wf s)
    (h : operaFlush pf s m nosuspend ans = some (s', b, r)) :
    (b = false ∧ s' = s ∧ (s.modInfo m).operaInfo = [] ∧ (s.modInfo m).curOperaInfo = none) ∨
      (b = true ∧
        ((s.modInfo m).curOperaInfo = none → s.suspendState (s.modInfo m).devId = false) ∧
        ∃ q t k, (s.modInfo m).operaInfo = q ++ [t] ∧
          ((ans = .ok ∧ s' = s.completeTail m q t k) ∨
            (∃ cells, ans = .suspended cells ∧ nosuspend = false ∧ pf.flashSuspend = true ∧
              s' = s.suspendTail m q t cells k))) := by
  unfold operaFlush at h
  rcases hs.lock m with hidle | ⟨q, t, hbusy⟩
  · rw [if_pos hidle.cur] at h
    rcases List.eq_nil_or_concat' (s.modInfo m).operaInfo with hnil | ⟨q, t, hq⟩
    · -- nothing to flush: the module record is written back unchanged
      have hself : s.setModule m (s.modInfo m).getTail = s := by
        simp [FlashApi.setModule, ModuleInfo.getTail_of_nil hnil hidle.cur]
      rw [hself] at h
      simp only [flushCur, hidle.cur, Option.some.injEq, Prod.mk.injEq] at h
      exact .inl ⟨h.2.1.symm, h.1.symm, hnil, hidle.cur⟩
    · have hmem : t ∈ (s.modInfo m).operaInfo := by simp [hq]
      have hreg : (s.modInfo m).isRegistered = true := by
        by_contra hne
        simp [hs.unregistered m (by simpa using hne)] at hmem
      have hnodup := hs.slots_nodup m
      simp only [hq] at hnodup
      obtain ⟨hb, hst, k, hcases⟩ := flushCur_cases (t := { t with lock := true }) (q := q)
        (by simp [FlashApi.setModule, ModuleInfo.getTail, hq])
        (by simp [FlashApi.setModule, ModuleInfo.getTail, hq]) rfl (by simpa using hnodup)
        (hs.nonempty m t hmem) h
      refine .inr ⟨hb, fun _ => ?_, q, t, k, hq, ?_⟩
      · have := hst (by simp [FlashApi.setModule, ModuleInfo.getTail, hidle.state, hreg])
        simpa [FlashApi.setModule, ModuleInfo.getTail] using this
      · refine hcases.imp (fun ⟨hans, hs'⟩ => ⟨hans, ?_⟩)
          fun ⟨cells, hans, hno, hfs, hs'⟩ => ⟨cells, hans, hno, hfs, ?_⟩
        · rw [hs']
          simp [FlashApi.completeTail, FlashApi.setModule, ModuleInfo.getTail]
        · rw [hs']
          simp [FlashApi.suspendTail, FlashApi.setModule, ModuleInfo.getTail]
  · rw [if_neg (by simp [hbusy.cur])] at h
    have hnodup := hs.slots_nodup m
    simp only [hbusy.queue] at hnodup
    obtain ⟨hb, -, k, hcases⟩ := flushCur_cases hbusy.queue hbusy.cur hbusy.locked hnodup
      (hs.nonempty m t (by simp [hbusy.queue])) h
    exact .inr ⟨hb, fun hnone => by simp [hbusy.cur] at hnone, q, t, k, hbusy.queue, hcases⟩

end EarbudFirmware.Norflash
