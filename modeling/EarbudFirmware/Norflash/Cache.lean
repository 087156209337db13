import EarbudFirmware.Norflash.Sync

/-!
# Flash service: the cache in front of the flash

Flash is read through a cache. `_opera_flush` invalidates the lines of a completed operation in the
branch that calls the module's callback, so not for a module without one and not in the flushes of a
synchronous call; a synchronous call invalidates the lines of its own range.

## Main definitions

* `Cache`, `halCacheInvalidate`, `cacheInvalid` — the cached bytes and their invalidation
* `callLog` — a call with the operations that it completes and the invalidations that it makes
* `Refreshes` — after the call no completed operation leaves a stale cached byte
* `CacheGuard` — the calls that complete only operations whose lines they invalidate

## Main results

* `callLog_fst` — the call itself is the one of `step`
* `refreshes_iff` — exactly the guarded calls leave nothing stale
* `refreshes_run_iff` — the same for every run
-/

namespace EarbudFirmware.Norflash

open NorMemory (Content Op InRange)

/-! ### The cache -/

/-- `FLASH_BASE` and `FLASH1_BASE`, `CACHE_LINE_SIZE`, and the length above which
`hal_cache_invalidate` empties the cache. -/
structure CacheConfig where
  flashBase : FlashId → Nat
  lineSize : Nat
  maxLen : Nat

/-- The bytes that the cache holds, by their addresses. -/
abbrev Cache := Nat → Option UInt8

/-- `_cache_invalid` takes the address for one that is read through the cache. -/
def CacheConfig.isCacheAddr (cc : CacheConfig) (d : FlashId) (startAddr : Nat) : Bool :=
  startAddr / addrSpan == cc.flashBase d / addrSpan

/-- `hal_cache_invalidate` for this range clears the line of the address `a`. -/
def CacheConfig.Clears (cc : CacheConfig) (startAddr len a : Nat) : Prop :=
  cc.maxLen < len ∨
    startAddr / cc.lineSize ≤ a / cc.lineSize ∧ a / cc.lineSize * cc.lineSize < startAddr + len

instance (cc : CacheConfig) (startAddr len a : Nat) : Decidable (cc.Clears startAddr len a) :=
  inferInstanceAs (Decidable (_ ∨ _))

/-- `hal_cache_invalidate`. -/
def halCacheInvalidate (cc : CacheConfig) (startAddr len : Nat) (c : Cache) : Cache :=
  fun a => if cc.Clears startAddr len a then none else c a

/-- `_cache_invalid`. -/
def cacheInvalid (cc : CacheConfig) (d : FlashId) (startAddr len : Nat) (c : Cache) : Cache :=
  if cc.isCacheAddr d startAddr then halCacheInvalidate cc startAddr len c else c

/-- A memory-mapped read of the address `a` through the cache. -/
def readCached (c : Cache) (f : Content) (a : Nat) : UInt8 := (c a).getD (f (physAddr a))

/-- The lines of a range are those of its addresses. -/
theorem CacheConfig.clears_of_inRange (cc : CacheConfig) {startAddr len a : Nat}
    (h : InRange startAddr len a) : cc.Clears startAddr len a :=
  .inr ⟨Nat.div_le_div_right h.1, Nat.lt_of_le_of_lt (Nat.div_mul_le_self a cc.lineSize) h.2⟩

/-! ### Calls with their effects -/

/-- The first address that an operation changes. -/
def OperaInfo.start (n : OperaInfo) : Nat :=
  match n.opera with
  | .writting wOffs _ _ => n.addr + wOffs
  | .erasing => n.addr

/-- The number of bytes that an operation changes. -/
def OperaInfo.size (n : OperaInfo) : Nat :=
  match n.opera with
  | .writting _ wLen _ => wLen
  | .erasing => n.len

/-- What a call does to the flash and to the cache: a queued operation completes, or
`_cache_invalid` is called. -/
inductive Effect where
  | completed (d : FlashId) (startAddr len : Nat)
  | cacheInvalid (d : FlashId) (startAddr len : Nat)
  deriving DecidableEq

def Effect.apply (cc : CacheConfig) (c : Cache) : Effect → Cache
  | .completed .. => c
  | .cacheInvalid d startAddr len => Norflash.cacheInvalid cc d startAddr len c

/-- The effects of `_opera_flush`: the oldest operation completes when its node is gone, and the
range that the callback is told about is invalidated. -/
def flushEffects (s s' : FlashApi) (m : ModuleId) (r : Option OperaResult) : List Effect :=
  match (s.modInfo m).operaInfo.getLast? with
  | some n =>
    if (s'.modInfo m).operaInfo.length < (s.modInfo m).operaInfo.length then
      .completed (s.modInfo m).devId n.start n.size ::
        (r.map fun r => .cacheInvalid (s.modInfo m).devId r.addr r.len).toList
    else []
  | none => []

/-- `_opera_flush` with its effects. -/
def operaFlushLog (pf : Platform) (s : FlashApi) (m : ModuleId) (nosuspend : Bool)
    (ans : HalAnswer) : Option (FlashApi × Bool × List Effect) :=
  match operaFlush pf s m nosuspend ans with
  | none => none
  | some (s', b, r) => some (s', b, flushEffects s s' m r)

/-- `_norflash_api_flush` with its effects. -/
def norflashApiFlushLog (pf : Platform) (s : FlashApi) (polls : List Bool) (ans : HalAnswer) :
    Option (FlashApi × List Effect) :=
  if !s.isInited then some (s, [])
  else match flushIsAllowed s polls with
    | none => none
    | some (false, s, _) => some (s, [])
    | some (true, s, _) =>
      match getCurMod s with
      | none => some (s, [])
      | some m =>
        match operaFlushLog pf { s with curModId := m.toNat, curMod := some m } m false ans with
        | none => none
        | some (s, more, log) => some (if more then s else { s with curMod := none }, log)

/-- The loop over the suspended operation of the current module, with its effects. -/
def drainCurModLog (pf : Platform) (c : ModuleId) :
    Nat → FlashApi → List Bool → Bool → Option (FlashApi × List Bool × Bool × List Effect)
  | 0, _, _, _ => none
  | fuel + 1, s, polls, bresult =>
    if (s.modInfo c).state = .idle then some (s, polls, bresult, [])
    else match flushIsAllowed s polls with
      | none => none
      | some (false, s, polls) => drainCurModLog pf c fuel s polls bresult
      | some (true, s, polls) =>
        match operaFlushLog pf s c true .ok with
        | none => none
        | some (s, bresult, log) =>
          (drainCurModLog pf c fuel (if bresult then s else { s with curMod := none }) polls
            bresult).map fun r => (r.1, r.2.1, r.2.2.1, log ++ r.2.2.2)

/-- The loop over the queue of the module, with its effects. -/
def drainModuleLog (pf : Platform) (m : ModuleId) :
    Nat → FlashApi → List Bool → Bool → Option (FlashApi × List Effect)
  | 0, _, _, _ => none
  | fuel + 1, s, polls, bresult =>
    match flushIsAllowed s polls with
    | none => none
    | some (false, s, polls) =>
      if bresult then drainModuleLog pf m fuel s polls bresult else some (s, [])
    | some (true, s, polls) =>
      match operaFlushLog pf s m true .ok with
      | none => none
      | some (s, bresult, log) =>
        if bresult then (drainModuleLog pf m fuel s polls bresult).map fun r => (r.1, log ++ r.2)
        else some (s, log)

/-- The drain loops of a synchronous call, with their effects. -/
def syncDrainLog (pf : Platform) (s : FlashApi) (m : ModuleId) (polls : List Bool) :
    Option (FlashApi × List Effect) :=
  let fuel := polls.length + (s.modInfo m).operaInfo.length + 2
  match s.curMod with
  | some c =>
    if m = c then drainModuleLog pf m fuel s polls false
    else match drainCurModLog pf c fuel s polls false with
      | none => none
      | some (s, polls, bresult, log) =>
        (drainModuleLog pf m fuel s polls bresult).map fun r => (r.1, log ++ r.2)
  | none => drainModuleLog pf m fuel s polls false

/-- The rest of an accepted synchronous call: the drain loops, the HAL call and the invalidation of
its range. -/
def syncLog (pf : Platform) (s : FlashApi) (m : ModuleId) (op : Op) (startAddr len : Nat)
    (polls : List Bool) : Option (FlashApi × List Effect) :=
  match syncDrainLog pf s m polls with
  | none => none
  | some (s₁, log) =>
    (halIssue pf s₁ (s.modInfo m).devId op startAddr len false .ok).map fun r =>
      (r.1, log ++ [.cacheInvalid (s.modInfo m).devId startAddr len])

/-- A call of the interface with its effects. -/
def callLog (pf : Platform) (s : FlashApi) : Event → Option (FlashApi × List Effect)
  | .erase m startAddr len false polls =>
    match checkErase s (s.modInfo m) startAddr len with
    | .error _ => some (s, [])
    | .ok () => syncLog pf s m (.erase (physAddr startAddr) len) startAddr len polls
  | .write m startAddr buffer len false polls =>
    match checkAccess pf s (s.modInfo m) startAddr len with
    | .error _ => some (s, [])
    | .ok () => syncLog pf s m (.program (physAddr startAddr) len buffer) startAddr len polls
  | .flush polls ans => norflashApiFlushLog pf s polls ans
  | e => (step pf s e).map fun s' => (s', [])

variable {pf : Platform} {s s' : FlashApi} {m : ModuleId} {cc : CacheConfig} {log : List Effect}

/-! ### The effects are those of the calls -/

theorem drainModuleLog_fst {fuel : Nat} {polls : List Bool} {b : Bool} :
    (drainModuleLog pf m fuel s polls b).map Prod.fst = drainModule pf m fuel s polls b := by
  induction fuel generalizing s polls b with
  | zero => rfl
  | succ fuel ih =>
    unfold drainModuleLog drainModule operaFlushLog
    cases flushIsAllowed s polls with
    | none => rfl
    | some r =>
      obtain ⟨ok, s₁, polls₁⟩ := r
      cases ok with
      | false => cases b <;> simp [ih]
      | true =>
        cases hflush : operaFlush pf s₁ m true .ok with
        | none => simp [hflush]
        | some r => cases hb : r.2.1 <;> simp [hflush, hb, ← ih, Option.map_map, Function.comp_def]

theorem drainCurModLog_fst {c : ModuleId} {fuel : Nat} {polls : List Bool} {b : Bool} :
    (drainCurModLog pf c fuel s polls b).map (fun r => (r.1, r.2.1, r.2.2.1)) =
      drainCurMod pf c fuel s polls b := by
  induction fuel generalizing s polls b with
  | zero => rfl
  | succ fuel ih =>
    unfold drainCurModLog drainCurMod operaFlushLog
    split_ifs
    · rfl
    · cases flushIsAllowed s polls with
      | none => rfl
      | some r =>
        obtain ⟨ok, s₁, polls₁⟩ := r
        cases ok with
        | false => simp [ih]
        | true =>
          cases hflush : operaFlush pf s₁ c true .ok with
          | none => simp [hflush]
          | some r => simp [hflush, ← ih, Option.map_map, Function.comp_def]

theorem syncDrainLog_fst {polls : List Bool} :
    (syncDrainLog pf s m polls).map Prod.fst = syncDrain pf s m polls := by
  unfold syncDrainLog syncDrain
  simp only
  cases s.curMod with
  | none => exact drainModuleLog_fst
  | some c =>
    simp only
    split_ifs
    · exact drainModuleLog_fst
    · rw [← drainCurModLog_fst]
      cases drainCurModLog pf c _ s polls false with
      | none => rfl
      | some r => simp [← drainModuleLog_fst, Option.map_map, Function.comp_def]

theorem syncLog_fst {op : Op} {startAddr len : Nat} {polls : List Bool} :
    (syncLog pf s m op startAddr len polls).map Prod.fst =
      (syncDrain pf s m polls).bind fun s₁ =>
        (halIssue pf s₁ (s.modInfo m).devId op startAddr len false .ok).map Prod.fst := by
  unfold syncLog
  rw [← syncDrainLog_fst]
  cases syncDrainLog pf s m polls with
  | none => rfl
  | some r => simp [Option.map_map, Function.comp_def]

theorem norflashApiFlushLog_fst {polls : List Bool} {ans : HalAnswer} :
    (norflashApiFlushLog pf s polls ans).map Prod.fst =
      (norflashApiFlush pf s polls ans).map Prod.fst := by
  unfold norflashApiFlushLog norflashApiFlush operaFlushLog
  split_ifs
  · rfl
  · cases flushIsAllowed s polls with
    | none => rfl
    | some r =>
      obtain ⟨ok, s₁, polls₁⟩ := r
      cases ok with
      | false => rfl
      | true =>
        cases hm : getCurMod s₁ with
        | none => simp [hm]
        | some m =>
          cases hflush : operaFlush pf { s₁ with curModId := m.toNat, curMod := some m } m false ans
            with
          | none => simp [hm, hflush]
          | some r => simp [hm, hflush]

/-- A call with its effects is the call. -/
theorem callLog_fst (pf : Platform) (s : FlashApi) (e : Event) :
    (callLog pf s e).map Prod.fst = step pf s e := by
  have hplain : ((step pf s e).map fun s' => (s', ([] : List Effect))).map Prod.fst =
      step pf s e := by
    simp [Option.map_map, Function.comp_def]
  cases e with
  | erase m startAddr len async polls =>
    cases async with
    | true => exact hplain
    | false =>
      simp only [callLog, step, call, norflashApiErase]
      cases checkErase s (s.modInfo m) startAddr len with
      | error e => rfl
      | ok =>
        simp only [Bool.false_eq_true, if_false, syncLog_fst]
        simp [Option.map_eq_bind, Option.bind_assoc]
  | write m startAddr buffer len async polls =>
    cases async with
    | true => exact hplain
    | false =>
      simp only [callLog, step, call, norflashApiWrite]
      cases checkAccess pf s (s.modInfo m) startAddr len with
      | error e => rfl
      | ok =>
        simp only [Bool.false_eq_true, if_false, syncLog_fst]
        simp [Option.map_eq_bind, Option.bind_assoc]
  | flush polls ans =>
    simp only [callLog, step, call, norflashApiFlushLog_fst, Option.map_map, Function.comp_def]
  | register => exact hplain
  | flushDisable => exact hplain
  | flushEnable => exact hplain

/-! ### The effects of a flush -/

/-- `_opera_flush` invalidates the range of the completed operation when it calls the callback. -/
def callbackEffects (mi : ModuleInfo) (n : OperaInfo) (nosuspend : Bool) : List Effect :=
  if nosuspend = false ∧ mi.cbFunc = true ∧ 0 < n.size then
    [.cacheInvalid mi.devId n.start n.size]
  else []

theorem operaResult_effects {mi : ModuleInfo} {n : OperaInfo} {nosuspend : Bool} :
    ((operaResult s mi n nosuspend).map fun r =>
      Effect.cacheInvalid mi.devId r.addr r.len).toList = callbackEffects mi n nosuspend := by
  unfold operaResult callbackEffects OperaInfo.start OperaInfo.size
  cases nosuspend <;> cases mi.cbFunc <;> cases n.opera <;> simp <;> split_ifs <;> rfl

/-- The argument of the callback when the operation completes. -/
theorem flushCur_result {nosuspend b : Bool} {r : Option OperaResult} {q : List OperaInfo}
    {t : OperaInfo} (hq : (s.modInfo m).operaInfo = q ++ [t])
    (hcur : (s.modInfo m).curOperaInfo = some t.slot)
    (hnodup : ((q ++ [t]).map (·.slot)).Nodup) (hn : t.Nonempty)
    (h : flushCur pf s m nosuspend .ok = some (s', b, r)) :
    ∃ s₁, r = operaResult s₁ (s.modInfo m) t nosuspend := by
  simp only [flushCur, hcur, hq, operaDel_append hnodup] at h
  split at h
  case h_1 s₁ hcall =>
    obtain ⟨-, k, hrun⟩ := flushCall_cases hn hcall (.inl rfl)
    rcases halRun_cases hrun with ⟨-, -, rfl⟩ | ⟨-, -, -, hr, -⟩
    · obtain ⟨-, hr⟩ := Prod.mk.inj (Option.some.inj h)
      exact ⟨_, (Prod.mk.inj hr).2.symm⟩
    · cases hr
  case h_2 s₁ hcall =>
    obtain ⟨-, k, hrun⟩ := flushCall_cases hn hcall (.inr rfl)
    rcases halRun_cases hrun with ⟨-, hr, -⟩ | ⟨_, hans, -⟩
    · cases hr
    · cases hans
  case h_3 => cases h

theorem operaFlush_result (hs : Wf s) {nosuspend b : Bool} {r : Option OperaResult}
    {q : List OperaInfo} {t : OperaInfo} (hq : (s.modInfo m).operaInfo = q ++ [t])
    (h : operaFlush pf s m nosuspend .ok = some (s', b, r)) :
    (r.map fun r => Effect.cacheInvalid (s.modInfo m).devId r.addr r.len).toList =
      callbackEffects (s.modInfo m) t nosuspend := by
  have hnodup := hs.slots_nodup m
  rw [hq] at hnodup
  have hn := hs.nonempty m t (by simp [hq])
  unfold operaFlush at h
  rcases hs.lock m with hidle | ⟨q', t', hbusy⟩
  · rw [if_pos hidle.cur] at h
    obtain ⟨s₁, rfl⟩ := flushCur_result (t := { t with lock := true }) (q := q)
      (by simp [FlashApi.setModule, ModuleInfo.getTail, hq])
      (by simp [FlashApi.setModule, ModuleInfo.getTail, hq]) (by simpa using hnodup) hn h
    simp only [FlashApi.setModule, Function.update_self]
    have heffects := @operaResult_effects s₁ (s.modInfo m).getTail t nosuspend
    exact heffects
  · obtain ⟨rfl, ht⟩ := List.append_inj' (hq.symm.trans hbusy.queue) rfl
    obtain rfl : t = t' := by simpa using ht
    rw [if_neg (by simp [hbusy.cur])] at h
    obtain ⟨s₁, rfl⟩ := flushCur_result hbusy.queue hbusy.cur hnodup hn h
    exact operaResult_effects

/-- Everything `_opera_flush` can do, with its effects. -/
theorem operaFlushLog_cases (hs : Wf s) {nosuspend b : Bool} {ans : HalAnswer}
    (h : operaFlushLog pf s m nosuspend ans = some (s', b, log)) :
    (b = false ∧ s' = s ∧ (s.modInfo m).operaInfo = [] ∧ log = []) ∨
      (b = true ∧
        ((s.modInfo m).curOperaInfo = none → s.suspendState (s.modInfo m).devId = false) ∧
        ∃ q t k, (s.modInfo m).operaInfo = q ++ [t] ∧
          ((ans = .ok ∧ s' = s.completeTail m q t k ∧
              log = .completed (s.modInfo m).devId t.start t.size ::
                callbackEffects (s.modInfo m) t nosuspend) ∨
            (∃ cells, ans = .suspended cells ∧ nosuspend = false ∧
              s' = s.suspendTail m q t cells k ∧ log = []))) := by
  unfold operaFlushLog at h
  split at h
  · cases h
  case h_2 s₁ b₁ r hflush =>
    obtain ⟨rfl, hlog⟩ := Prod.mk.inj (Option.some.inj h)
    obtain ⟨rfl, rfl⟩ := Prod.mk.inj hlog
    rcases operaFlush_cases hs hflush with ⟨rfl, rfl, hnil, -⟩ |
      ⟨rfl, hfree, q, t, k, hq, ⟨rfl, rfl⟩ | ⟨cells, rfl, hno, -, rfl⟩⟩
    · exact .inl ⟨rfl, rfl, hnil, by simp [flushEffects, hnil]⟩
    · refine .inr ⟨rfl, hfree, q, t, k, hq, .inl ⟨rfl, rfl, ?_⟩⟩
      rw [← operaFlush_result hs hq hflush]
      simp [flushEffects, hq, FlashApi.completeTail]
    · refine .inr ⟨rfl, hfree, q, t, k, hq, .inr ⟨cells, rfl, hno, rfl, ?_⟩⟩
      simp [flushEffects, hq, FlashApi.suspendTail]

/-! ### The effects of the drain loops -/

/-- The operations of a queue complete, the oldest first. -/
def completions (mi : ModuleInfo) : List Effect :=
  mi.operaInfo.reverse.map fun n => .completed mi.devId n.start n.size

@[simp] theorem callbackEffects_nosuspend (mi : ModuleInfo) (n : OperaInfo) :
    callbackEffects mi n true = [] := rfl

/-- Once the callback does not refuse any more, the loop completes the whole queue. -/
theorem drainModuleLog_queue (hs : Wf s) (hcb : s.allowedCb = false) {fuel : Nat}
    {polls : List Bool} {b : Bool} (h : drainModuleLog pf m fuel s polls b = some (s', log)) :
    log = completions (s.modInfo m) := by
  induction fuel generalizing s s' polls b log with
  | zero => cases h
  | succ fuel ih =>
    unfold drainModuleLog at h
    split at h
    · cases h
    case h_2 s₁ _ hpoll =>
      obtain ⟨hb, -⟩ | ⟨-, -, htrue, -⟩ := flushIsAllowed_cases hpoll
      · cases hb
      · rw [hcb] at htrue
        cases htrue
    case h_3 s₁ _ hpoll =>
      have hs₁ := hs.internals (flushIsAllowed_internal (P := fun _ _ _ => True) hs hpoll)
      obtain ⟨-, rfl, -⟩ | ⟨hb, -⟩ := flushIsAllowed_cases hpoll
      · split at h
        · cases h
        case h_2 s₂ b' log₁ hflush =>
          rcases operaFlushLog_cases hs₁ hflush with ⟨rfl, rfl, hnil, rfl⟩ |
            ⟨rfl, hfree, q, t, k, hq, ⟨-, rfl, rfl⟩ | ⟨_, hans, -⟩⟩
          · obtain ⟨-, rfl⟩ := Prod.mk.inj (Option.some.inj h)
            have hnil : (s.modInfo m).operaInfo = [] := hnil
            simp [completions, hnil]
          · simp only [if_true] at h
            obtain ⟨⟨s₃, log₃⟩, hrest, heq⟩ := Option.map_eq_some_iff.1 h
            obtain ⟨-, rfl⟩ := Prod.mk.inj heq
            have hq : (s.modInfo m).operaInfo = q ++ [t] := hq
            rw [ih (hs₁.completeTail hq hfree k) rfl hrest]
            simp [completions, FlashApi.completeTail, hq]
          · cases hans
      · cases hb

/-- The first poll decides whether the loop completes the queue or leaves it. -/
theorem drainModuleLog_first (hs : Wf s) {fuel : Nat} {polls : List Bool}
    (h : drainModuleLog pf m (fuel + 1) s polls false = some (s', log)) :
    ((s.allowedCb = false ∨ polls.head? = some true) ∧ log = completions (s.modInfo m)) ∨
      (s.allowedCb = true ∧ polls.head? = some false ∧ log = []) := by
  unfold drainModuleLog at h
  split at h
  · cases h
  case h_2 s₁ _ hpoll =>
    obtain ⟨hb, -⟩ | ⟨-, rfl, hcb, rfl⟩ := flushIsAllowed_cases hpoll
    · cases hb
    · exact .inr ⟨hcb, rfl, (Prod.mk.inj (Option.some.inj h)).2.symm⟩
  case h_3 s₁ polls' hpoll =>
    have hs₁ := hs.internals (flushIsAllowed_internal (P := fun _ _ _ => True) hs hpoll)
    obtain ⟨-, rfl, hcb⟩ | ⟨hb, -⟩ := flushIsAllowed_cases hpoll
    · refine .inl ⟨hcb.imp (·.2) fun h => by simp [h.2], ?_⟩
      have hrest : drainModuleLog pf m (fuel + 1) { s with allowedCb := false } polls' false =
          some (s', log) := by
        unfold drainModuleLog
        simpa [flushIsAllowed] using h
      have hlog := drainModuleLog_queue hs₁ rfl hrest
      exact hlog
    · cases hb

/-- The loop over the current module `c` completes the operation that is suspended. -/
theorem drainCurModLog_spec {c : ModuleId} (hs : Wf s) (hc : s.curMod = some c) {fuel : Nat}
    {polls polls' : List Bool} {b b' : Bool}
    (h : drainCurModLog pf c fuel s polls b = some (s', polls', b', log)) :
    (s.modInfo c).state = .idle ∧ s' = s ∧ polls' = polls ∧ b' = b ∧ log = [] ∨
      (s.modInfo c).state ≠ .idle ∧ Wf s' ∧ s'.allowedCb = false ∧
        (∀ m, m ≠ c → s'.modInfo m = s.modInfo m) ∧
        ∃ t, (s.modInfo c).operaInfo.getLast? = some t ∧
          log = [.completed (s.modInfo c).devId t.start t.size] := by
  induction fuel generalizing s s' polls polls' b b' log with
  | zero => cases h
  | succ fuel ih =>
    unfold drainCurModLog at h
    split_ifs at h with hst
    · simp only [Option.some.injEq, Prod.mk.injEq] at h
      obtain ⟨rfl, rfl, rfl, rfl⟩ := h
      exact .inl ⟨hst, rfl, rfl, rfl, rfl⟩
    · split at h
      · cases h
      case h_2 s₁ _ hpoll =>
        obtain ⟨hb, -⟩ | ⟨-, rfl, -⟩ := flushIsAllowed_cases hpoll
        · cases hb
        · exact (ih hs hc h).imp (fun h => absurd h.1 hst) id
      case h_3 s₁ _ hpoll =>
        have hs₁ := hs.internals (flushIsAllowed_internal (P := fun _ _ _ => True) hs hpoll)
        obtain ⟨-, rfl, -⟩ | ⟨hb, -⟩ := flushIsAllowed_cases hpoll
        · split at h
          · cases h
          case h_2 s₂ b₂ log₂ hflush =>
            rcases operaFlushLog_cases hs₁ hflush with ⟨rfl, rfl, hnil, -⟩ |
              ⟨rfl, hfree, q, t, k, hq, ⟨-, rfl, rfl⟩ | ⟨_, hans, -⟩⟩
            · have hcur := hs₁.cur_eq_none_of_nil hnil
              exact absurd ((hs.state_eq_idle_iff (hs.curMod_registered c hc)).2 hcur) hst
            · -- the module is idle now, so the next test ends the loop
              have hs₂ := hs₁.completeTail hq hfree k
              obtain ⟨⟨s₃, polls₃, b₃, log₃⟩, hrest, heq⟩ := Option.map_eq_some_iff.1 h
              simp only [Prod.mk.injEq] at heq
              obtain ⟨rfl, rfl, rfl, rfl⟩ := heq
              rcases ih hs₂ hc hrest with ⟨-, rfl, -, -, rfl⟩ | ⟨hne, -⟩
              · refine .inr ⟨hst, hs₂, rfl, fun m hm => Function.update_of_ne hm _ _, t, ?_, rfl⟩
                have hq : (s.modInfo c).operaInfo = q ++ [t] := hq
                simp [hq]
              · exact absurd (by simp [FlashApi.completeTail]) hne
            · cases hans
        · cases hb

/-- A synchronous call on `m` completes the operation `n` of the module `m'`: it is queued for `m`
itself and the loops do their work, or it is suspended. -/
def Drains (s : FlashApi) (m : ModuleId) (polls : List Bool) (m' : ModuleId) (n : OperaInfo) :
    Prop :=
  (m' = m ∧ n ∈ (s.modInfo m).operaInfo ∧ DrainsQueue s m polls) ∨
    (m' ≠ m ∧ s.curMod = some m' ∧ (s.modInfo m').state ≠ .idle ∧
      (s.modInfo m').operaInfo.getLast? = some n)

/-- The effect of an operation that completes. -/
def FlashApi.completion (s : FlashApi) (m : ModuleId) (n : OperaInfo) : Effect :=
  .completed (s.modInfo m).devId n.start n.size

theorem mem_completions {mi : ModuleInfo} {e : Effect} :
    e ∈ completions mi ↔ ∃ n ∈ mi.operaInfo, e = .completed mi.devId n.start n.size := by
  simp [completions, eq_comm]

/-- The loop over the queue of `m`, when no other module is suspended. -/
theorem mem_drainModuleLog (hs : Wf s)
    (hno : ∀ c, s.curMod = some c → c ≠ m → (s.modInfo c).state = .idle) {fuel : Nat}
    {polls : List Bool} (h : drainModuleLog pf m (fuel + 1) s polls false = some (s', log))
    (e : Effect) : e ∈ log ↔ ∃ m' n, Drains s m polls m' n ∧ e = s.completion m' n := by
  have hother : ∀ m' n, Drains s m polls m' n →
      m' = m ∧ n ∈ (s.modInfo m).operaInfo ∧ DrainsQueue s m polls := by
    rintro m' n (hm | ⟨hne, hc, hst, -⟩)
    · exact hm
    · exact absurd (hno m' hc hne) hst
  rcases drainModuleLog_first hs h with ⟨hallow, rfl⟩ | ⟨hcb, hhead, rfl⟩
  · rw [mem_completions]
    constructor
    · rintro ⟨n, hn, rfl⟩
      exact ⟨m, n, .inl ⟨rfl, hn, .inr (.inl hallow)⟩, rfl⟩
    · rintro ⟨m', n, hd, rfl⟩
      obtain ⟨rfl, hn, -⟩ := hother m' n hd
      exact ⟨n, hn, rfl⟩
  · refine ⟨fun h => absurd h List.not_mem_nil, ?_⟩
    rintro ⟨m', n, hd, -⟩
    obtain ⟨-, hn, ⟨c, hc, hcm, hst⟩ | hallow | hnil⟩ := hother m' n hd
    · exact absurd (hno c hc hcm) hst
    · simp [hcb, hhead] at hallow
    · simp [hnil] at hn

/-- The drain loops have no other effects than the operations that they complete. -/
theorem mem_syncDrainLog (hs : Wf s) {polls : List Bool}
    (h : syncDrainLog pf s m polls = some (s', log)) (e : Effect) :
    e ∈ log ↔ ∃ m' n, Drains s m polls m' n ∧ e = s.completion m' n := by
  unfold syncDrainLog at h
  simp only at h
  split at h
  case h_1 c hc =>
    split_ifs at h with hmc
    · refine mem_drainModuleLog hs (fun c' hc' hne => ?_) h e
      obtain rfl := Option.some.inj (hc.symm.trans hc')
      exact absurd hmc.symm hne
    · split at h
      · cases h
      case h_2 s₁ polls₁ b₁ log₁ hcur =>
        obtain ⟨⟨s₂, log₂⟩, hmod, heq⟩ := Option.map_eq_some_iff.1 h
        obtain ⟨rfl, rfl⟩ := Prod.mk.inj heq
        rcases drainCurModLog_spec hs hc hcur with ⟨hidle, rfl, rfl, rfl, rfl⟩ |
          ⟨hst, hs₁, hcb, hother, t, ht, rfl⟩
        · refine mem_drainModuleLog hs (fun c' hc' _ => ?_) hmod e
          obtain rfl := Option.some.inj (hc.symm.trans hc')
          exact hidle
        · rw [drainModuleLog_queue hs₁ hcb hmod, hother m hmc, List.singleton_append,
            List.mem_cons, mem_completions]
          constructor
          · rintro (rfl | ⟨n, hn, rfl⟩)
            · exact ⟨c, t, .inr ⟨fun h => hmc h.symm, hc, hst, ht⟩, rfl⟩
            · exact ⟨m, n, .inl ⟨rfl, hn, .inl ⟨c, hc, fun h => hmc h.symm, hst⟩⟩, rfl⟩
          · rintro ⟨m', n, ⟨rfl, hn, -⟩ | ⟨-, hc', -, hn⟩, rfl⟩
            · exact .inr ⟨n, hn, rfl⟩
            · obtain rfl := Option.some.inj (hc.symm.trans hc')
              obtain rfl := Option.some.inj (ht.symm.trans hn)
              exact .inl rfl
  case h_2 hc => exact mem_drainModuleLog hs (fun c hc' _ => by simp [hc] at hc') h e

/-! ### What a call leaves in the cache -/

/-- Whatever the cache holds when an operation completes, at the end of the call the addresses of
the operation read through the cache as the flash. -/
def Refreshed (cc : CacheConfig) (s' : FlashApi) (log : List Effect) : Prop :=
  ∀ l₁ d startAddr len l₂, log = l₁ ++ .completed d startAddr len :: l₂ →
    cc.isCacheAddr d startAddr = true → ∀ (c : Cache) (a : Nat), InRange startAddr len a →
      readCached (l₂.foldl (Effect.apply cc) c) (s'.flash d) a = s'.flash d (physAddr a)

/-- The call leaves nothing stale. -/
def Refreshes (pf : Platform) (cc : CacheConfig) (s : FlashApi) (e : Event) : Prop :=
  ∀ s' log, callLog pf s e = some (s', log) → Refreshed cc s' log

/-- The operation `n` of the module `m'`, if it is read through the cache, lies in lines that the
synchronous call on `m` invalidates for its own range. -/
def OwnRangeCovers (cc : CacheConfig) (s : FlashApi) (m : ModuleId) (startAddr len : Nat)
    (m' : ModuleId) (n : OperaInfo) : Prop :=
  cc.isCacheAddr (s.modInfo m').devId n.start = true → ∀ a, InRange n.start n.size a →
    cc.isCacheAddr (s.modInfo m).devId startAddr = true ∧ cc.Clears startAddr len a

/-- The calls that complete only operations whose lines they invalidate. -/
def Event.Invalidates (pf : Platform) (cc : CacheConfig) (s : FlashApi) : Event → Prop
  | .flush polls ans => ∀ m n, (s.allowedCb = false ∨ polls.head? = some true) → ans matches .ok →
      getCurMod s = some m → (s.modInfo m).operaInfo.getLast? = some n →
      cc.isCacheAddr (s.modInfo m).devId n.start = true → 0 < n.size →
        (s.modInfo m).cbFunc = true
  | .erase m startAddr len false polls => checkErase s (s.modInfo m) startAddr len = .ok () →
      ∀ m' n, Drains s m polls m' n → OwnRangeCovers cc s m startAddr len m' n
  | .write m startAddr _ len false polls => checkAccess pf s (s.modInfo m) startAddr len = .ok () →
      ∀ m' n, Drains s m polls m' n → OwnRangeCovers cc s m startAddr len m' n
  | _ => True

/-- A call that returns completes only operations whose lines it invalidates. -/
def CacheGuard (pf : Platform) (cc : CacheConfig) (s : FlashApi) (e : Event) : Prop :=
  ∀ s', step pf s e = some s' → e.Invalidates pf cc s

theorem refreshed_nil (cc : CacheConfig) (s' : FlashApi) : Refreshed cc s' [] := by
  intro l₁ d startAddr len l₂ hlog
  simp at hlog

/-- One invalidation refreshes an address when it clears its line. -/
theorem readCached_cacheInvalid_iff {d : FlashId} {startAddr len a : Nat} {f : Content} :
    (∀ c, readCached (cacheInvalid cc d startAddr len c) f a = f (physAddr a)) ↔
      cc.isCacheAddr d startAddr = true ∧ cc.Clears startAddr len a := by
  unfold cacheInvalid halCacheInvalidate readCached
  constructor
  · intro h
    by_contra hnot
    -- another byte than the one in the flash would stay in the cache
    have hstale := h fun _ => some (f (physAddr a) + 1)
    rw [not_and] at hnot
    cases hc : cc.isCacheAddr d startAddr with
    | false => simp [hc] at hstale
    | true => simp [hc, hnot hc] at hstale
  · rintro ⟨hc, ha⟩ c
    simp [hc, ha]

/-- Operations complete, and one invalidation follows. -/
theorem refreshed_append_iff {d : FlashId} {startAddr len : Nat}
    (hlog : ∀ e ∈ log, ∃ d a n, e = .completed d a n) :
    Refreshed cc s' (log ++ [.cacheInvalid d startAddr len]) ↔
      ∀ d' start size, .completed d' start size ∈ log → cc.isCacheAddr d' start = true →
        ∀ a, InRange start size a →
          cc.isCacheAddr d startAddr = true ∧ cc.Clears startAddr len a := by
  have hfold : ∀ l : List Effect, (∀ e ∈ l, ∃ d a n, e = .completed d a n) → ∀ c,
      (l ++ [Effect.cacheInvalid d startAddr len]).foldl (Effect.apply cc) c =
        cacheInvalid cc d startAddr len c := by
    intro l
    induction l with
    | nil => exact fun _ _ => rfl
    | cons e l ih =>
      intro hl c
      obtain ⟨d', a, n, rfl⟩ := hl e List.mem_cons_self
      exact ih (fun e he => hl e (List.mem_cons_of_mem _ he)) c
  constructor
  · intro h d' start size hmem hcached a ha
    obtain ⟨l₁, l₂, rfl⟩ := List.append_of_mem hmem
    refine (readCached_cacheInvalid_iff (f := s'.flash d')).1 fun c => ?_
    rw [← hfold l₂ (fun e he => hlog e (by simp [he])) c]
    exact h l₁ d' start size _ (by simp) hcached c a ha
  · intro h l₁ d' start size l₂ heq hcached c a ha
    rcases List.eq_nil_or_concat' l₂ with rfl | ⟨l₂, e, rfl⟩
    · exact absurd (List.append_inj' heq rfl).2 (by simp)
    · have heq' : log ++ [.cacheInvalid d startAddr len] =
          (l₁ ++ .completed d' start size :: l₂) ++ [e] := by simpa using heq
      obtain ⟨rfl, he⟩ := List.append_inj' heq' rfl
      obtain rfl := List.singleton_inj.1 he
      rw [hfold l₂ (fun e he => hlog e (by simp [he])) c]
      exact readCached_cacheInvalid_iff.2 (h d' start size (by simp) hcached a ha) c

/-- A synchronous call leaves nothing stale when its own range covers what it drains. -/
theorem syncLog_refreshed_iff (hs : Wf s) {op : Op} {startAddr len : Nat} {polls : List Bool}
    (h : syncLog pf s m op startAddr len polls = some (s', log)) :
    Refreshed cc s' log ↔
      ∀ m' n, Drains s m polls m' n → OwnRangeCovers cc s m startAddr len m' n := by
  unfold syncLog at h
  split at h
  · cases h
  case h_2 s₁ log₁ hdrain =>
    obtain ⟨r, -, heq⟩ := Option.map_eq_some_iff.1 h
    obtain ⟨rfl, rfl⟩ := Prod.mk.inj heq
    have hmem := mem_syncDrainLog hs hdrain
    rw [refreshed_append_iff fun e he => by
      obtain ⟨m', n, -, rfl⟩ := (hmem e).1 he
      exact ⟨_, _, _, rfl⟩]
    constructor
    · exact fun h m' n hd hcached a ha =>
        h _ _ _ ((hmem _).2 ⟨m', n, hd, rfl⟩) hcached a ha
    · intro h d' start size hin hcached a ha
      obtain ⟨m', n, hd, heq⟩ := (hmem _).1 hin
      simp only [FlashApi.completion, Effect.completed.injEq] at heq
      obtain ⟨rfl, rfl, rfl⟩ := heq
      exact h m' n hd hcached a ha

/-- One operation completes in a flush with suspension. -/
theorem refreshed_callbackEffects_iff {mi : ModuleInfo} {n : OperaInfo} :
    Refreshed cc s' (.completed mi.devId n.start n.size :: callbackEffects mi n false) ↔
      (cc.isCacheAddr mi.devId n.start = true → 0 < n.size → mi.cbFunc = true) := by
  unfold callbackEffects
  split_ifs with hcb
  · have hlog : ∀ e ∈ [Effect.completed mi.devId n.start n.size],
        ∃ d a n, e = .completed d a n := by simp
    refine ⟨fun _ _ _ => hcb.2.1, fun _ => (refreshed_append_iff hlog).2 ?_⟩
    intro d' start size hmem hcached a ha
    simp only [List.mem_singleton, Effect.completed.injEq] at hmem
    obtain ⟨rfl, rfl, rfl⟩ := hmem
    exact ⟨hcached, cc.clears_of_inRange ha⟩
  · constructor
    · intro h hcached hsize
      exfalso
      have hread := h [] _ _ _ [] rfl hcached
        (fun _ => some (s'.flash mi.devId (physAddr n.start) + 1)) n.start ⟨le_rfl, by omega⟩
      simp [readCached] at hread
    · intro h l₁ d startAddr len l₂ heq hcached c a ha
      have hlen : l₁ = [] ∧ l₂ = [] := by
        have := congrArg List.length heq
        simp only [List.length_cons, List.length_append, List.length_nil] at this
        exact ⟨List.length_eq_zero_iff.1 (by omega), List.length_eq_zero_iff.1 (by omega)⟩
      obtain ⟨rfl, rfl⟩ := hlen
      obtain ⟨rfl, rfl, rfl⟩ : mi.devId = d ∧ n.start = startAddr ∧ n.size = len := by
        simpa using heq
      have hpos : 0 < n.size := Nat.pos_of_ne_zero fun h0 => by
        have := ha.1
        have := ha.2
        omega
      exact absurd ⟨rfl, h hcached hpos, hpos⟩ hcb

/-- A flush step leaves nothing stale when it completes no cached operation of a module without a
callback. -/
theorem flushLog_refreshed_iff (hs : Wf s) {polls : List Bool} {ans : HalAnswer}
    (h : norflashApiFlushLog pf s polls ans = some (s', log)) :
    Refreshed cc s' log ↔ (Event.flush polls ans).Invalidates pf cc s := by
  unfold norflashApiFlushLog at h
  rw [if_neg (by simp [hs.inited])] at h
  simp only [Event.Invalidates]
  split at h
  · cases h
  case h_2 s₁ polls₁ hpoll =>
    obtain ⟨-, rfl⟩ := Prod.mk.inj (Option.some.inj h)
    obtain ⟨hb, -⟩ | ⟨-, rfl, hcb, rfl⟩ := flushIsAllowed_cases hpoll
    · cases hb
    · exact iff_of_true (refreshed_nil cc s') fun m n hallow => by simp [hcb] at hallow
  case h_3 s₁ polls₁ hpoll =>
    have hs₁ := hs.internals (flushIsAllowed_internal (P := fun _ _ _ => True) hs hpoll)
    obtain ⟨-, rfl, hallow⟩ | ⟨hb, -⟩ := flushIsAllowed_cases hpoll
    · have hallow : s.allowedCb = false ∨ polls.head? = some true :=
        hallow.imp (·.2) fun h => by simp [h.2]
      split at h
      case h_1 hm =>
        obtain ⟨-, rfl⟩ := Prod.mk.inj (Option.some.inj h)
        refine iff_of_true (refreshed_nil cc s') fun m n _ _ hm' => ?_
        exact absurd (hm.symm.trans hm') (by simp)
      case h_2 m hm =>
        have hs₂ := (hs₁.getCurMod_control (P := fun _ _ _ => True) hm).wf hs₁
        have hunique : ∀ {m'}, getCurMod s = some m' → m' = m := fun hm' =>
          (Option.some.inj (hm.symm.trans hm')).symm
        split at h
        · cases h
        case h_2 s₃ more log₃ hflush =>
          obtain ⟨rfl, rfl⟩ := Prod.mk.inj (Option.some.inj h)
          rcases operaFlushLog_cases hs₂ hflush with ⟨-, -, hnil, rfl⟩ |
            ⟨-, -, q, t, k, hq, ⟨rfl, -, rfl⟩ | ⟨cells, rfl, -, -, rfl⟩⟩
          · have hnil : (s.modInfo m).operaInfo = [] := hnil
            refine iff_of_true (refreshed_nil cc _) fun m' n _ _ hm' hn => ?_
            rw [hunique hm', hnil] at hn
            cases hn
          · have hq : (s.modInfo m).operaInfo = q ++ [t] := hq
            refine refreshed_callbackEffects_iff.trans ⟨fun h m' n _ _ hm' hn => ?_, fun h => ?_⟩
            · obtain rfl := hunique hm'
              rw [hq, List.getLast?_concat] at hn
              obtain rfl := Option.some.inj hn
              exact h
            · exact h m t hallow rfl hm (by rw [hq, List.getLast?_concat])
          · exact iff_of_true (refreshed_nil cc _) fun m' n _ hans => by simp at hans
    · cases hb

/-- Exactly the guarded calls leave nothing stale. -/
theorem refreshes_iff (hs : Wf s) (e : Event) : Refreshes pf cc s e ↔ CacheGuard pf cc s e := by
  have hcall : ∀ {Q : Prop}, (∀ s' log, callLog pf s e = some (s', log) →
      (Refreshed cc s' log ↔ Q)) → (Q ↔ e.Invalidates pf cc s) →
      (Refreshes pf cc s e ↔ CacheGuard pf cc s e) := by
    intro Q h hQ
    unfold Refreshes CacheGuard
    rw [← callLog_fst]
    constructor
    · intro hr s' hs'
      obtain ⟨⟨s₁, log⟩, hlog, rfl⟩ := Option.map_eq_some_iff.1 hs'
      exact hQ.1 ((h s₁ log hlog).1 (hr s₁ log hlog))
    · intro hg s' log hlog
      exact (h s' log hlog).2 (hQ.2 (hg s' (by rw [hlog]; rfl)))
  have hplain : callLog pf s e = (step pf s e).map (fun s' => (s', [])) →
      e.Invalidates pf cc s → (Refreshes pf cc s e ↔ CacheGuard pf cc s e) := by
    intro heq hinv
    refine hcall (Q := True) (fun s' log hlog => iff_of_true ?_ trivial) (iff_of_true trivial hinv)
    rw [heq] at hlog
    obtain ⟨s₁, -, hs₁⟩ := Option.map_eq_some_iff.1 hlog
    obtain ⟨rfl, rfl⟩ := Prod.mk.inj hs₁
    exact refreshed_nil cc s₁
  cases e with
  | register => exact hplain rfl trivial
  | flushDisable => exact hplain rfl trivial
  | flushEnable => exact hplain rfl trivial
  | flush polls ans => exact hcall (fun s' log hlog => flushLog_refreshed_iff hs hlog) Iff.rfl
  | erase m startAddr len async polls =>
    cases async with
    | true => exact hplain rfl trivial
    | false =>
      cases hchk : checkErase s (s.modInfo m) startAddr len with
      | error r =>
        refine hcall (Q := True) (fun s' log hlog => iff_of_true ?_ trivial) ?_
        · simp only [callLog, hchk, Option.some.injEq, Prod.mk.injEq] at hlog
          obtain ⟨rfl, rfl⟩ := hlog
          exact refreshed_nil cc s
        · exact iff_of_true trivial fun h => absurd (hchk.symm.trans h) (by simp)
      | ok =>
        refine hcall (fun s' log hlog => ?_) ⟨fun h _ => h, fun h => h hchk⟩
        simp only [callLog, hchk] at hlog
        exact syncLog_refreshed_iff hs hlog
  | write m startAddr buffer len async polls =>
    cases async with
    | true => exact hplain rfl trivial
    | false =>
      cases hchk : checkAccess pf s (s.modInfo m) startAddr len with
      | error r =>
        refine hcall (Q := True) (fun s' log hlog => iff_of_true ?_ trivial) ?_
        · simp only [callLog, hchk, Option.some.injEq, Prod.mk.injEq] at hlog
          obtain ⟨rfl, rfl⟩ := hlog
          exact refreshed_nil cc s
        · exact iff_of_true trivial fun h => absurd (hchk.symm.trans h) (by simp)
      | ok =>
        refine hcall (fun s' log hlog => ?_) ⟨fun h _ => h, fun h => h hchk⟩
        simp only [callLog, hchk] at hlog
        exact syncLog_refreshed_iff hs hlog

/-- In a run every call leaves nothing stale exactly when every call completes only operations whose
lines it invalidates. -/
theorem refreshes_run_iff (pf : Platform) (cc : CacheConfig) (flash : FlashId → Content)
    (es : List Event) :
    Transition.Along (step pf) (Refreshes pf cc) (init pf flash) es ↔
      Transition.Along (step pf) (CacheGuard pf cc) (init pf flash) es :=
  Transition.along_iff_of_invariant (I := Wf) (fun _ e hs => refreshes_iff hs e)
    (fun _ _ _ hs _ h => hs.step h) (wf_init pf flash) es

/-! ### A run that leaves a stale byte -/

/-- The cache windows of the board, with four ways of 4 KiB. -/
def boardCache : CacheConfig where
  flashBase := fun
    | .id0 => 0x2C000000
    | .id1 => 0x34000000
  lineSize := 0x20
  maxLen := 0xFE0

/-- A module with a callback has a write queued. -/
def cachedWrite : List Event :=
  [.register .userdata .id0 0x2C700000 0x20000 0x8000 0x1000 0x100 0x2000 true,
    .write .userdata 0x2C700000 (fun _ => 0) 4 true []]

/-- The synchronous write to another sector. -/
def otherSector : Event := .write .userdata 0x2C701000 (fun _ => 0) 1 false []

/-- The queued write completes in the synchronous one, and its lines stay in the cache. -/
theorem not_refreshes_cachedWrite :
    ¬Transition.Along (step board) (Refreshes board boardCache) (init board fun _ _ => 0xFF)
      (cachedWrite ++ [otherSector]) := by
  intro h
  have hend : ((cachedWrite.foldlM (step board) (init board fun _ _ => 0xFF)).bind fun s =>
      (callLog board s otherSector).map Prod.snd) =
        some [.completed .id0 0x2C700000 4, .cacheInvalid .id0 0x2C701000 1] := by decide +kernel
  obtain ⟨s, hrun, hcall⟩ := Option.bind_eq_some_iff.1 hend
  obtain ⟨⟨s', log⟩, hlog, rfl⟩ := Option.map_eq_some_iff.1 hcall
  obtain ⟨hrefreshes, -⟩ := (Transition.along_append.1 h).2 s hrun
  have hread : ∀ c, readCached (cacheInvalid boardCache .id0 0x2C701000 1 c) (s'.flash .id0)
      0x2C700000 = s'.flash .id0 (physAddr 0x2C700000) := fun c =>
    hrefreshes s' _ hlog [] .id0 0x2C700000 4 _ rfl rfl c 0x2C700000 (by decide)
  exact absurd (readCached_cacheInvalid_iff.1 hread).2 (by decide)

end EarbudFirmware.Norflash
