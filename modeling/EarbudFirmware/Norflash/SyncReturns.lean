import EarbudFirmware.Norflash.AppFlash
import EarbudFirmware.Norflash.EraseKept
import EarbudFirmware.Norflash.Sync

/-!
# Flash service: synchronous calls come to an end

While no callback can refuse a flush, each round of the loops of a synchronous call completes an
operation, so the call reaches the flash.

## Main results

* `Sound.exists_syncDrain` — the loops of a synchronous call come to an end
-/

namespace EarbudFirmware.Norflash

open NorMemory (Op)

variable {pf : Platform} {s : FlashApi} {m : ModuleId} {lay : Layout pf} {r : Region pf}

/-- No module but `m` has a current operation. -/
def AloneBusy (s : FlashApi) (m : ModuleId) : Prop :=
  ∀ m', m' ≠ m → (s.modInfo m').curOperaInfo = none

/-- A device holds a suspended operation only of a module with a current operation. -/
theorem Wf.suspendState_of_alone (hs : Wf s) (halone : AloneBusy s m)
    (hcur : (s.modInfo m).curOperaInfo = none) (d : FlashId) : s.suspendState d = false := by
  cases hsusp : s.suspendState d with
  | false => rfl
  | true =>
    obtain ⟨m', -, hne⟩ := (hs.suspendState d).1 hsusp
    by_cases hm : m' = m
    · exact absurd (hm ▸ hcur) hne
    · exact absurd (halone m' hm) hne

/-- Without suspension, the HAL completes an accepted operation. -/
theorem flushCall_nosuspend (pf : Platform) {n : OperaInfo}
    (hn : n.Accepted (pf.totalSize (s.modInfo m).devId))
    (hstate : (s.modInfo m).state = .idle ∧ s.suspendState (s.modInfo m).devId = false ∨
      (s.modInfo m).state = n.suspendedState ∧ s.suspendState (s.modInfo m).devId = true) :
    ∃ s' ret, flushCall pf s m n false .ok = some (s', ret) ∧ (ret = .ok ∨ ret = .suspended) :=
  @flushCall_isSome { pf with flashSuspend := false } s m n .ok trivial hn hstate

/-- A flush without suspension fails no assertion. -/
theorem Sound.operaFlush_nosuspend (hs : Sound lay s) (hr : lay.region m = some r)
    (hreg : (s.modInfo m).isRegistered = true) (halone : AloneBusy s m) :
    ∃ res, operaFlush pf s m true .ok = some res := by
  have hmat := hs.matches_region hr hreg
  have hall : ∀ n ∈ (s.modInfo m).operaInfo, n.Accepted (pf.totalSize (s.modInfo m).devId) :=
    fun n hn => hmat.devId ▸ (hs.placed m r hr n hn).accepted
  have hnodup := hs.wf.slots_nodup m
  unfold operaFlush
  rcases hs.wf.lock m with hidle | ⟨q, t, hbusy⟩
  · have hfree := hs.wf.suspendState_of_alone halone hidle.cur (s.modInfo m).devId
    rw [if_pos hidle.cur]
    rcases List.eq_nil_or_concat' (s.modInfo m).operaInfo with hnil | ⟨q, t, hq⟩
    · rw [ModuleInfo.getTail_of_nil hnil hidle.cur]
      simp [flushCur, FlashApi.setModule, hidle.cur]
    · rw [hq] at hnodup hall
      obtain ⟨u, hu⟩ : ∃ u, u = s.setModule m (s.modInfo m).getTail := ⟨_, rfl⟩
      have hmod : u.modInfo m = (s.modInfo m).getTail := by
        rw [hu]
        exact Function.update_self _ _ _
      have hqu : (u.modInfo m).operaInfo = q ++ [{ t with lock := true }] := by
        simp [hmod, ModuleInfo.getTail, hq]
      have hcuru : (u.modInfo m).curOperaInfo = some t.slot := by
        simp [hmod, ModuleInfo.getTail, hq]
      have hstate : (u.modInfo m).state = .idle := by
        rw [hmod, ModuleInfo.getTail, hidle.state, if_pos hreg]
      have hdel : operaDel (q ++ [{ t with lock := true }]) t.slot =
          some (q, { t with lock := true }) :=
        operaDel_append (q := q) (t := { t with lock := true }) (by simpa using hnodup)
      obtain ⟨v, ret, hcall, hret⟩ := flushCall_nosuspend pf (s := u) (m := m)
        (n := { t with lock := true }) (by rw [hmod]; exact hall t (by simp))
        (.inl ⟨hstate, by simpa [hmod, ModuleInfo.getTail, hu, FlashApi.setModule] using hfree⟩)
      rw [← hu]
      rcases hret with rfl | rfl <;> simp [flushCur, hcuru, hqu, hdel, hcall]
  · have hheld : s.suspendState (s.modInfo m).devId = true :=
      (hs.wf.suspendState _).2 ⟨m, rfl, by simp [hbusy.cur]⟩
    rw [if_neg (by simp [hbusy.cur])]
    rw [hbusy.queue] at hnodup hall
    obtain ⟨v, ret, hcall, hret⟩ := flushCall_nosuspend pf (hall t (by simp))
      (.inr ⟨hbusy.state, hheld⟩)
    rcases hret with rfl | rfl <;>
      simp [flushCur, hbusy.cur, hbusy.queue, operaDel_append hnodup, hcall]

/-- No callback is asked. -/
theorem flushIsAllowed_of_enabled (hcb : s.allowedCb = false) (polls : List Bool) :
    flushIsAllowed s polls = some (true, s, polls) := by
  simp [flushIsAllowed, hcb]

/-- The loop over the queue of the module ends, one round for each operation. -/
theorem Sound.exists_drainModule (hs : Sound lay s) (hr : lay.region m = some r)
    (hreg : (s.modInfo m).isRegistered = true) (halone : AloneBusy s m)
    (hcb : s.allowedCb = false) {fuel : Nat} (hfuel : (s.modInfo m).operaInfo.length < fuel)
    (polls : List Bool) (b : Bool) :
    ∃ t, drainModule pf m fuel s polls b = some t ∧ t.allowedCb = false := by
  induction fuel generalizing s b with
  | zero => exact absurd hfuel (Nat.not_lt_zero _)
  | succ fuel ih =>
    obtain ⟨⟨t, more, res⟩, hflush⟩ := hs.operaFlush_nosuspend hr hreg halone
    rw [drainModule, flushIsAllowed_of_enabled hcb]
    simp only [hflush]
    rcases operaFlush_cases hs.wf hflush with ⟨rfl, rfl, -⟩ |
      ⟨rfl, hfree, q, t', k, hq, ⟨-, rfl⟩ | ⟨_, hans, -⟩⟩
    · exact ⟨t, rfl, hcb⟩
    · have hlen : q.length < fuel := by
        rw [hq, List.length_append, List.length_singleton] at hfuel
        omega
      rw [if_pos rfl]
      refine ih (hs.internal (P := Op.Partial) (.complete hq hfree k)) ?_ (fun m' hm => ?_) hcb ?_ _
      · simpa [FlashApi.completeTail] using hreg
      · simpa [FlashApi.completeTail, Function.update_of_ne hm] using halone m' hm
      · simpa [FlashApi.completeTail] using hlen
    · cases hans

/-- The loop over the current module ends after one flush. -/
theorem Sound.exists_drainCurMod (hs : Sound lay s) {c : ModuleId} (hc : s.curMod = some c)
    (hcb : s.allowedCb = false) (fuel : Nat) (polls : List Bool) (b : Bool) :
    ∃ out, drainCurMod pf c (fuel + 2) s polls b = some out ∧ out.1.allowedCb = false := by
  have hreg := hs.wf.curMod_registered c hc
  obtain ⟨r', hr', -⟩ := hs.region c hreg
  have halone : AloneBusy s c := fun m' hm => by
    by_contra hne
    exact hm (Option.some.inj ((hs.wf.busy_curMod m' hne).symm.trans hc))
  rw [drainCurMod]
  split
  · exact ⟨_, rfl, hcb⟩
  · case isFalse hst =>
    obtain ⟨⟨t, more, res⟩, hflush⟩ := hs.operaFlush_nosuspend hr' hreg halone
    simp only [flushIsAllowed_of_enabled hcb, hflush]
    rcases operaFlush_cases hs.wf hflush with ⟨rfl, rfl, -, hcur⟩ |
      ⟨rfl, hfree, q, t', k, hq, ⟨-, rfl⟩ | ⟨_, hans, -⟩⟩
    · exact absurd ((hs.wf.state_eq_idle_iff hreg).2 hcur) hst
    · rw [if_pos rfl, drainCurMod, if_pos (by simp [FlashApi.completeTail])]
      exact ⟨_, rfl, hcb⟩
    · cases hans

/-- The loops of a synchronous call come to an end. -/
theorem Sound.exists_syncDrain (hs : Sound lay s) (hr : lay.region m = some r)
    (hreg : (s.modInfo m).isRegistered = true) (hcb : s.allowedCb = false) (polls : List Bool) :
    ∃ t, syncDrain pf s m polls = some t ∧ t.allowedCb = false := by
  unfold syncDrain
  simp only
  cases hc : s.curMod with
  | none =>
    refine hs.exists_drainModule hr hreg (fun m' _ => ?_) hcb (by omega) polls false
    by_contra hne
    cases (hs.wf.busy_curMod m' hne).symm.trans hc
  | some c =>
    simp only
    split
    · case isTrue hmc =>
      refine hs.exists_drainModule hr hreg (fun m' hm => ?_) hcb (by omega) polls false
      by_contra hne
      exact hm ((Option.some.inj ((hs.wf.busy_curMod m' hne).symm.trans hc)).trans hmc.symm)
    · case isFalse hmc =>
      obtain ⟨⟨t, polls', b⟩, hdrain, hcb'⟩ := hs.exists_drainCurMod hc hcb
        (polls.length + (s.modInfo m).operaInfo.length) polls false
      obtain ⟨hidle, hother, -⟩ := drainCurMod_spec hs.wf hc hdrain
      have hint := drainCurMod_internal (P := Op.Partial) hs.wf hc hdrain
      have ht := hs.internals hint
      have hregc : (t.modInfo c).isRegistered = true := by
        rw [internals_isRegistered hint]
        exact hs.wf.curMod_registered c hc
      have hqueue : (t.modInfo m).operaInfo = (s.modInfo m).operaInfo := by
        rw [hother m hmc]
      simp only [hdrain]
      refine ht.exists_drainModule hr (by rw [hother m hmc, hreg]) (fun m' _ => ?_) hcb'
        (by rw [hqueue]; omega) polls' b
      by_cases hm' : m' = c
      · subst hm'
        exact (ht.wf.state_eq_idle_iff hregc).1 hidle
      · rw [hother m' hm']
        by_contra hne
        exact hm' (Option.some.inj ((hs.wf.busy_curMod m' hne).symm.trans hc))

end EarbudFirmware.Norflash
