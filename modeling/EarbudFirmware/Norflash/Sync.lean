import EarbudFirmware.Lib.Transition
import EarbudFirmware.Norflash.Steps

/-!
# Flash service: synchronous calls

A synchronous call drains the queue of its module before it calls the HAL. The drain loop polls the
flush-allowed callback with `continue` inside `do … while(bresult)`: when the first poll is refused,
`bresult` is still zero and the loop ends with the queue untouched.

## Main definitions

* `SyncCall` — a synchronous write or erase
* `SyncCall.issueState` — the state in which it calls the HAL
* `Drained` — the queue of the module is empty and nothing is suspended

## Main results

* `SyncCall.call_eq` — a synchronous call is its HAL call, made in `issueState`
* `SyncCall.drained_iff` — exactly when the queue has been drained
-/

namespace EarbudFirmware.Norflash

open NorMemory (Op)
open Transition (Reachable)

variable {pf : Platform} {s s' : FlashApi} {m : ModuleId}

/-! ### What the drain loops leave -/

/-- The module is in one of the two suspended states. -/
def ModuleInfo.Suspended (mi : ModuleInfo) : Prop :=
  mi.state = .writtingSuspend ∨ mi.state = .eraseSuspend

theorem OperaInfo.suspendedState_cases (t : OperaInfo) :
    t.suspendedState = .writtingSuspend ∨ t.suspendedState = .eraseSuspend := by
  unfold OperaInfo.suspendedState
  split <;> simp

/-- A module is suspended while it has a current operation. -/
theorem Wf.suspended_iff (hs : Wf s) (m : ModuleId) :
    (s.modInfo m).Suspended ↔ (s.modInfo m).curOperaInfo ≠ none := by
  rcases hs.lock m with hidle | ⟨q, t, hbusy⟩
  · simp only [ModuleInfo.Suspended, hidle.state, hidle.cur]
    cases (s.modInfo m).isRegistered <;> simp
  · simp only [ModuleInfo.Suspended, hbusy.state, hbusy.cur]
    simpa using t.suspendedState_cases

theorem Wf.state_eq_idle_iff (hs : Wf s) (hreg : (s.modInfo m).isRegistered = true) :
    (s.modInfo m).state = .idle ↔ (s.modInfo m).curOperaInfo = none := by
  rcases hs.lock m with hidle | ⟨q, t, hbusy⟩
  · simp [hidle.state, hidle.cur, hreg]
  · simp [hbusy.state, hbusy.cur, t.suspendedState_ne_idle]

/-- A module whose queue is empty has no current operation. -/
theorem Wf.cur_eq_none_of_nil (hs : Wf s) (h : (s.modInfo m).operaInfo = []) :
    (s.modInfo m).curOperaInfo = none := by
  rcases hs.lock m with hidle | ⟨q, t, hbusy⟩
  · exact hidle.cur
  · simp [hbusy.queue] at h

/-- The loop over the queue of `m` touches no other module. -/
theorem drainModule_modInfo_of_ne (hs : Wf s) {fuel : Nat} {polls : List Bool} {b : Bool}
    (h : drainModule pf m fuel s polls b = some s') {m' : ModuleId} (hm : m' ≠ m) :
    s'.modInfo m' = s.modInfo m' := by
  induction fuel generalizing s polls b with
  | zero => cases h
  | succ fuel ih =>
    unfold drainModule at h
    split at h
    · cases h
    case h_2 s₁ _ hpoll =>
      obtain ⟨hb, -⟩ | ⟨-, rfl, -⟩ := flushIsAllowed_cases hpoll
      · cases hb
      · split_ifs at h
        · exact ih hs h
        · exact Option.some.inj h ▸ rfl
    case h_3 s₁ _ hpoll =>
      have hs₁ := hs.internals (flushIsAllowed_internal (P := fun _ _ _ => True) hs hpoll)
      obtain ⟨-, rfl, -⟩ | ⟨hb, -⟩ := flushIsAllowed_cases hpoll
      · split at h
        · cases h
        case h_2 s₂ b' _ hflush =>
          rcases operaFlush_cases hs₁ hflush with ⟨rfl, rfl, -⟩ |
            ⟨rfl, hfree, q, t, k, hq, ⟨-, rfl⟩ | ⟨_, hans, -⟩⟩
          · exact Option.some.inj h ▸ rfl
          · rw [ih (hs₁.completeTail hq hfree k) h]
            exact Function.update_of_ne hm _ _
          · cases hans
      · cases hb

/-- Once the callback does not refuse any more, the loop empties the queue. -/
theorem drainModule_queue (hs : Wf s) (hcb : s.allowedCb = false) {fuel : Nat}
    {polls : List Bool} {b : Bool} (h : drainModule pf m fuel s polls b = some s') :
    (s'.modInfo m).operaInfo = [] := by
  induction fuel generalizing s polls b with
  | zero => cases h
  | succ fuel ih =>
    unfold drainModule at h
    split at h
    · cases h
    case h_2 s₁ _ hpoll =>
      obtain ⟨hb, -⟩ | ⟨-, -, htrue, -⟩ := flushIsAllowed_cases hpoll
      · cases hb
      · rw [hcb] at htrue
        cases htrue
    case h_3 s₁ _ hpoll =>
      have hs₁ := hs.internals (flushIsAllowed_internal (P := fun _ _ _ => True) hs hpoll)
      obtain ⟨-, rfl, -⟩ | ⟨hb, -⟩ := flushIsAllowed_cases hpoll
      · split at h
        · cases h
        case h_2 s₂ b' _ hflush =>
          rcases operaFlush_cases hs₁ hflush with ⟨rfl, rfl, hnil, -⟩ |
            ⟨rfl, hfree, q, t, k, hq, ⟨-, rfl⟩ | ⟨_, hans, -⟩⟩
          · exact Option.some.inj h ▸ hnil
          · exact ih (hs₁.completeTail hq hfree k) rfl h
          · cases hans
      · cases hb

/-- The first poll decides: when it is allowed the queue is emptied, when it is refused the loop
ends at once. -/
theorem drainModule_first (hs : Wf s) {fuel : Nat} {polls : List Bool}
    (h : drainModule pf m (fuel + 1) s polls false = some s') :
    ((s.allowedCb = false ∨ polls.head? = some true) ∧ (s'.modInfo m).operaInfo = []) ∨
      (s.allowedCb = true ∧ polls.head? = some false ∧ s' = s) := by
  unfold drainModule at h
  split at h
  · cases h
  case h_2 s₁ _ hpoll =>
    obtain ⟨hb, -⟩ | ⟨-, rfl, hcb, rfl⟩ := flushIsAllowed_cases hpoll
    · cases hb
    · exact .inr ⟨hcb, rfl, (Option.some.inj h).symm⟩
  case h_3 s₁ polls' hpoll =>
    have hs₁ := hs.internals (flushIsAllowed_internal (P := fun _ _ _ => True) hs hpoll)
    obtain ⟨-, rfl, hcb⟩ | ⟨hb, -⟩ := flushIsAllowed_cases hpoll
    · refine .inl ⟨hcb.imp (·.2) fun h => by simp [h.2], ?_⟩
      have hrest : drainModule pf m (fuel + 1) { s with allowedCb := false } polls' false =
          some s' := by
        unfold drainModule
        simpa [flushIsAllowed] using h
      exact drainModule_queue hs₁ rfl hrest
    · cases hb

/-- The loop over the current module leaves it idle. When it had something to do, the callback has
agreed. -/
theorem drainCurMod_spec {c : ModuleId} (hs : Wf s) (hc : s.curMod = some c) {fuel : Nat}
    {polls polls' : List Bool} {b b' : Bool}
    (h : drainCurMod pf c fuel s polls b = some (s', polls', b')) :
    (s'.modInfo c).state = .idle ∧ (∀ m, m ≠ c → s'.modInfo m = s.modInfo m) ∧
      ((s.modInfo c).state = .idle ∧ s' = s ∧ polls' = polls ∧ b' = b ∨
        (s.modInfo c).state ≠ .idle ∧ s'.allowedCb = false) := by
  induction fuel generalizing s polls b with
  | zero => cases h
  | succ fuel ih =>
    unfold drainCurMod at h
    split_ifs at h with hst
    · simp only [Option.some.injEq, Prod.mk.injEq] at h
      obtain ⟨rfl, rfl, rfl⟩ := h
      exact ⟨hst, fun _ _ => rfl, .inl ⟨hst, rfl, rfl, rfl⟩⟩
    · split at h
      · cases h
      case h_2 s₁ _ hpoll =>
        obtain ⟨hb, -⟩ | ⟨-, rfl, -⟩ := flushIsAllowed_cases hpoll
        · cases hb
        · obtain ⟨hidle, hother, hrest⟩ := ih hs hc h
          exact ⟨hidle, hother, hrest.imp (fun h => absurd h.1 hst) id⟩
      case h_3 s₁ _ hpoll =>
        have hs₁ := hs.internals (flushIsAllowed_internal (P := fun _ _ _ => True) hs hpoll)
        obtain ⟨-, rfl, -⟩ | ⟨hb, -⟩ := flushIsAllowed_cases hpoll
        · split at h
          · cases h
          case h_2 s₂ b₂ _ hflush =>
            rcases operaFlush_cases hs₁ hflush with ⟨rfl, rfl, -, hcur⟩ |
              ⟨rfl, hfree, q, t, k, hq, ⟨-, rfl⟩ | ⟨_, hans, -⟩⟩
            · exact absurd ((hs.state_eq_idle_iff (hs.curMod_registered c hc)).2 hcur) hst
            · have hs₂ := hs₁.completeTail hq hfree k
              obtain ⟨hidle, hother, hrest⟩ := ih hs₂ hc h
              refine ⟨hidle, fun m hm => ?_, .inr ⟨hst, ?_⟩⟩
              · rw [hother m hm]
                exact Function.update_of_ne hm _ _
              · rcases hrest with ⟨-, rfl, -⟩ | ⟨-, hcb⟩
                · rfl
                · exact hcb
            · cases hans
        · cases hb

/-! ### The loops do not run out of rounds -/

/-- Every round of the loop consumes a refusal or a queued operation. -/
theorem drainModule_fuel (hs : Wf s) {fuel : Nat} {polls : List Bool} {b : Bool}
    (h : polls.length + (s.modInfo m).operaInfo.length < fuel) :
    drainModule pf m (fuel + 1) s polls b = drainModule pf m fuel s polls b := by
  induction fuel generalizing s polls b with
  | zero => simp at h
  | succ fuel ih =>
    rw [drainModule, drainModule]
    cases hpoll : flushIsAllowed s polls with
    | none => rfl
    | some r =>
      obtain ⟨ok, s₁, polls₁⟩ := r
      have hs₁ := hs.internals (flushIsAllowed_internal (P := fun _ _ _ => True) hs hpoll)
      cases ok with
      | false =>
        obtain ⟨hb, -⟩ | ⟨-, rfl, -, rfl⟩ := flushIsAllowed_cases hpoll
        · cases hb
        · simp only [List.length_cons] at h
          have hlt : polls₁.length + (s₁.modInfo m).operaInfo.length < fuel := by omega
          simp only [ih hs hlt]
      | true =>
        obtain ⟨-, rfl, hpolls⟩ | ⟨hb, -⟩ := flushIsAllowed_cases hpoll
        · have hle : polls₁.length ≤ polls.length := by
            rcases hpolls with ⟨rfl, -⟩ | ⟨-, rfl⟩ <;> simp
          cases hflush : operaFlush pf { s with allowedCb := false } m true .ok with
          | none => simp only [hflush]
          | some r =>
            obtain ⟨s₂, b₂, res⟩ := r
            rcases operaFlush_cases hs₁ hflush with ⟨rfl, rfl, -⟩ |
              ⟨rfl, hfree, q, t, k, hq, ⟨-, rfl⟩ | ⟨_, hans, -⟩⟩
            · simp [hflush]
            · have hlen : (s.modInfo m).operaInfo.length = q.length + 1 := by
                have hq : (s.modInfo m).operaInfo = q ++ [t] := hq
                simp [hq]
              simp only [hflush, if_true]
              refine ih (hs₁.completeTail hq hfree k) ?_
              simp only [FlashApi.completeTail, Function.update_self]
              omega
            · cases hans
        · cases hb

/-- The loop over the current module polls until the callback agrees, and flushes once. -/
theorem drainCurMod_fuel {c : ModuleId} (hs : Wf s) (hc : s.curMod = some c) {fuel : Nat}
    {polls : List Bool} {b : Bool} (h : polls.length + 1 < fuel) :
    drainCurMod pf c (fuel + 1) s polls b = drainCurMod pf c fuel s polls b := by
  induction fuel generalizing s polls b with
  | zero => simp at h
  | succ fuel ih =>
    rw [drainCurMod, drainCurMod]
    split_ifs with hst
    · rfl
    · cases hpoll : flushIsAllowed s polls with
      | none => rfl
      | some r =>
        obtain ⟨ok, s₁, polls₁⟩ := r
        have hs₁ := hs.internals (flushIsAllowed_internal (P := fun _ _ _ => True) hs hpoll)
        cases ok with
        | false =>
          obtain ⟨hb, -⟩ | ⟨-, rfl, -, rfl⟩ := flushIsAllowed_cases hpoll
          · cases hb
          · simp only [List.length_cons] at h
            have hlt : polls₁.length + 1 < fuel := by omega
            simp only [ih hs hc hlt]
        | true =>
          obtain ⟨-, rfl, hpolls⟩ | ⟨hb, -⟩ := flushIsAllowed_cases hpoll
          · cases hflush : operaFlush pf { s with allowedCb := false } c true .ok with
            | none => simp only [hflush]
            | some r =>
              obtain ⟨s₂, b₂, res⟩ := r
              rcases operaFlush_cases hs₁ hflush with ⟨rfl, rfl, -, hcur⟩ |
                ⟨rfl, hfree, q, t, k, hq, ⟨-, rfl⟩ | ⟨_, hans, -⟩⟩
              · exact absurd ((hs.state_eq_idle_iff (hs.curMod_registered c hc)).2 hcur) hst
              · -- the flush completed the operation, so the next test ends the loop
                obtain ⟨fuel, rfl⟩ : ∃ k, fuel = k + 1 := ⟨fuel - 1, by omega⟩
                simp only [hflush, if_true]
                rw [drainCurMod, drainCurMod]
                simp [FlashApi.completeTail]
              · cases hans
          · cases hb

/-! ### The state in which the HAL is called -/

/-- A synchronous call: a write of `data`, or an erase when there are none, with the answers that
the flush-allowed callback is going to give. -/
structure SyncCall where
  m : ModuleId
  startAddr : Nat
  len : Nat
  data : Option (Nat → UInt8)
  polls : List Bool

namespace SyncCall

/-- The call of the interface. -/
def event (c : SyncCall) : Event :=
  match c.data with
  | some buffer => .write c.m c.startAddr buffer c.len false c.polls
  | none => .erase c.m c.startAddr c.len false c.polls

/-- The argument checks of the call. -/
def check (pf : Platform) (s : FlashApi) (c : SyncCall) : Except ApiRet Unit :=
  match c.data with
  | some _ => checkAccess pf s (s.modInfo c.m) c.startAddr c.len
  | none => checkErase s (s.modInfo c.m) c.startAddr c.len

/-- The operation on the flash. -/
def op (c : SyncCall) : Op :=
  match c.data with
  | some buffer => .program (physAddr c.startAddr) c.len buffer
  | none => .erase (physAddr c.startAddr) c.len

/-- The state in which the call issues `hal_norflash_write` or `hal_norflash_erase`; `none` when its
arguments are rejected or while it is still polling the callback. -/
def issueState (pf : Platform) (s : FlashApi) (c : SyncCall) : Option FlashApi :=
  match c.check pf s with
  | .ok () => syncDrain pf s c.m c.polls
  | .error _ => none

/-- An accepted synchronous call is its HAL call, made in the state `issueState`. -/
theorem call_eq {c : SyncCall} (hc : c.check pf s = .ok ()) :
    call pf s c.event = (c.issueState pf s).bind fun s₁ =>
      (halIssue pf s₁ (s.modInfo c.m).devId c.op c.startAddr c.len false .ok).map fun r =>
        (r.1, r.2.toApiRet) := by
  obtain ⟨m, addr, len, data, polls⟩ := c
  cases data with
  | none =>
    simp only [check] at hc
    simp only [event, call, norflashApiErase, issueState, check, op, hc]
    cases syncDrain pf s m polls <;> simp [Option.map_eq_bind]
  | some buffer =>
    simp only [check] at hc
    simp only [event, call, norflashApiWrite, issueState, check, op, hc]
    cases syncDrain pf s m polls <;> simp [Option.map_eq_bind]

end SyncCall

/-- The queue of `m` is empty and no operation is suspended on any module. -/
def Drained (s : FlashApi) (m : ModuleId) : Prop :=
  (s.modInfo m).operaInfo = [] ∧ ∀ m', ¬(s.modInfo m').Suspended

/-- The drain loops of a call on `m` do their work: an operation of another module is suspended, or
the first poll of the callback is not refused, or there is nothing queued. -/
def DrainsQueue (s : FlashApi) (m : ModuleId) (polls : List Bool) : Prop :=
  (∃ c, s.curMod = some c ∧ c ≠ m ∧ (s.modInfo c).state ≠ .idle) ∨
    (s.allowedCb = false ∨ polls.head? = some true) ∨ (s.modInfo m).operaInfo = []

/-- After the loops, no module but `m` is suspended. -/
theorem syncDrain_cur_eq_none (hs : Wf s) {polls : List Bool}
    (h : syncDrain pf s m polls = some s') {m' : ModuleId} (hm : m' ≠ m) :
    (s'.modInfo m').curOperaInfo = none := by
  unfold syncDrain at h
  simp only at h
  split at h
  case h_1 c hc =>
    split_ifs at h with hmc
    · rw [drainModule_modInfo_of_ne hs h hm]
      by_contra hne
      have := hs.busy_curMod m' hne
      rw [hc, Option.some.injEq] at this
      exact hm (this.symm.trans hmc.symm)
    · split at h
      · cases h
      case h_2 s₁ _ _ hcur =>
        have hs₁ := hs.internals (drainCurMod_internal (P := fun _ _ _ => True) hs hc hcur)
        obtain ⟨hidle, hother, -⟩ := drainCurMod_spec hs hc hcur
        rw [drainModule_modInfo_of_ne hs₁ h hm]
        by_cases hm' : m' = c
        · subst hm'
          have hreg : (s₁.modInfo m').isRegistered = true := by
            by_contra hreg
            rcases hs₁.lock m' with hi | ⟨q, t, hbusy⟩
            · simp [hi.state, hreg] at hidle
            · exact hreg hbusy.registered
          exact (hs₁.state_eq_idle_iff hreg).1 hidle
        · rw [hother m' hm']
          by_contra hne
          have := hs.busy_curMod m' hne
          rw [hc, Option.some.injEq] at this
          exact hm' this.symm
  case h_2 hc =>
    rw [drainModule_modInfo_of_ne hs h hm]
    by_contra hne
    have := hs.busy_curMod m' hne
    rw [hc] at this
    cases this

/-- The queue of the module is empty at the end of the loops exactly when they did their work. -/
theorem syncDrain_queue_iff (hs : Wf s) {polls : List Bool}
    (h : syncDrain pf s m polls = some s') :
    (s'.modInfo m).operaInfo = [] ↔ DrainsQueue s m polls := by
  unfold syncDrain at h
  simp only at h
  split at h
  case h_1 c hc =>
    split_ifs at h with hmc
    · subst hmc
      rcases drainModule_first hs h with ⟨hallow, hnil⟩ | ⟨hcb, hhead, rfl⟩
      · exact ⟨fun _ => .inr (.inl hallow), fun _ => hnil⟩
      · simp [DrainsQueue, hc, hcb, hhead]
    · split at h
      · cases h
      case h_2 s₁ polls₁ b₁ hcur =>
        have hs₁ := hs.internals (drainCurMod_internal (P := fun _ _ _ => True) hs hc hcur)
        obtain ⟨-, -, ⟨hidle, rfl, rfl, rfl⟩ | ⟨hne, hcb⟩⟩ := drainCurMod_spec hs hc hcur
        · rcases drainModule_first hs h with ⟨hallow, hnil⟩ | ⟨hcb, hhead, rfl⟩
          · exact ⟨fun _ => .inr (.inl hallow), fun _ => hnil⟩
          · simp [DrainsQueue, hc, hcb, hhead, hidle]
        · exact ⟨fun _ => .inl ⟨c, hc, fun h => hmc h.symm, hne⟩,
            fun _ => drainModule_queue hs₁ hcb h⟩
  case h_2 hc =>
    rcases drainModule_first hs h with ⟨hallow, hnil⟩ | ⟨hcb, hhead, rfl⟩
    · exact ⟨fun _ => .inr (.inl hallow), fun _ => hnil⟩
    · simp [DrainsQueue, hc, hcb, hhead]

/-- A synchronous call in a reachable state finds, at the moment it calls the HAL, the queue of its
module empty and nothing suspended, exactly when the drain loops did their work. -/
theorem SyncCall.drained_iff {flash : FlashId → NorMemory.Content} {c : SyncCall}
    (hr : Reachable (step pf) (fun _ _ => True) (init pf flash) s)
    (h : c.issueState pf s = some s') : Drained s' c.m ↔ DrainsQueue s c.m c.polls := by
  have hs : Wf s := hr.induction (fun _ _ _ hs _ h => hs.step h) (wf_init pf flash)
  have hdrain : syncDrain pf s c.m c.polls = some s' := by
    unfold SyncCall.issueState at h
    split at h
    · exact h
    · cases h
  have hs' := hs.internals (syncDrain_internal (P := fun _ _ _ => True) hs hdrain)
  rw [← syncDrain_queue_iff hs hdrain]
  refine ⟨fun h => h.1, fun hnil => ⟨hnil, fun m' => ?_⟩⟩
  rw [hs'.suspended_iff, not_not]
  by_cases hm : m' = c.m
  · exact hm ▸ hs'.cur_eq_none_of_nil hnil
  · exact syncDrain_cur_eq_none hs hdrain hm

/-- A write is queued and the coprocessor refuses the first poll. -/
def refusedEvents : List Event :=
  [registerUserdata, .write .userdata 0x3C700000 (fun _ => 0xA5) 4 true [], .flushDisable true]

/-- A synchronous erase of the sector that the queued write goes to. -/
def refusedErase (polls : List Bool) : SyncCall where
  m := .userdata
  startAddr := 0x3C700000
  len := 0x1000
  data := none
  polls := polls

/-- A state after `refusedEvents`. -/
def refusedState : FlashApi :=
  (refusedEvents.foldlM (step board) (init board fun _ _ => 0xFF)).getD
    (init board fun _ _ => 0xFF)

theorem reachable_refusedState :
    Reachable (step board) (fun _ _ => True) (init board fun _ _ => 0xFF) refusedState :=
  ⟨refusedEvents, Transition.along_of_forall (fun _ _ => trivial) _ _, rfl⟩

/-- With the first poll allowed the erase finds the queue drained. -/
theorem SyncCall.drained_refusedErase :
    ∃ s', (refusedErase [true]).issueState board refusedState = some s' ∧
      Drained s' .userdata := by
  obtain ⟨s', hs'⟩ := Option.isSome_iff_exists.1
    (rfl : ((refusedErase [true]).issueState board refusedState).isSome = true)
  exact ⟨s', hs', (SyncCall.drained_iff reachable_refusedState hs').2 (.inr (.inl (.inr rfl)))⟩

/-- With the first poll refused the erase is issued before the write that was queued first. -/
theorem SyncCall.not_drained_refusedErase :
    Reachable (step board) (fun _ _ => True) (init board fun _ _ => 0xFF) refusedState ∧
      ∃ s', (refusedErase [false]).issueState board refusedState = some s' ∧
        ¬Drained s' .userdata := by
  refine ⟨reachable_refusedState, ?_⟩
  have hlen : ((refusedErase [false]).issueState board refusedState).map
      (fun s' => (s'.modInfo .userdata).operaInfo.length) = some 1 := rfl
  obtain ⟨s', hs', hlen⟩ := Option.map_eq_some_iff.1 hlen
  exact ⟨s', hs', fun h => by simp [h.1] at hlen⟩

end EarbudFirmware.Norflash
