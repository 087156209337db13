import Mathlib.Algebra.Order.BigOperators.Group.List
import Mathlib.Algebra.Order.Group.Nat
import Mathlib.Logic.Relation
import EarbudFirmware.Norflash.WellFormed

/-!
# Flash service: what a call does

Flush steps and the drain loops of synchronous calls are sequences of internal steps: the control
fields change, or the oldest operation of a module is completed or suspended.

## Main definitions

* `Internal` — one internal step
* `HalOk` — what the HAL guarantees about suspended operations
* `OperaInfo.Accepted` — the HAL accepts the operation

## Main results

* `norflashApiFlush_internal`, `syncDrain_internal` — flushing is a sequence of internal steps
* `Wf.operaFlush_isSome` — a flush step fails no assertion
* `norflashApiErase_cases`, `norflashApiWrite_cases` — what the two calls do
* `wf_init`, `Wf.call`, `Wf.step` — the invariant holds initially and is kept by every call
-/

namespace EarbudFirmware.Norflash

open NorMemory (Content Op)
open Ownership (Exclusive Exchange)
open Relation (ReflTransGen)

variable {pf : Platform} {s s' : FlashApi} {m : ModuleId} {P : Op → Content → Content → Prop}

/-- One internal step of the service. `P op f g` tells which content `g` an operation `op` started
on `f` may leave behind when it is suspended. -/
inductive Internal (P : Op → Content → Content → Prop) (s : FlashApi) : FlashApi → Prop where
  | control (i : Nat) (c : Option ModuleId) (b : Bool)
      (hbusy : ∀ m, (s.modInfo m).curOperaInfo ≠ none → c = some m)
      (hreg : ∀ m, c = some m → (s.modInfo m).isRegistered = true) :
      Internal P s { s with curModId := i, curMod := c, allowedCb := b }
  | complete {m : ModuleId} {q : List OperaInfo} {t : OperaInfo}
      (hq : (s.modInfo m).operaInfo = q ++ [t])
      (hfree : (s.modInfo m).curOperaInfo = none → s.suspendState (s.modInfo m).devId = false)
      (k : Nat) : Internal P s (s.completeTail m q t k)
  | suspend {m : ModuleId} {q : List OperaInfo} {t : OperaInfo}
      (hq : (s.modInfo m).operaInfo = q ++ [t]) (hcur : s.curMod = some m) (cells : Content)
      (hcells : P t.physOp (s.flash (s.modInfo m).devId) cells) (k : Nat) :
      Internal P s (s.suspendTail m q t cells k)

/-- An answer of the HAL to a flush step leaves a content that `P` allows. -/
def HalAllows (P : Op → Content → Content → Prop) (s : FlashApi) : HalAnswer → Prop
  | .ok => True
  | .suspended cells => ∀ m, getCurMod s = some m → ∀ q t, (s.modInfo m).operaInfo = q ++ [t] →
      P t.physOp (s.flash (s.modInfo m).devId) cells

/-- What the HAL guarantees: a suspended operation has been executed only partly. -/
def HalOk (s : FlashApi) : Event → Prop
  | .flush _ ans => HalAllows Op.Partial s ans
  | _ => True

theorem halAllows_true (s : FlashApi) (ans : HalAnswer) :
    HalAllows (fun _ _ _ => True) s ans := by
  cases ans <;> simp [HalAllows]

theorem Internal.wf (h : Internal P s s') (hs : Wf s) : Wf s' := by
  cases h with
  | control i c b hbusy hreg => exact { hs with busy_curMod := hbusy, curMod_registered := hreg }
  | complete hq hfree k => exact hs.completeTail hq hfree k
  | suspend hq hcur cells _ k => exact hs.suspendTail hq hcur cells k

theorem Wf.internals (hs : Wf s) (h : ReflTransGen (Internal P) s s') : Wf s' := by
  induction h with
  | refl => exact hs
  | tail _ hstep ih => exact hstep.wf ih

/-! ### Flush steps -/

/-- Polling the callback changes nothing but `allowed_cb`. -/
theorem flushIsAllowed_cases {polls polls' : List Bool} {b : Bool}
    (h : flushIsAllowed s polls = some (b, s', polls')) :
    (b = true ∧ s' = { s with allowedCb := false } ∧
        (polls' = polls ∧ s.allowedCb = false ∨ s.allowedCb = true ∧ polls = true :: polls')) ∨
      (b = false ∧ s' = s ∧ s.allowedCb = true ∧ polls = false :: polls') := by
  unfold flushIsAllowed at h
  split_ifs at h with hcb
  · split at h
    · cases h
    · simp only [Option.some.injEq, Prod.mk.injEq] at h
      obtain ⟨rfl, rfl, rfl⟩ := h
      exact .inl ⟨rfl, rfl, .inr ⟨hcb, rfl⟩⟩
    · simp only [Option.some.injEq, Prod.mk.injEq] at h
      obtain ⟨rfl, rfl, rfl⟩ := h
      exact .inr ⟨rfl, rfl, hcb, rfl⟩
  · simp only [Option.some.injEq, Prod.mk.injEq] at h
    obtain ⟨rfl, rfl, rfl⟩ := h
    have hcb : s.allowedCb = false := by simpa using hcb
    refine .inl ⟨rfl, ?_, .inl ⟨rfl, hcb⟩⟩
    rw [← hcb]

theorem flushIsAllowed_internal {polls polls' : List Bool} {b : Bool} (hs : Wf s)
    (h : flushIsAllowed s polls = some (b, s', polls')) : ReflTransGen (Internal P) s s' := by
  rcases flushIsAllowed_cases h with ⟨-, rfl, -⟩ | ⟨-, rfl, -⟩
  · exact .single (.control s.curModId s.curMod false hs.busy_curMod hs.curMod_registered)
  · exact .refl

/-- The module that `_get_cur_mod` returns is the current one, or it has operations queued. -/
theorem getCurMod_spec (h : getCurMod s = some m) :
    s.curMod = some m ∨
      (s.curMod = none ∧ (s.modInfo m).isRegistered = true ∧ (s.modInfo m).operaInfo ≠ []) := by
  unfold getCurMod at h
  cases hc : s.curMod with
  | some c => simpa [hc] using h
  | none =>
    simp only [hc] at h
    have := List.find?_some h
    simp only [Bool.and_eq_true, decide_eq_true_eq] at this
    exact .inr ⟨rfl, this.1, List.ne_nil_of_length_pos this.2⟩

/-- The scan visits every module, wherever it starts. -/
theorem mem_scanOrder (i : Nat) (m : ModuleId) :
    m ∈ (scanOrder ModuleId.count i).filterMap (ModuleId.all[·]?) := by
  have hlow : ∀ i ≤ 16, ∀ m ∈ ModuleId.all,
      m ∈ (scanOrder ModuleId.count i).filterMap (ModuleId.all[·]?) := by decide +kernel
  by_cases hi : i ≤ 16
  · exact hlow i hi m m.mem_all
  · -- beyond the last module the scan starts over
    have hwrap : ∀ j, ModuleId.count ≤ j + 1 → scanOrder (16 + 1) j = 0 :: scanOrder 16 0 :=
      fun j hj => by rw [scanOrder, if_pos hj]
    have hcount : ModuleId.count = 16 + 1 := rfl
    have h := hlow 16 (Nat.le_refl _) m m.mem_all
    rw [hcount, hwrap 16 (Nat.le_of_eq hcount)] at h
    rw [hcount, hwrap i (by omega)]
    exact h

/-- A module with queued operations is found. -/
theorem Wf.getCurMod_ne_none (hs : Wf s) (h : (s.modInfo m).operaInfo ≠ []) :
    getCurMod s ≠ none := by
  unfold getCurMod
  split
  · simp
  · intro hnone
    have := List.find?_eq_none.1 hnone m (mem_scanOrder _ m)
    simp [hs.registered_of_ne_nil h, List.length_pos_iff.2 h] at this

theorem Wf.getCurMod_control (hs : Wf s) (h : getCurMod s = some m) :
    Internal P s { s with curModId := m.toNat, curMod := some m } := by
  refine .control m.toNat (some m) s.allowedCb (fun m' hm' => ?_) fun m' hm' => ?_
  · have hcur := hs.busy_curMod m' hm'
    rcases getCurMod_spec h with h | ⟨h, -⟩
    · rw [← h, hcur]
    · rw [h] at hcur
      cases hcur
  · obtain rfl : m = m' := by simpa using hm'
    rcases getCurMod_spec h with h | ⟨-, h, -⟩
    · exact hs.curMod_registered m h
    · exact h

/-- A flush step of the service is a sequence of internal steps. -/
theorem norflashApiFlush_internal (hs : Wf s) {polls : List Bool} {ans : HalAnswer} {b : Bool}
    (hans : HalAllows P s ans) (h : norflashApiFlush pf s polls ans = some (s', b)) :
    ReflTransGen (Internal P) s s' := by
  unfold norflashApiFlush at h
  rw [if_neg (by simp [hs.inited])] at h
  split at h
  · cases h
  case h_2 s₁ _ hpoll =>
    simp only [Option.some.injEq, Prod.mk.injEq] at h
    exact h.1 ▸ flushIsAllowed_internal hs hpoll
  case h_3 s₁ _ hpoll =>
    have h₁ := flushIsAllowed_internal (P := P) hs hpoll
    have hs₁ := hs.internals h₁
    obtain ⟨b', rfl⟩ : ∃ b', s₁ = { s with allowedCb := b' } := by
      rcases flushIsAllowed_cases hpoll with ⟨-, rfl, -⟩ | ⟨-, rfl, -⟩
      · exact ⟨_, rfl⟩
      · exact ⟨_, rfl⟩
    refine h₁.trans ?_
    split at h
    · simp only [Option.some.injEq, Prod.mk.injEq] at h
      exact h.1 ▸ .refl
    case h_2 m hm =>
      have hctl := hs₁.getCurMod_control (P := P) hm
      have hs₂ := hctl.wf hs₁
      refine .head hctl ?_
      split at h
      · cases h
      case h_2 s₃ more _ hflush =>
        simp only [Option.some.injEq, Prod.mk.injEq] at h
        obtain ⟨rfl, -⟩ := h
        rcases operaFlush_cases hs₂ hflush with ⟨rfl, rfl, hnil, hcur⟩ |
          ⟨rfl, hfree, q, t, k, hq, ⟨-, rfl⟩ | ⟨cells, rfl, -, -, rfl⟩⟩
        · refine .single (.control _ none _ (fun m' hm' => ?_) (fun _ h => by cases h))
          have : some m = some m' := hs₂.busy_curMod m' hm'
          rw [Option.some.injEq] at this
          exact absurd hcur (this ▸ hm')
        · exact .single (.complete hq hfree k)
        · exact .single (.suspend hq rfl cells (hans m hm q t hq) k)

/-! ### Flushing makes progress -/

/-- The HAL accepts the operation on a device of `total` bytes. -/
def OperaInfo.Accepted (total : Nat) (n : OperaInfo) : Prop :=
  match n.opera with
  | .writting wOffs wLen _ => 0 < wLen ∧ physAddr (n.addr + wOffs) + wLen ≤ total
  | .erasing => 0 < n.len ∧ physAddr n.addr + n.len ≤ total

/-- The HAL suspends an operation only in a build with suspension. -/
def HalAnswer.Allowed (pf : Platform) : HalAnswer → Prop
  | .ok => True
  | .suspended _ => pf.flashSuspend = true

theorem halRun_isSome {d : FlashId} {op : Op} {ans : HalAnswer} (h : ans.Allowed pf) :
    ∃ s' r, halRun s d op pf.flashSuspend ans = some (s', r) ∧ (r = .ok ∨ r = .suspended) := by
  cases ans with
  | ok => exact ⟨_, _, rfl, .inl rfl⟩
  | suspended cells => exact ⟨_, _, if_pos h, .inr rfl⟩

theorem halIssue_isSome {d : FlashId} {op : Op} {addr len : Nat} {ans : HalAnswer}
    (h : ans.Allowed pf) (hfree : s.suspendState d = false) (hlen : 0 < len)
    (hbound : physAddr addr + len ≤ pf.totalSize d) :
    ∃ s' r, halIssue pf s d op addr len pf.flashSuspend ans = some (s', r) ∧
      (r = .ok ∨ r = .suspended) := by
  rw [halIssue, if_neg (by simp [hfree]), if_neg (by omega), if_neg (by omega)]
  exact halRun_isSome h

/-- The device of the current module holds a suspended operation only of this module. -/
theorem Wf.suspendState_of_curMod (hs : Wf s) (hcur : s.curMod = some m) :
    s.suspendState (s.modInfo m).devId = true ↔ (s.modInfo m).curOperaInfo ≠ none := by
  rw [hs.suspendState]
  constructor
  · rintro ⟨m', -, hne⟩
    obtain rfl : m = m' := Option.some.inj (hcur.symm.trans (hs.busy_curMod m' hne))
    exact hne
  · exact fun hne => ⟨m, rfl, hne⟩

/-- The HAL works on an accepted operation, from the start or from where it was suspended. -/
theorem flushCall_isSome {n : OperaInfo} {ans : HalAnswer} (h : ans.Allowed pf)
    (hn : n.Accepted (pf.totalSize (s.modInfo m).devId))
    (hstate : (s.modInfo m).state = .idle ∧ s.suspendState (s.modInfo m).devId = false ∨
      (s.modInfo m).state = n.suspendedState ∧ s.suspendState (s.modInfo m).devId = true) :
    ∃ s' r, flushCall pf s m n pf.flashSuspend ans = some (s', r) ∧
      (r = .ok ∨ r = .suspended) := by
  unfold flushCall
  rcases hstate with ⟨hidle, hfree⟩ | ⟨hbusy, hheld⟩
  · simp only [hidle]
    unfold OperaInfo.Accepted at hn
    cases hopera : n.opera with
    | writting wOffs wLen buff =>
      simp only [hopera] at hn ⊢
      rw [if_pos hn.1]
      exact halIssue_isSome h hfree hn.1 hn.2
    | erasing =>
      simp only [hopera] at hn ⊢
      exact halIssue_isSome h hfree hn.1 hn.2
  · have hne := n.suspendedState_ne_idle
    simp only [hbusy]
    rw [if_pos trivial, halResume, if_pos hheld]
    exact halRun_isSome h

/-- `_opera_flush` fails no assertion on the current module. -/
theorem Wf.operaFlush_isSome (hs : Wf s) (hcur : s.curMod = some m) {ans : HalAnswer}
    (h : ans.Allowed pf)
    (hall : ∀ n ∈ (s.modInfo m).operaInfo, n.Accepted (pf.totalSize (s.modInfo m).devId)) :
    ∃ r, operaFlush pf s m false ans = some r := by
  have hheld := hs.suspendState_of_curMod hcur
  have hnodup := hs.slots_nodup m
  unfold operaFlush
  rcases hs.lock m with hidle | ⟨q, t, hbusy⟩
  · have hfree : s.suspendState (s.modInfo m).devId = false := by
      cases hsusp : s.suspendState (s.modInfo m).devId with
      | false => rfl
      | true => exact absurd hidle.cur (hheld.1 hsusp)
    rw [if_pos hidle.cur]
    rcases List.eq_nil_or_concat' (s.modInfo m).operaInfo with hnil | ⟨q, t, hq⟩
    · rw [ModuleInfo.getTail_of_nil hnil hidle.cur]
      simp [flushCur, FlashApi.setModule, hidle.cur]
    · rw [hq] at hnodup hall
      have hstate : (s.modInfo m).state = .idle := by
        rw [hidle.state, if_pos (hs.curMod_registered m hcur)]
      obtain ⟨u, hu⟩ : ∃ u, u = s.setModule m (s.modInfo m).getTail := ⟨_, rfl⟩
      have hmod : u.modInfo m = (s.modInfo m).getTail := by
        rw [hu]
        exact Function.update_self _ _ _
      have hqu : (u.modInfo m).operaInfo = q ++ [{ t with lock := true }] := by
        simp [hmod, ModuleInfo.getTail, hq]
      have hcuru : (u.modInfo m).curOperaInfo = some t.slot := by
        simp [hmod, ModuleInfo.getTail, hq]
      have hdel : operaDel (q ++ [{ t with lock := true }]) t.slot =
          some (q, { t with lock := true }) :=
        operaDel_append (q := q) (t := { t with lock := true }) (by simpa using hnodup)
      obtain ⟨v, r, hcall, hr⟩ := flushCall_isSome (s := u) (m := m)
        (n := { t with lock := true }) h (by rw [hmod]; exact hall t (by simp))
        (.inl ⟨by simp [hmod, ModuleInfo.getTail, hstate], by
          simpa [hmod, ModuleInfo.getTail, hu, FlashApi.setModule] using hfree⟩)
      rw [← hu]
      rcases hr with rfl | rfl <;> simp [flushCur, hcuru, hqu, hdel, hcall]
  · rw [if_neg (by simp [hbusy.cur])]
    rw [hbusy.queue] at hnodup hall
    obtain ⟨v, r, hcall, hr⟩ := flushCall_isSome h (hall t (by simp))
      (.inr ⟨hbusy.state, hheld.2 (by simp [hbusy.cur])⟩)
    rcases hr with rfl | rfl <;>
      simp [flushCur, hbusy.cur, hbusy.queue, operaDel_append hnodup, hcall]

/-- The number of queued operations. -/
def FlashApi.queued (s : FlashApi) : Nat :=
  (ModuleId.all.map fun m => (s.modInfo m).operaInfo.length).sum

/-- A completed operation is not queued any more. -/
theorem queued_completeTail_lt {q : List OperaInfo} {t : OperaInfo} {k : Nat}
    (hq : (s.modInfo m).operaInfo = q ++ [t]) : (s.completeTail m q t k).queued < s.queued := by
  refine List.sum_lt_sum _ _ (fun m' _ => ?_) ⟨m, m.mem_all, ?_⟩
  · by_cases hm : m' = m
    · subst hm
      simp [FlashApi.completeTail, hq]
    · simp [FlashApi.completeTail, Function.update_of_ne hm]
  · simp [FlashApi.completeTail, hq]

/-! ### Synchronous calls -/

/-- The loop over the queue of the module performs internal steps. -/
theorem drainModule_internal (hs : Wf s) {fuel : Nat} {polls : List Bool} {b : Bool}
    (h : drainModule pf m fuel s polls b = some s') : ReflTransGen (Internal P) s s' := by
  induction fuel generalizing s polls b with
  | zero => cases h
  | succ fuel ih =>
    unfold drainModule at h
    split at h
    · cases h
    case h_2 s₁ _ hpoll =>
      have h₁ := flushIsAllowed_internal (P := P) hs hpoll
      split_ifs at h
      · exact h₁.trans (ih (hs.internals h₁) h)
      · simp only [Option.some.injEq] at h
        exact h ▸ h₁
    case h_3 s₁ _ hpoll =>
      have h₁ := flushIsAllowed_internal (P := P) hs hpoll
      have hs₁ := hs.internals h₁
      split at h
      · cases h
      case h_2 s₂ b' _ hflush =>
        rcases operaFlush_cases hs₁ hflush with ⟨rfl, rfl, -⟩ |
          ⟨rfl, hfree, q, t, k, hq, ⟨-, rfl⟩ | ⟨_, hans, -⟩⟩
        · simp only [Bool.false_eq_true, if_false, Option.some.injEq] at h
          exact h ▸ h₁
        · have hstep := Internal.complete (P := P) hq hfree k
          exact (h₁.tail hstep).trans (ih (hstep.wf hs₁) h)
        · cases hans

/-- The loop over the suspended operation of the current module performs internal steps. -/
theorem drainCurMod_internal {c : ModuleId} (hs : Wf s) (hc : s.curMod = some c) {fuel : Nat}
    {polls polls' : List Bool} {b b' : Bool}
    (h : drainCurMod pf c fuel s polls b = some (s', polls', b')) :
    ReflTransGen (Internal P) s s' := by
  induction fuel generalizing s polls b with
  | zero => cases h
  | succ fuel ih =>
    unfold drainCurMod at h
    split_ifs at h with hst
    · simp only [Option.some.injEq, Prod.mk.injEq] at h
      exact h.1 ▸ .refl
    · split at h
      · cases h
      case h_2 s₁ _ hpoll =>
        rcases flushIsAllowed_cases hpoll with ⟨hb, -⟩ | ⟨-, rfl, -⟩
        · cases hb
        · exact ih hs hc h
      case h_3 s₁ _ hpoll =>
        have h₁ := flushIsAllowed_internal (P := P) hs hpoll
        have hs₁ := hs.internals h₁
        obtain ⟨-, rfl, -⟩ | ⟨hb, -⟩ := flushIsAllowed_cases hpoll
        · split at h
          · cases h
          case h_2 s₂ b₂ _ hflush =>
            rcases operaFlush_cases hs₁ hflush with ⟨rfl, rfl, -, hcur⟩ |
              ⟨rfl, hfree, q, t, k, hq, ⟨-, rfl⟩ | ⟨_, hans, -⟩⟩
            · -- a registered module without a current operation is idle
              exfalso
              rcases hs₁.lock c with hidle | ⟨q, t, hbusy⟩
              · have := hidle.state
                rw [if_pos (hs₁.curMod_registered c hc)] at this
                exact hst this
              · exact absurd (hbusy.cur.symm.trans hcur) (by simp)
            · have hstep := Internal.complete (P := P) hq hfree k
              exact (h₁.tail hstep).trans (ih (hstep.wf hs₁) hc h)
            · cases hans
        · cases hb

/-- What a synchronous call does before its HAL call is a sequence of internal steps. -/
theorem syncDrain_internal (hs : Wf s) {polls : List Bool}
    (h : syncDrain pf s m polls = some s') : ReflTransGen (Internal P) s s' := by
  unfold syncDrain at h
  simp only at h
  split at h
  case h_1 c hc =>
    split_ifs at h
    · exact drainModule_internal hs h
    · split at h
      · cases h
      case h_2 s₁ _ _ hcur =>
        have h₁ := drainCurMod_internal (P := P) hs hc hcur
        exact h₁.trans (drainModule_internal (hs.internals h₁) h)
  case h_2 => exact drainModule_internal hs h

/-! ### Calls -/

/-- Everything `norflash_api_erase` can do. -/
theorem norflashApiErase_cases {addr len : Nat} {async : Bool} {polls : List Bool} {r : ApiRet}
    (h : norflashApiErase pf s m addr len async polls = some (s', r)) :
    (checkErase s (s.modInfo m) addr len = .error r ∧ s' = s) ∨
      (checkErase s (s.modInfo m) addr len = .ok () ∧
        ((async = true ∧ ∃ p q ok,
            eOperaAdd (s.pools (s.modInfo m).devId) (s.modInfo m).operaInfo addr len = (p, q, ok) ∧
            s' = (s.setPools (s.modInfo m).devId p).setModule m
              { s.modInfo m with operaInfo := q } ∧
            r = if ok then .ok else .bufferFull) ∨
          (async = false ∧ ∃ s₁ hr, syncDrain pf s m polls = some s₁ ∧
            halIssue pf s₁ (s.modInfo m).devId (.erase (physAddr addr) len) addr len false .ok =
              some (s', hr) ∧ r = hr.toApiRet))) := by
  unfold norflashApiErase at h
  simp only at h
  split at h
  case h_1 e hchk =>
    simp only [Option.some.injEq, Prod.mk.injEq] at h
    exact .inl ⟨h.2 ▸ hchk, h.1.symm⟩
  case h_2 hchk =>
    refine .inr ⟨hchk, ?_⟩
    cases async with
    | true =>
      simp only [if_true, Option.some.injEq, Prod.mk.injEq] at h
      exact .inl ⟨rfl, _, _, _, rfl, h.1.symm, h.2.symm⟩
    | false =>
      simp only [Bool.false_eq_true, if_false, Option.bind_eq_bind, Option.bind_eq_some_iff,
        Option.pure_def, Option.some.injEq, Prod.mk.injEq] at h
      obtain ⟨s₁, hdrain, ⟨s₂, hr⟩, hhal, rfl, rfl⟩ := h
      exact .inr ⟨rfl, s₁, hr, hdrain, hhal, rfl⟩

/-- Everything `norflash_api_write` can do. -/
theorem norflashApiWrite_cases {addr len : Nat} {buffer : Nat → UInt8} {async : Bool}
    {polls : List Bool} {r : ApiRet}
    (h : norflashApiWrite pf s m addr buffer len async polls = some (s', r)) :
    (checkAccess pf s (s.modInfo m) addr len = .error r ∧ s' = s) ∨
      (checkAccess pf s (s.modInfo m) addr len = .ok () ∧
        ((async = true ∧ ∃ p q ok,
            wOperaAdd (pf.sectorSize (s.modInfo m).devId) (s.flash (s.modInfo m).devId)
              (s.pools (s.modInfo m).devId) (s.modInfo m).operaInfo (s.modInfo m).modSectorLen
              addr len buffer = some (p, q, ok) ∧
            s' = (s.setPools (s.modInfo m).devId p).setModule m
              { s.modInfo m with operaInfo := q } ∧
            r = if ok then .ok else .bufferFull) ∨
          (async = false ∧ ∃ s₁ hr, syncDrain pf s m polls = some s₁ ∧
            halIssue pf s₁ (s.modInfo m).devId (.program (physAddr addr) len buffer) addr len
              false .ok = some (s', hr) ∧ r = hr.toApiRet))) := by
  unfold norflashApiWrite at h
  simp only at h
  split at h
  case h_1 e hchk =>
    simp only [Option.some.injEq, Prod.mk.injEq] at h
    exact .inl ⟨h.2 ▸ hchk, h.1.symm⟩
  case h_2 hchk =>
    refine .inr ⟨hchk, ?_⟩
    cases async with
    | true =>
      simp only [if_true, Option.bind_eq_bind, Option.bind_eq_some_iff, Option.pure_def,
        Option.some.injEq, Prod.mk.injEq] at h
      obtain ⟨⟨p, q, ok⟩, hadd, rfl, rfl⟩ := h
      exact .inl ⟨rfl, p, q, ok, hadd, rfl, rfl⟩
    | false =>
      simp only [Bool.false_eq_true, if_false, Option.bind_eq_bind, Option.bind_eq_some_iff,
        Option.pure_def, Option.some.injEq, Prod.mk.injEq] at h
      obtain ⟨s₁, hdrain, ⟨s₂, hr⟩, hhal, rfl, rfl⟩ := h
      exact .inr ⟨rfl, s₁, hr, hdrain, hhal, rfl⟩

/-- What the accepted arguments of an erase satisfy. -/
theorem checkErase_ok {mi : ModuleInfo} {addr len : Nat} (h : checkErase s mi addr len = .ok ()) :
    mi.isRegistered = true ∧ addrIsValide mi.modBaseAddr mi.modLen addr len = true ∧
      addr / mi.modSectorLen * mi.modSectorLen = addr ∧
      (len = mi.modSectorLen ∨ len = mi.modBlockLen) := by
  unfold checkErase at h
  cases hi : s.isInited <;> cases hr : mi.isRegistered <;>
    cases hv : addrIsValide mi.modBaseAddr mi.modLen addr len <;>
    simp [hi, hr, hv, bind, Except.bind, pure, Except.pure, throw, throwThe,
      MonadExceptOf.throw] at h ⊢
  split_ifs at h with h₁ h₂
  · exact ⟨h₁, by tauto⟩

/-- What the accepted arguments of a read or a write satisfy. -/
theorem checkAccess_ok {mi : ModuleInfo} {addr len : Nat}
    (h : checkAccess pf s mi addr len = .ok ()) :
    mi.isRegistered = true ∧ addrIsValide mi.modBaseAddr mi.modLen addr len = true ∧
      0 < len ∧ inOneSector addr len (pf.sectorSize mi.devId) = true := by
  unfold checkAccess at h
  cases hi : s.isInited <;> cases hr : mi.isRegistered <;>
    cases hv : addrIsValide mi.modBaseAddr mi.modLen addr len <;>
    simp [hi, hr, hv, bind, Except.bind, pure, Except.pure, throw, throwThe,
      MonadExceptOf.throw] at h ⊢
  exact ⟨by omega, h.2⟩

/-- A HAL call of a synchronous operation leaves everything but the flash as it was. -/
theorem halIssue_sync {d : FlashId} {op : Op} {addr len : Nat} {r : HalRet}
    (h : halIssue pf s d op addr len false .ok = some (s', r)) :
    (s' = s ∧ r ≠ .ok) ∨
      (r = .ok ∧ s.suspendState d = false ∧ s' = s.setFlash d (op.apply (s.flash d))) := by
  rcases halIssue_cases h with ⟨rfl, hr, -⟩ | ⟨hfree, hrun⟩
  · exact .inl ⟨rfl, hr⟩
  · rcases halRun_cases hrun with ⟨-, rfl, rfl⟩ | ⟨_, hans, -⟩
    · refine .inr ⟨rfl, hfree, ?_⟩
      simp only [FlashApi.setSuspendState, FlashApi.setFlash]
      rw [← hfree, Function.update_eq_self]
    · cases hans

theorem Wf.setFlash (hs : Wf s) (d : FlashId) (f : Content) : Wf (s.setFlash d f) := { hs with }

theorem Wf.halIssue_sync (hs : Wf s) {d : FlashId} {op : Op} {addr len : Nat} {r : HalRet}
    (h : halIssue pf s d op addr len false .ok = some (s', r)) : Wf s' := by
  rcases Norflash.halIssue_sync h with ⟨rfl, -⟩ | ⟨-, -, rfl⟩
  · exact hs
  · exact hs.setFlash d _

/-- Registering a module keeps the invariant. -/
theorem Wf.register (hs : Wf s) (m : ModuleId) (d : FlashId)
    (base len block sector page bufferLen : Nat) (cb : Bool) :
    Wf (norflashApiRegister s m d base len block sector page bufferLen cb).1 := by
  unfold norflashApiRegister
  split_ifs with hi hb hr
  · exact hs
  · exact hs
  · exact hs
  have hr : (s.modInfo m).isRegistered = false := by simpa using hr
  have hnil := hs.unregistered m hr
  have hcur : (s.modInfo m).curOperaInfo = none := by
    rcases hs.lock m with hidle | ⟨q, t, hbusy⟩
    · exact hidle.cur
    · simp [hbusy.registered] at hr
  set mi : ModuleInfo :=
    { isRegistered := true, devId := d, modBaseAddr := base, modLen := len, modBlockLen := block,
      modSectorLen := sector, modPageLen := page, buffLen := bufferLen, cbFunc := cb,
      operaInfo := [], curOperaInfo := none, state := .idle } with hmi
  have hqueue : ∀ m', ((s.setModule m mi).modInfo m').operaInfo = (s.modInfo m').operaInfo := by
    intro m'
    by_cases hm : m' = m
    · subst hm
      simp [FlashApi.setModule, hmi, hnil]
    · simp [FlashApi.setModule, Function.update_of_ne hm]
  have hcur' : ∀ m', ((s.setModule m mi).modInfo m').curOperaInfo =
      (s.modInfo m').curOperaInfo := by
    intro m'
    by_cases hm : m' = m
    · subst hm
      simp [FlashApi.setModule, hmi, hcur]
    · simp [FlashApi.setModule, Function.update_of_ne hm]
  have hother : ∀ m', (s.modInfo m').operaInfo ≠ [] ∨ (s.modInfo m').curOperaInfo ≠ none →
      (s.setModule m mi).modInfo m' = s.modInfo m' := by
    intro m' hm'
    refine Function.update_of_ne ?_ _ _
    rintro rfl
    exact hm'.elim (· hnil) (· hcur)
  refine ⟨hs.inited, fun m' hm' => ?_, fun m' => ?_, fun m' hm' => ?_, fun m' hm' => ?_,
    fun d' => ?_, fun m' => ?_, ?_, ?_⟩
  · rw [hqueue]
    by_cases hm : m' = m
    · rw [hm, hnil]
    · refine hs.unregistered m' ?_
      simpa [FlashApi.setModule, Function.update_of_ne hm] using hm'
  · by_cases hm : m' = m
    · subst hm
      exact .inl ⟨by rw [hcur', hcur], by simp [FlashApi.setModule, hmi], by simp [hqueue, hnil]⟩
    · have : (s.setModule m mi).modInfo m' = s.modInfo m' := Function.update_of_ne hm _ _
      rw [this]
      exact hs.lock m'
  · exact hs.busy_curMod m' (by rwa [← hcur'])
  · by_cases hm : m' = m
    · subst hm
      simp [FlashApi.setModule, hmi]
    · have : (s.setModule m mi).modInfo m' = s.modInfo m' := Function.update_of_ne hm _ _
      rw [this]
      exact hs.curMod_registered m' hm'
  · simp only [hcur']
    refine (hs.suspendState d').trans (exists_congr fun m' => and_congr_left fun hne => ?_)
    rw [hother m' (.inr hne)]
  · rw [hqueue]
    exact hs.nonempty m'
  · simp only [hqueue]
    refine hs.nodes.of_pool_eq fun m' hm' => ?_
    rw [hother m' (.inl fun hnil' => hm' (by simp [hnil']))]
  · simp only [hqueue]
    refine hs.buffers.of_pool_eq fun m' hm' => ?_
    rw [hother m' (.inl fun hnil' => hm' (by simp [hnil']))]

/-- Every call keeps the structural invariant. -/
theorem Wf.call (hs : Wf s) {e : Event} {r : ApiRet} (h : call pf s e = some (s', r)) : Wf s' := by
  cases e with
  | register m d base len block sector page bufferLen cb =>
    obtain ⟨rfl, -⟩ : _ = s' ∧ _ = r := by
      simpa only [Norflash.call, Option.some.injEq, Prod.ext_iff] using h
    exact hs.register m d base len block sector page bufferLen cb
  | erase m addr len async polls =>
    rcases norflashApiErase_cases h with ⟨-, rfl⟩ | ⟨hchk, ⟨-, p, q, ok, hadd, rfl, -⟩ |
      ⟨-, s₁, hr, hdrain, hhal, -⟩⟩
    · exact hs
    · exact hs.eOperaAdd (checkErase_ok hchk).1 hadd
    · exact (hs.internals (syncDrain_internal (P := fun _ _ _ => True) hs hdrain)).halIssue_sync
        hhal
  | write m addr buffer len async polls =>
    rcases norflashApiWrite_cases h with ⟨-, rfl⟩ | ⟨hchk, ⟨-, p, q, ok, hadd, rfl, -⟩ |
      ⟨-, s₁, hr, hdrain, hhal, -⟩⟩
    · exact hs
    · exact hs.wOperaAdd (checkAccess_ok hchk).1 (checkAccess_ok hchk).2.2.1 hadd
    · exact (hs.internals (syncDrain_internal (P := fun _ _ _ => True) hs hdrain)).halIssue_sync
        hhal
  | flush polls ans =>
    simp only [Norflash.call, Option.map_eq_some_iff, Prod.mk.injEq] at h
    obtain ⟨⟨s₁, b⟩, hflush, rfl, -⟩ := h
    exact hs.internals (norflashApiFlush_internal hs (halAllows_true s ans) hflush)
  | flushDisable cb =>
    simp only [Norflash.call, norflashApiFlushDisable, Option.some.injEq, Prod.mk.injEq] at h
    rw [if_neg (by simp [hs.inited])] at h
    exact h.1 ▸ { hs with }
  | flushEnable =>
    simp only [Norflash.call, norflashApiFlushEnable, Option.some.injEq, Prod.mk.injEq] at h
    rw [if_neg (by simp [hs.inited])] at h
    exact h.1 ▸ { hs with }

theorem Wf.step (hs : Wf s) {e : Event} (h : step pf s e = some s') : Wf s' := by
  obtain ⟨⟨_, r⟩, hcall, rfl⟩ := Option.map_eq_some_iff.1 h
  exact hs.call hcall

/-- The invariant holds after `norflash_api_init`. -/
theorem wf_init (pf : Platform) (flash : FlashId → Content) : Wf (init pf flash) := by
  refine ⟨rfl, fun _ _ => rfl, fun m => .inl ⟨rfl, rfl, ?_⟩, fun m h => absurd rfl h, ?_, ?_, ?_,
    ?_,
    ?_⟩
  · simp [init]
  · simp [init]
  · simp [init]
  · simp [init]
  · exact ⟨fun _ => List.nodup_nil, fun _ _ h => by simp [init] at h,
      fun _ _ _ _ => by simp [init]⟩
  · exact ⟨fun _ => List.nodup_nil, fun _ _ h => by simp [init] at h,
      fun _ _ _ _ => by simp [init]⟩

end EarbudFirmware.Norflash
