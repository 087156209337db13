import EarbudFirmware.Norflash.Layout
import EarbudFirmware.Norflash.Pools

/-!
# Flash service: flushing everything

`norflash_api_flush_all` flushes until `norflash_api_flush` reports that nothing is pending. A flush
completes an operation, or it is suspended, or it finds the queue of the current module empty and
gives the module up; only the last two leave the number of operations as it is.

## Main definitions

* `norflashApiFlushAll` — `norflash_api_flush_all`
* `Event.OnFlash` — modules register with areas of their flash devices
* `Empty` — no operation is queued, and the pools are free

## Main results

* `norflashApiFlush_progress` — what one flush achieves
* `flushAll_run` — the loop ends with everything flushed
-/

namespace EarbudFirmware.Norflash

open NorMemory (Content Op)
open Relation (ReflTransGen)
open Transition

variable {pf : Platform} {s s' t : FlashApi} {m : ModuleId} {answers : Nat → HalAnswer}

/-- The loop of `norflash_api_flush_all`. The HAL answers the `i`-th flush with `answers i`; `none`
when `fuel` rounds do not end the loop. -/
def flushLoop (pf : Platform) (answers : Nat → HalAnswer) : Nat → FlashApi → Option FlashApi
  | 0, _ => none
  | fuel + 1, s =>
    match norflashApiFlush pf s [] (answers 0) with
    | none => none
    | some (s, more) => if more then flushLoop pf (fun i => answers (i + 1)) fuel s else some s

/-- `norflash_api_flush_all`. -/
def norflashApiFlushAll (pf : Platform) (answers : Nat → HalAnswer) (fuel : Nat) (s : FlashApi) :
    Option FlashApi :=
  flushLoop pf answers fuel (norflashApiFlushEnable s)

/-! ### Specification -/

/-- A module registers with an area of its flash device, and the caller's buffer is smaller than
half of the address space. -/
def Event.OnFlash (pf : Platform) : Event → Prop
  | .register _ d base len block sector page _ _ => ∃ r : Region pf, d = r.devId ∧
      base = r.base ∧ len = r.len ∧ block = r.blockLen ∧ sector = r.sectorLen ∧ page = r.pageLen
  | .write _ _ _ len _ _ => len < 2 ^ 31
  | _ => True

/-- No operation is queued, and the pools are free. -/
structure Empty (s : FlashApi) : Prop where
  queues : ∀ m, (s.modInfo m).operaInfo = []
  nodes : ∀ d, ∀ used ∈ (s.pools d).operaList, used = false
  buffers : ∀ d, ∀ used ∈ (s.pools d).bufferList, used = false

/-! ### The operations lie on the flash -/

/-- The HAL accepts the operation on a device of `total` bytes. -/
def OperaInfo.InFlash (secLen total : Nat) (n : OperaInfo) : Prop :=
  match n.opera with
  | .writting wOffs wLen _ => secLen ∣ n.addr ∧ 0 < wLen ∧ wOffs + wLen ≤ secLen ∧
      physAddr n.addr + (wOffs + wLen) ≤ total
  | .erasing => 0 < n.len ∧ physAddr n.addr + n.len ≤ total

/-- The structural invariant, with every module on its flash device and every queued operation in
bounds. -/
structure OnFlash (pf : Platform) (s : FlashApi) : Prop where
  wf : Wf s
  noLeak : NoLeak s
  region : ∀ m, (s.modInfo m).isRegistered = true → ∃ r : Region pf, (s.modInfo m).Matches r
  placed : ∀ m, ∀ n ∈ (s.modInfo m).operaInfo,
    n.InFlash (s.modInfo m).modSectorLen (pf.totalSize (s.modInfo m).devId)

/-- An offset within a sector is an offset of the cell. -/
theorem physAddr_add {secLen a k : Nat} (hdvd : secLen ∣ addrSpan) (ha : secLen ∣ a)
    (hk : k < secLen) : physAddr (a + k) = physAddr a + k := by
  have hphys : secLen ∣ physAddr a := (Nat.dvd_mod_iff hdvd).2 ha
  have hlt : physAddr a + secLen ≤ addrSpan :=
    add_le_of_dvd_of_lt hphys hdvd (Nat.mod_lt _ addrSpan_pos)
  unfold physAddr at *
  rw [Nat.add_mod, Nat.mod_eq_of_lt (show k < addrSpan by omega), Nat.mod_eq_of_lt (by omega)]

/-- What `ADDR_IS_VALIDE` accepts lies in the area. -/
theorem Region.le_of_addrIsValide (r : Region pf) {addr len : Nat} (hlen : len < 2 ^ 31)
    (h : addrIsValide r.base r.len addr len = true) :
    physAddr addr + len ≤ pf.totalSize r.devId := by
  have h₁ := r.fits
  have h₂ := r.total_le
  have hspan := addrSpan_lt
  have h₃ : physAddr addr < addrSpan := Nat.mod_lt _ addrSpan_pos
  simp only [addrIsValide, Bool.and_eq_true, decide_eq_true_eq, ge_iff_le] at h
  rw [Nat.mod_eq_of_lt (by omega), Nat.mod_eq_of_lt (by omega)] at h
  omega

namespace OnFlash

/-- A change of the queue of one module keeps the invariant when the new queue is in bounds. -/
theorem of_module (hs : OnFlash pf s) (hwf : Wf s') (hleak : NoLeak s') (m : ModuleId)
    (hmod : ∀ m', m' ≠ m → s'.modInfo m' = s.modInfo m')
    (hreg : (s'.modInfo m).isRegistered = (s.modInfo m).isRegistered)
    (hmatch : ∀ r : Region pf, (s.modInfo m).Matches r → (s'.modInfo m).Matches r)
    (hplaced : ∀ n ∈ (s'.modInfo m).operaInfo,
      n.InFlash (s'.modInfo m).modSectorLen (pf.totalSize (s'.modInfo m).devId)) :
    OnFlash pf s' := by
  refine ⟨hwf, hleak, fun m' hm' => ?_, fun m' => ?_⟩
  · by_cases hm : m' = m
    · subst hm
      obtain ⟨r, hmat⟩ := hs.region m' (hreg ▸ hm')
      exact ⟨r, hmatch r hmat⟩
    · rw [hmod m' hm] at hm' ⊢
      exact hs.region m' hm'
  · by_cases hm : m' = m
    · subst hm
      exact hplaced
    · rw [hmod m' hm]
      exact hs.placed m'

theorem internal {P : Op → Content → Content → Prop} (hs : OnFlash pf s) (h : Internal P s s') :
    OnFlash pf s' := by
  have hwf := h.wf hs.wf
  have hleak := h.noLeak hs.noLeak
  cases h with
  | control i c b hbusy hreg => exact ⟨hwf, hleak, hs.region, hs.placed⟩
  | @complete m q t hq hfree k =>
    refine hs.of_module hwf hleak m (fun m' hm => Function.update_of_ne hm _ _)
      (by simp [FlashApi.completeTail]) (fun r h => ?_) fun n hn => ?_
    · simpa [FlashApi.completeTail] using ⟨h.1, h.2, h.3, h.4, h.5⟩
    · simp only [FlashApi.completeTail, Function.update_self] at hn ⊢
      exact hs.placed m n (by simp [hq, hn])
  | @suspend m q t hq hcur cells hcells k =>
    refine hs.of_module hwf hleak m (fun m' hm => Function.update_of_ne hm _ _)
      (by simp [FlashApi.suspendTail]) (fun r h => ?_) fun n hn => ?_
    · simpa [FlashApi.suspendTail] using ⟨h.1, h.2, h.3, h.4, h.5⟩
    · simp only [FlashApi.suspendTail, Function.update_self, List.mem_append,
        List.mem_singleton] at hn ⊢
      rcases hn with hn | rfl
      · exact hs.placed m n (by simp [hq, hn])
      · exact hs.placed m t (by simp [hq])

theorem internals {P : Op → Content → Content → Prop} (hs : OnFlash pf s)
    (h : ReflTransGen (Internal P) s s') : OnFlash pf s' := by
  induction h with
  | refl => exact hs
  | tail _ hstep ih => exact ih.internal hstep

theorem eOperaAdd (hs : OnFlash pf s) {addr len : Nat} {p : Pools} {q : List OperaInfo}
    {ok : Bool} (hchk : checkErase s (s.modInfo m) addr len = .ok ())
    (h : Norflash.eOperaAdd (s.pools (s.modInfo m).devId) (s.modInfo m).operaInfo addr len =
      (p, q, ok)) :
    OnFlash pf
      ((s.setPools (s.modInfo m).devId p).setModule m { s.modInfo m with operaInfo := q }) := by
  obtain ⟨hreg, hvalid, -, hlen⟩ := checkErase_ok hchk
  obtain ⟨r, hmat⟩ := hs.region m hreg
  rw [hmat.modSectorLen, hmat.modBlockLen] at hlen
  rw [hmat.modBaseAddr, hmat.modLen] at hvalid
  have hsector := Nat.le_of_dvd r.blockLen_pos r.dvd_blockLen
  have hpos := r.sectorLen_pos
  have hblock := r.blockLen_lt
  have hbound := r.le_of_addrIsValide (by omega) hvalid
  refine hs.of_module (hs.wf.eOperaAdd hreg h) (hs.noLeak.eOperaAdd hs.wf h) m
    (fun m' hm => Function.update_of_ne hm _ _) (by simp [FlashApi.setModule])
    (fun r h => ?_) fun n hn => ?_
  · simpa [FlashApi.setModule] using ⟨h.1, h.2, h.3, h.4, h.5⟩
  · simp only [FlashApi.setModule, Function.update_self] at hn ⊢
    rcases eOperaAdd_cases (hs.wf.unlockedInit m) (fun _ => hs.wf.mem_nodes) h with
      ⟨-, -, -, rfl⟩ | ⟨-, -, slot, _, -, -, rfl⟩ | ⟨-, -, -, rfl⟩
    · exact hs.placed m n (List.mem_filter.1 hn).1
    · rcases List.mem_cons.1 hn with rfl | hn
      · exact ⟨by simp only; omega, hmat.devId ▸ hbound⟩
      · exact hs.placed m n (List.mem_filter.1 hn).1
    · exact hs.placed m n hn

theorem wOperaAdd (hs : OnFlash pf s) {addr len : Nat} {flash : Content} {buffer : Nat → UInt8}
    {p : Pools} {q : List OperaInfo} {ok : Bool} (hlen : len < 2 ^ 31)
    (hchk : checkAccess pf s (s.modInfo m) addr len = .ok ())
    (h : Norflash.wOperaAdd (pf.sectorSize (s.modInfo m).devId) flash
      (s.pools (s.modInfo m).devId) (s.modInfo m).operaInfo (s.modInfo m).modSectorLen addr len
      buffer = some (p, q, ok)) :
    OnFlash pf
      ((s.setPools (s.modInfo m).devId p).setModule m { s.modInfo m with operaInfo := q }) := by
  obtain ⟨hreg, hvalid, hpos, hone⟩ := checkAccess_ok hchk
  obtain ⟨r, hmat⟩ := hs.region m hreg
  rw [hmat.modBaseAddr, hmat.modLen] at hvalid
  rw [hmat.devId] at hone
  have hend := r.end_of_inOneSector hpos hlen hone
  have hbound := r.le_of_addrIsValide hlen hvalid
  have hle := secStart_le r.sectorLen addr
  have hdvd := dvd_secStart r.sectorLen addr
  -- the end of the write, counted from the start of its sector
  have hphys : physAddr (secStart r.sectorLen addr) + (addr - secStart r.sectorLen addr) =
      physAddr addr := by
    rw [← physAddr_add r.sectorLen_dvd hdvd (by omega), Nat.add_sub_cancel' hle]
  refine hs.of_module (hs.wf.wOperaAdd hreg hpos h) (hs.noLeak.wOperaAdd h) m
    (fun m' hm => Function.update_of_ne hm _ _) (by simp [FlashApi.setModule])
    (fun r h => ?_) fun n hn => ?_
  · simpa [FlashApi.setModule] using ⟨h.1, h.2, h.3, h.4, h.5⟩
  · simp only [FlashApi.setModule, Function.update_self] at hn ⊢
    have hplaced := hs.placed m
    rw [hmat.modSectorLen, hmat.devId] at h hplaced ⊢
    rcases wOperaAdd_cases h with ⟨-, -, l, n', r', hq, hstart, hw, -, -, rfl⟩ |
      ⟨-, old, slot, _, b, _, -, -, -, -, rfl⟩ | ⟨-, -, rfl⟩
    · simp only [hq] at hplaced
      simp only [List.mem_append, List.mem_cons] at hn
      rcases hn with hn | rfl | hn
      · exact hplaced n (by simp [hn])
      · -- the merged window is the hull of the two windows
        have hn' := hplaced n' (by simp)
        unfold OperaInfo.InFlash at hn' ⊢
        unfold OperaInfo.isErasing at hw
        split at hw
        case h_2 => cases hw
        case h_1 wOffs wLen buff hopera =>
          rw [widen_opera hopera]
          simp only [hopera, widen_addr, hstart] at hn' ⊢
          omega
      · exact hplaced n (by simp [hn])
    · rcases List.mem_cons.1 hn with rfl | hn
      · exact ⟨hdvd, hpos, hend, by simp only; omega⟩
      · exact hplaced n hn
    · exact hplaced n hn

theorem register (hs : OnFlash pf s) {d : FlashId} {base len block sector page bufferLen : Nat}
    {cb : Bool}
    (hon : (Event.register m d base len block sector page bufferLen cb).OnFlash pf) :
    OnFlash pf (norflashApiRegister s m d base len block sector page bufferLen cb).1 := by
  have hwf := hs.wf.register m d base len block sector page bufferLen cb
  have hleak := hs.noLeak.register hs.wf m d base len block sector page bufferLen cb
  obtain ⟨r, rfl, rfl, rfl, rfl, rfl, rfl⟩ := hon
  unfold norflashApiRegister at hwf hleak ⊢
  split_ifs at hwf hleak ⊢
  · exact hs
  · exact hs
  · exact hs
  refine ⟨hwf, hleak, fun m' hm' => ?_, fun m' n hn => ?_⟩
  · by_cases hm : m' = m
    · subst hm
      exact ⟨r, by simp [FlashApi.setModule], by simp [FlashApi.setModule],
        by simp [FlashApi.setModule], by simp [FlashApi.setModule], by simp [FlashApi.setModule]⟩
    · simp only [FlashApi.setModule, Function.update_of_ne hm] at hm' ⊢
      exact hs.region m' hm'
  · by_cases hm : m' = m
    · subst hm
      simp [FlashApi.setModule] at hn
    · simp only [FlashApi.setModule, Function.update_of_ne hm] at hn ⊢
      exact hs.placed m' n hn

theorem halIssue_sync (hs : OnFlash pf s) {d : FlashId} {op : Op} {addr len : Nat} {hr : HalRet}
    (h : halIssue pf s d op addr len false .ok = some (s', hr)) : OnFlash pf s' := by
  rcases Norflash.halIssue_sync h with ⟨rfl, -⟩ | ⟨-, -, rfl⟩
  · exact hs
  · exact ⟨hs.wf.setFlash _ _, ⟨hs.noLeak.nodes, hs.noLeak.buffers⟩, hs.region, hs.placed⟩

theorem setAllowed (hs : OnFlash pf s) (b : Bool) : OnFlash pf { s with allowedCb := b } :=
  ⟨{ hs.wf with }, ⟨hs.noLeak.nodes, hs.noLeak.buffers⟩, hs.region, hs.placed⟩

theorem flushEnable (hs : OnFlash pf s) : OnFlash pf (norflashApiFlushEnable s) := by
  rw [norflashApiFlushEnable, if_neg (by simp [hs.wf.inited])]
  exact hs.setAllowed false

/-- Calls that keep to the flash keep the invariant. -/
theorem step (hs : OnFlash pf s) {e : Event} (he : e.OnFlash pf)
    (h : Norflash.step pf s e = some s') : OnFlash pf s' := by
  obtain ⟨⟨_, ret⟩, hcall, rfl⟩ := Option.map_eq_some_iff.1 h
  cases e with
  | register m d base len block sector page bufferLen cb =>
    have hregister := hs.register he
    obtain ⟨rfl, -⟩ := Prod.mk.inj (Option.some.inj hcall)
    exact hregister
  | erase m addr len async polls =>
    rcases norflashApiErase_cases hcall with ⟨-, rfl⟩ | ⟨hchk, ⟨-, p, q, ok, hadd, rfl, -⟩ |
      ⟨-, s₁, hr, hdrain, hhal, -⟩⟩
    · exact hs
    · exact hs.eOperaAdd hchk hadd
    · have hdrained := hs.internals (syncDrain_internal (P := fun _ _ _ => True) hs.wf hdrain)
      exact hdrained.halIssue_sync hhal
  | write m addr buffer len async polls =>
    rcases norflashApiWrite_cases hcall with ⟨-, rfl⟩ | ⟨hchk, ⟨-, p, q, ok, hadd, rfl, -⟩ |
      ⟨-, s₁, hr, hdrain, hhal, -⟩⟩
    · exact hs
    · exact hs.wOperaAdd he hchk hadd
    · have hdrained := hs.internals (syncDrain_internal (P := fun _ _ _ => True) hs.wf hdrain)
      exact hdrained.halIssue_sync hhal
  | flush polls ans =>
    obtain ⟨⟨s₁, b⟩, hflush, heq⟩ := Option.map_eq_some_iff.1 hcall
    obtain ⟨rfl, -⟩ := Prod.mk.inj heq
    exact hs.internals (norflashApiFlush_internal hs.wf (halAllows_true s ans) hflush)
  | flushDisable cb =>
    have hdisable : OnFlash pf (norflashApiFlushDisable s cb) := by
      rw [norflashApiFlushDisable, if_neg (by simp [hs.wf.inited])]
      exact hs.setAllowed cb
    obtain ⟨rfl, -⟩ := Prod.mk.inj (Option.some.inj hcall)
    exact hdisable
  | flushEnable =>
    have henable := hs.flushEnable
    obtain ⟨rfl, -⟩ := Prod.mk.inj (Option.some.inj hcall)
    exact henable

end OnFlash

theorem onFlash_init (pf : Platform) (flash : FlashId → Content) : OnFlash pf (init pf flash) :=
  ⟨wf_init pf flash, noLeak_init pf flash, fun m h => by simp [init] at h,
    fun m n hn => by simp [init] at hn⟩

/-! ### One flush -/

theorem OnFlash.accepted (hs : OnFlash pf s) {n : OperaInfo} (hn : n ∈ (s.modInfo m).operaInfo) :
    n.Accepted (pf.totalSize (s.modInfo m).devId) := by
  obtain ⟨r, hmat⟩ := hs.region m (hs.wf.registered_of_ne_nil (List.ne_nil_of_mem hn))
  have hplaced := hs.placed m n hn
  rw [hmat.modSectorLen] at hplaced
  unfold OperaInfo.InFlash at hplaced
  unfold OperaInfo.Accepted
  cases hopera : n.opera with
  | writting wOffs wLen buff =>
    simp only [hopera] at hplaced ⊢
    obtain ⟨haddr, hpos, hend, hbound⟩ := hplaced
    rw [physAddr_add r.sectorLen_dvd haddr (by omega), Nat.add_assoc]
    exact ⟨hpos, hbound⟩
  | erasing =>
    simp only [hopera] at hplaced ⊢
    exact hplaced

/-- The current module has nothing to flush: the next flush gives it up. -/
def FlashApi.stale (s : FlashApi) : Nat :=
  match s.curMod with
  | some m => if (s.modInfo m).operaInfo = [] then 1 else 0
  | none => 0

/-- What is left to do: two for every operation, and one for giving up a module. -/
def FlashApi.work (s : FlashApi) : Nat := 2 * s.queued + s.stale

theorem stale_le : s.stale ≤ 1 := by
  unfold FlashApi.stale
  split
  · split_ifs <;> decide
  · decide

theorem stale_of_ne_nil (hcur : s.curMod = some m) (hne : (s.modInfo m).operaInfo ≠ []) :
    s.stale = 0 := by
  simp [FlashApi.stale, hcur, hne]

/-- Where `_get_cur_mod` finds nothing, nothing is queued, and the pools are free. -/
theorem OnFlash.empty_of_getCurMod (hs : OnFlash pf s) (h : getCurMod s = none) : Empty s := by
  have hqueues : ∀ m, (s.modInfo m).operaInfo = [] := fun m => by
    by_contra hne
    exact hs.wf.getCurMod_ne_none hne h
  refine ⟨hqueues, fun d used hused => ?_, fun d used hused => ?_⟩
  · obtain ⟨i, hi⟩ := List.getElem?_of_mem hused
    cases used with
    | false => rfl
    | true =>
      obtain ⟨m, -, hm⟩ := hs.noLeak.nodes d i hi
      simp [hqueues] at hm
  · obtain ⟨i, hi⟩ := List.getElem?_of_mem hused
    cases used with
    | false => rfl
    | true =>
      obtain ⟨m, -, hm⟩ := hs.noLeak.buffers d i hi
      simp [hqueues] at hm

/-- What a flush achieves that is not refused: it reports whether more is to be flushed, and it has
less to do, or the operation was suspended. -/
theorem OnFlash.norflashApiFlush_progress (hs : OnFlash pf s) (hcb : s.allowedCb = false)
    {ans : HalAnswer} (h : ans.Allowed pf) :
    ∃ t more, norflashApiFlush pf s [] ans = some (t, more) ∧ OnFlash pf t ∧
      t.allowedCb = false ∧ (more = false → Empty t) ∧
      (more = true → t.work < s.work ∨ ans ≠ .ok ∧ t.work ≤ s.work) := by
  have hpoll : flushIsAllowed s [] = some (true, s, []) := by simp [flushIsAllowed, hcb]
  cases hcur : getCurMod s with
  | none =>
    refine ⟨s, false, ?_, hs, hcb, fun _ => hs.empty_of_getCurMod hcur, fun h => by cases h⟩
    simp [norflashApiFlush, hs.wf.inited, hpoll, hcur]
  | some m =>
    have hchosen : OnFlash pf { s with curModId := m.toNat, curMod := some m } :=
      hs.internal (P := fun _ _ _ => True) (hs.wf.getCurMod_control hcur)
    obtain ⟨⟨u, more, res⟩, hflush⟩ := hchosen.wf.operaFlush_isSome rfl h fun n hn =>
      hchosen.accepted hn
    have hresult : norflashApiFlush pf s [] ans =
        some (if more then u else { u with curMod := none },
          (getCurMod (if more then u else { u with curMod := none })).isSome) := by
      rw [norflashApiFlush, if_neg (by simp [hs.wf.inited])]
      simp only [hpoll, hcur, hflush]
    obtain ⟨v, hv⟩ : ∃ v, v = if more then u else { u with curMod := none } := ⟨_, rfl⟩
    rw [← hv] at hresult
    suffices hgoal : OnFlash pf v ∧ v.allowedCb = false ∧
        (v.work < s.work ∨ ans ≠ .ok ∧ v.work ≤ s.work) by
      obtain ⟨hon, hfree, hwork⟩ := hgoal
      refine ⟨v, _, hresult, hon, hfree, fun hnone => hon.empty_of_getCurMod ?_, fun _ => hwork⟩
      simpa using hnone
    rcases operaFlush_cases hchosen.wf hflush with ⟨rfl, rfl, hnil, hidle⟩ |
      ⟨rfl, hfree, q, t, k, hq, ⟨-, rfl⟩ | ⟨cells, rfl, -, -, rfl⟩⟩
    · -- the module is given up; it was the current one, as its queue is empty
      have hcurMod : s.curMod = some m := by
        rcases getCurMod_spec hcur with hcurMod | ⟨-, -, hne⟩
        · exact hcurMod
        · exact absurd hnil hne
      have hstale : s.stale = 1 := by
        simp only [FlashApi.stale, hcurMod]
        exact if_pos hnil
      have hnone : ∀ m', (s.modInfo m').curOperaInfo = none := by
        intro m'
        by_contra hne
        obtain rfl := Option.some.inj (hcurMod.symm.trans (hs.wf.busy_curMod m' hne))
        exact hne hidle
      rw [if_neg (by simp)] at hv
      refine ⟨?_, by rw [hv]; exact hcb, .inl ?_⟩
      · rw [hv]
        exact hchosen.internal (P := fun _ _ _ => True) (.control _ none _
          (fun m' hm' => absurd (hnone m') hm') (fun _ h => by cases h))
      · have hqueued : v.queued = s.queued := by rw [hv]; rfl
        have hstale' : v.stale = 0 := by rw [hv]; rfl
        unfold FlashApi.work
        omega
    · rw [if_pos rfl] at hv
      have hstep := Internal.complete (P := fun _ _ _ => True) hq hfree k
      refine ⟨hv ▸ hchosen.internal hstep, by rw [hv]; exact hcb, .inl ?_⟩
      have hlt := queued_completeTail_lt (k := k) hq
      have hqueued : FlashApi.queued { s with curModId := m.toNat, curMod := some m } =
          s.queued := rfl
      have hle := stale_le (s := v)
      rw [← hv] at hlt
      unfold FlashApi.work
      omega
    · rw [if_pos rfl] at hv
      have hstep := Internal.suspend (P := fun _ _ _ => True) hq rfl cells trivial k
      refine ⟨hv ▸ hchosen.internal hstep, by rw [hv]; exact hcb, .inr ⟨by simp, ?_⟩⟩
      have hqueue : ∀ m', (v.modInfo m').operaInfo.length = (s.modInfo m').operaInfo.length := by
        intro m'
        rw [hv]
        by_cases hm : m' = m
        · have hq : (s.modInfo m).operaInfo = q ++ [t] := hq
          simp [FlashApi.suspendTail, hm, hq]
        · simp [FlashApi.suspendTail, Function.update_of_ne hm]
      have hqueued : v.queued = s.queued :=
        congrArg List.sum (List.map_congr_left fun m' _ => hqueue m')
      have hstale : v.stale = 0 := by
        refine stale_of_ne_nil (m := m) (by rw [hv]; rfl) ?_
        rw [hv]
        simp [FlashApi.suspendTail]
      unfold FlashApi.work
      omega

/-! ### The loop -/

/-- Every operation is suspended finitely often. -/
def Fair (answers : Nat → HalAnswer) : Prop := ∀ i, ∃ j ≥ i, answers j = .ok

theorem Fair.tail (h : Fair answers) : Fair fun i => answers (i + 1) := by
  intro i
  obtain ⟨j, hj, hok⟩ := h (i + 1)
  obtain ⟨k, rfl⟩ : ∃ k, j = k + 1 := ⟨j - 1, by omega⟩
  exact ⟨k, by omega, hok⟩

/-- The loop ends with everything flushed. The induction is on the work to be done and, while an
operation is suspended, on the number of answers up to the next completion. -/
theorem OnFlash.exists_flushLoop (hs : OnFlash pf s) (hcb : s.allowedCb = false)
    (hfair : Fair answers) (hallowed : ∀ i, (answers i).Allowed pf) :
    ∃ fuel t, flushLoop pf answers fuel s = some t ∧ Empty t := by
  obtain ⟨j, -, hok⟩ := hfair 0
  induction hwork : s.work using Nat.strongRecOn generalizing s answers j with
  | ind n ih =>
    induction j generalizing s answers with
    | zero =>
      obtain ⟨t, more, hflush, ht, hcbt, hempty, hprogress⟩ :=
        hs.norflashApiFlush_progress hcb (hallowed 0)
      cases more with
      | false => exact ⟨1, t, by simp [flushLoop, hflush], hempty rfl⟩
      | true =>
        obtain ⟨j, -, hok'⟩ := hfair.tail 0
        have hlt : t.work < n := by
          rcases hprogress rfl with hlt | ⟨hsuspended, -⟩
          · exact hwork ▸ hlt
          · exact absurd hok hsuspended
        obtain ⟨fuel, u, hu, hdone⟩ :=
          ih t.work hlt ht hcbt hfair.tail (fun i => hallowed (i + 1)) j
          hok' rfl
        exact ⟨fuel + 1, u, by simp [flushLoop, hflush, hu], hdone⟩
    | succ j ihj =>
      obtain ⟨t, more, hflush, ht, hcbt, hempty, hprogress⟩ :=
        hs.norflashApiFlush_progress hcb (hallowed 0)
      cases more with
      | false => exact ⟨1, t, by simp [flushLoop, hflush], hempty rfl⟩
      | true =>
        have hle : t.work ≤ n := by
          rcases hprogress rfl with hlt | ⟨-, hle⟩
          · exact Nat.le_of_lt (hwork ▸ hlt)
          · exact hwork ▸ hle
        obtain ⟨fuel, u, hu, hdone⟩ : ∃ fuel u,
            flushLoop pf (fun i => answers (i + 1)) fuel t = some u ∧ Empty u := by
          rcases Nat.lt_or_eq_of_le hle with hlt | heq
          · exact ih t.work hlt ht hcbt hfair.tail (fun i => hallowed (i + 1)) j hok rfl
          · exact ihj ht hcbt hfair.tail (fun i => hallowed (i + 1)) hok heq
        exact ⟨fuel + 1, u, by simp [flushLoop, hflush, hu], hdone⟩

theorem onFlash_of_run {flash : FlashId → Content} {es : List Event}
    (hes : Along (step pf) (fun _ e => e.OnFlash pf) (init pf flash) es)
    (h : es.foldlM (step pf) (init pf flash) = some s) : OnFlash pf s :=
  hes.preserves (fun _ _ _ hs he ht => hs.step he ht) h (onFlash_init pf flash)

/-- From every state that is reached, the loop ends with nothing queued and the pools free, however
often each operation is suspended. -/
theorem flushAll_run (pf : Platform) (flash : FlashId → Content) (es : List Event)
    (hes : Along (step pf) (fun _ e => e.OnFlash pf) (init pf flash) es)
    (h : es.foldlM (step pf) (init pf flash) = some s) (answers : Nat → HalAnswer)
    (hfair : Fair answers) (hallowed : ∀ i, (answers i).Allowed pf) :
    ∃ fuel t, norflashApiFlushAll pf answers fuel s = some t ∧ Empty t := by
  have hs := onFlash_of_run hes h
  refine hs.flushEnable.exists_flushLoop ?_ hfair hallowed
  rw [norflashApiFlushEnable, if_neg (by simp [hs.wf.inited])]

/-- A suspended write, and an erase behind it. -/
def flushAllEvents : List Event :=
  [registerUserdata, .write .userdata 0x3C700010 (fun _ => 0xA5) 4 true [],
    .erase .userdata 0x3C701000 0x1000 true [], .flush [] (.suspended fun _ => 0xFF)]

/-- The HAL suspends once more, and then completes everything. -/
def suspendedOnce : Nat → HalAnswer
  | 0 => .suspended fun _ => 0xFF
  | _ + 1 => .ok

/-- Both operations are flushed. -/
theorem flushAll_run_suspended : ∃ s, flushAllEvents.foldlM (step board)
    (init board fun _ _ => 0xFF) = some s ∧
      ∃ fuel t, norflashApiFlushAll board suspendedOnce fuel s = some t ∧ Empty t := by
  have hrun : ((flushAllEvents.foldlM (step board) (init board fun _ _ => 0xFF)).map
      fun s => (s.modInfo .userdata).operaInfo.length) = some 2 := by decide +kernel
  obtain ⟨s, hs, -⟩ := Option.map_eq_some_iff.1 hrun
  have hes : Along (step board) (fun _ e => e.OnFlash board) (init board fun _ _ => 0xFF)
      flushAllEvents :=
    ⟨⟨userdataRegion, rfl, rfl, rfl, rfl, rfl, rfl⟩, fun _ _ => ⟨by
      change 4 < 2 ^ 31
      decide, fun _ _ => ⟨trivial, fun _ _ => ⟨trivial, fun _ _ => trivial⟩⟩⟩⟩
  refine ⟨s, hs, flushAll_run board _ _ hes hs suspendedOnce (fun i => ⟨i + 1, by omega, rfl⟩) ?_⟩
  intro i
  cases i with
  | zero => rfl
  | succ i => trivial

end EarbudFirmware.Norflash
